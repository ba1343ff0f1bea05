/-
# QueryCost.Proofs.Analysis.Sites -- fields with what is around them

A site is a field of a document together with the selection sets around it.  Its
depth is their number, and its type is told by the nearest of them that tells one:
a field its own name with a capital, an operation its root type; inside a fragment,
where none does, the type is unknown.  Nothing of this is carried along: depth and
type are read off the path of a site, and what stands beside it does not matter.

The analysis without ceilings sums over the sites of a document
(`analyze_eq_sum_over_sites`).
-/
import QueryCost.Proofs.Analysis.Ceilings
import QueryCost.Proofs.Ledger

namespace QueryCost.Analysis

open QueryCost.GraphQL

set_option autoImplicit false

/-- What a selection set belongs to. -/
inductive Owner
  | operation (head : Option OperationHead)
  | fragment
  | field (f : Field)
  | inlineFragment

/-- The type that fields are charged under because of an owner of a set around them. -/
def Owner.type? : Owner → Option String
  | .operation head => some (rootType head)
  | .fragment => none
  | .field f => some (capitalize f.name)
  | .inlineFragment => none

/-- An operation tells its keyword with a capital; one that has no keyword is a query. -/
theorem Owner.type?_operation (head : Option OperationHead) :
    (Owner.operation head).type? =
      some (capitalize ((head.map OperationHead.kind).getD .query).keyword) :=
  congrArg some (rootType_eq_capitalize head)

example : [OperationKind.query, .mutation, .subscription].map (capitalize ·.keyword) =
    ["Query", "Mutation", "Subscription"] := by decide +kernel

/-- A field tells its own name, of which the first letter is made a capital and nothing else is
changed. -/
theorem Owner.type?_field (f : Field) :
    (Owner.field f).type?.map String.toList = some (f.name.toList.modifyHead Char.toUpper) :=
  congrArg some (toList_capitalize f.name)

/-- A field and the owners of the selection sets around it, the innermost first. -/
structure Site where
  owners : List Owner
  field : Field

namespace Site

def depth (s : Site) : Nat :=
  s.owners.length

/-- The nearest owner that has a type gives it. -/
def type (s : Site) : String :=
  (s.owners.findSome? Owner.type?).getD "Unknown"

def qualifiedName (s : Site) : String :=
  s.type ++ "." ++ s.field.name

variable {K : Type} [Mul K] [One K] [BEq K]

/-- Base cost, depth multiplier and list multiplier, in this order. -/
def charge (tariff : Tariff K) (s : Site) : K :=
  (tariff.fieldCosts.get? s.qualifiedName).getD tariff.defaultCost
    * (if tariff.depthFactor == 1 then 1 else power tariff.depthFactor s.depth)
    * (if s.field.arguments.any (fun a => a.name ∈ ["first", "last", "limit"]) then
        tariff.listFactor
      else 1)

/-! ## The sites of a document, in the order of its text -/

mutual

def ofSelection (owners : List Owner) : Selection → List Site
  | .leaf field => [⟨owners, field⟩]
  | .branch field selections => ⟨owners, field⟩ :: ofSelections (.field field :: owners) selections
  | .inlineFragment _ _ selections => ofSelections (.inlineFragment :: owners) selections
  | .fragmentSpread _ _ => []

def ofSelections (owners : List Owner) : List Selection → List Site
  | [] => []
  | s :: rest => ofSelection owners s ++ ofSelections owners rest

end

def ofDefinition : Definition → List Site
  | .operation head selections => ofSelections [.operation head] selections
  | .fragment _ selections => ofSelections [.fragment] selections
  | .typeSystem => []

def ofDocument (d : Document) : List Site :=
  d.definitions.flatMap ofDefinition

/-! ## Sites and occurrences -/

/-- What is left of a site when its path is forgotten. -/
def occurrence (s : Site) : Occurrence :=
  ⟨s.depth, s.type, s.field.name, s.field.isSized⟩

@[simp] theorem qualifiedName_occurrence (s : Site) :
    s.occurrence.qualifiedName = s.qualifiedName := rfl

@[simp] theorem charge_occurrence (tariff : Tariff K) (s : Site) :
    s.occurrence.charge tariff = s.charge tariff := rfl

/-- The type that a field directly inside these sets is charged under. -/
def typeInside (owners : List Owner) : String :=
  (owners.findSome? Owner.type?).getD "Unknown"

theorem typeInside_field (owners : List Owner) (f : Field) :
    typeInside (.field f :: owners) = f.typeBelow := rfl

theorem typeInside_inlineFragment (owners : List Owner) :
    typeInside (.inlineFragment :: owners) = typeInside owners := rfl

mutual

theorem map_occurrence_ofSelection (owners : List Owner) : (s : Selection) →
    (ofSelection owners s).map occurrence =
      Occurrence.ofSelection owners.length (typeInside owners) s
  | .leaf field => rfl
  | .branch field s => by
      have below := map_occurrence_ofSelections (.field field :: owners) s
      rw [typeInside_field, List.length_cons] at below
      rw [ofSelection, List.map_cons, below, Occurrence.ofSelection]
      rfl
  | .inlineFragment type directives s => by
      have below := map_occurrence_ofSelections (.inlineFragment :: owners) s
      rw [typeInside_inlineFragment, List.length_cons] at below
      rw [ofSelection, below, Occurrence.ofSelection]
  | .fragmentSpread name directives => rfl

theorem map_occurrence_ofSelections (owners : List Owner) : (s : List Selection) →
    (ofSelections owners s).map occurrence =
      Occurrence.ofSelections owners.length (typeInside owners) s
  | [] => rfl
  | s :: rest => by
      have first := map_occurrence_ofSelection owners s
      have others := map_occurrence_ofSelections owners rest
      rw [ofSelections, List.map_append, first, others, Occurrence.ofSelections]

end

theorem map_occurrence_ofDefinition (d : Definition) :
    (ofDefinition d).map occurrence = Occurrence.ofDefinition d := by
  cases d with
  | operation head s => exact map_occurrence_ofSelections [.operation head] s
  | fragment head s => exact map_occurrence_ofSelections [.fragment] s
  | typeSystem => rfl

theorem map_occurrence_ofDocument (d : Document) :
    (ofDocument d).map occurrence = Occurrence.ofDocument d := by
  simp only [ofDocument, Occurrence.ofDocument, List.map_flatMap, map_occurrence_ofDefinition]

end Site

/-! ## The analysis as a sum -/

section Sum

variable {K : Type} [Zero K] [One K] [Add K] [Mul K] [BEq K] (tariff : Tariff K) (d : Document)

theorem cost_ofDocument :
    (Report.ofDocument tariff d).cost =
      ((Site.ofDocument d).map (·.charge tariff)).foldl (· + ·) 0 := by
  simp only [Report.ofDocument, ← Site.map_occurrence_ofDocument, List.foldl_map,
    Site.charge_occurrence]

theorem fields_ofDocument :
    (Report.ofDocument tariff d).fields =
      (Site.ofDocument d).foldl (fun l s => l.add s.qualifiedName (s.charge tariff)) ∅ := by
  simp only [Report.ofDocument, ← Site.map_occurrence_ofDocument, List.foldl_map,
    Site.charge_occurrence, Site.qualifiedName_occurrence]

theorem get?_fields_ofDocument (name : String) :
    (Report.ofDocument tariff d).fields.get? name =
      if ∃ s ∈ Site.ofDocument d, s.qualifiedName = name then
        some ((((Site.ofDocument d).filter (·.qualifiedName = name)).map
          (·.charge tariff)).foldl (· + ·) 0)
      else none := by
  rw [fields_ofDocument, Ledger.get?_foldl_add, Ledger.get?_empty]
  rfl

end Sum

/-- Without ceilings the analysis always succeeds: the cost is the sum of the charges
of all sites from the left, the names are those of the sites, each with the sum of the
charges under it, and the depth is the height of the document. -/
theorem analyze_eq_sum_over_sites (tariff : Tariff Float) (d : Document) :
    ∃ r, analyze ⟨tariff, .none⟩ d = .ok r ∧
      r.cost = ((Site.ofDocument d).map (·.charge tariff)).foldl (· + ·) 0.0 ∧
      (∀ name, name ∈ r.fields.names ↔ ∃ s ∈ Site.ofDocument d, s.qualifiedName = name) ∧
      (∀ name ∈ r.fields.names, r.fields.get? name =
        some ((((Site.ofDocument d).filter (·.qualifiedName = name)).map
          (·.charge tariff)).foldl (· + ·) 0.0)) ∧
      r.depth = documentHeight d := by
  refine ⟨_, analyze_unlimited ⟨tariff, .none⟩ d, cost_ofDocument tariff d, ?_, ?_, rfl⟩
  · intro name
    rw [Ledger.mem_names_iff, get?_fields_ofDocument]
    split <;> simp_all
  · intro name listed
    rw [Ledger.mem_names_iff, get?_fields_ofDocument] at listed
    rw [get?_fields_ofDocument]
    split at listed
    · rename_i occurs
      rw [if_pos occurs]
      rfl
    · simp at listed

end QueryCost.Analysis
