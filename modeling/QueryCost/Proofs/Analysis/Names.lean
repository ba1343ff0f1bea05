/-
# QueryCost.Proofs.Analysis.Names -- qualified names tell their parts

Amounts are kept under one text, the type of a field and its name with a point between
them.  Names of GraphQL have no point in them, and a type is such a name too: it is a root
type or `Unknown`, or else the name of a field with a capital letter, which is a name again
(`IsNameText.capitalize`).  So no type has a point in it in a document whose fields have
names (`Site.isNameText_type`), and a qualified name comes apart in one way only
(`qualifiedName_inj`).

Hence fields share an entry exactly if they share type and name, and a cost that is set for
the field `f` of the type `T` is the base cost of the fields of this type and name and of no
others.
-/
import Mathlib.Data.Finset.Card
import Mathlib.Data.List.Basic
import QueryCost.Proofs.Analysis.Entries
import QueryCost.Proofs.GraphQL.Spelling

namespace QueryCost

open QueryCost.GraphQL

set_option autoImplicit false

/-! ## Names -/

namespace GraphQL

instance : DecidablePred IsNameText
  | [] => isFalse fun isName => by
      obtain ⟨c, rest, text, -⟩ := isName
      cases text
  | c :: rest =>
      decidable_of_iff (Token.isNameStart c = true ∧ rest.all Token.isNameChar = true)
        ⟨fun ⟨start, more⟩ => ⟨c, rest, rfl, start, List.all_eq_true.1 more⟩, fun isName => by
          obtain ⟨_, _, text, start, more⟩ := isName
          cases text
          exact ⟨start, List.all_eq_true.2 more⟩⟩

theorem isNameStart_of_isUpper {c : Char} (upper : c.isUpper = true) :
    Token.isNameStart c = true := by
  show (c.isUpper || c.isLower || c = '_') = true
  rw [upper]
  rfl

/-- A small letter starts a name as a capital too, and nothing else is changed. -/
theorem isNameStart_toUpper {c : Char} (start : Token.isNameStart c = true) :
    Token.isNameStart c.toUpper = true := by
  by_cases small : 97 ≤ c.toNat ∧ c.toNat ≤ 122
  · have code : c.toUpper.toNat = c.toNat - 32 := by rw [toNat_toUpper, if_pos small]
    have upper : 65 ≤ c.toUpper.toNat ∧ c.toUpper.toNat ≤ 90 := by omega
    refine isNameStart_of_isUpper (decide_eq_true ?_)
    exact upper.imp UInt32.le_iff_toNat_le.2 UInt32.le_iff_toNat_le.2
  · have same : c.toUpper.toNat = c.toNat := by rw [toNat_toUpper, if_neg small]
    rwa [Char.toNat_inj.1 same]

theorem IsNameText.capitalize {name : String} (isName : IsNameText name.toList) :
    IsNameText (GraphQL.capitalize name).toList := by
  obtain ⟨c, rest, text, start, more⟩ := isName
  refine ⟨c.toUpper, rest, ?_, isNameStart_toUpper start, more⟩
  rw [toList_capitalize, text, List.modifyHead_cons]

theorem isNameText_keyword (kind : OperationKind) : IsNameText kind.keyword.toList := by
  cases kind <;> decide

theorem isNameText_rootType (head : Option OperationHead) :
    IsNameText (rootType head).toList := by
  rw [rootType_eq_capitalize]
  exact (isNameText_keyword _).capitalize

theorem IsNameText.point_notMem {cs : List Char} (isName : IsNameText cs) : '.' ∉ cs := by
  obtain ⟨c, rest, rfl, start, more⟩ := isName
  have other : ¬ Token.isNameChar '.' = true := by decide
  intro among
  rcases List.mem_cons.1 among with rfl | among
  · exact other (Token.isNameChar_of_isNameStart start)
  · exact other (more _ among)

theorem toList_qualifiedName (type name : String) :
    (qualifiedName type name).toList = type.toList ++ '.' :: name.toList := by
  simp [qualifiedName]

/-- There is one way to take a qualified name apart if it was put together of parts without a
point. -/
theorem qualifiedName_inj {type name type' name' : String} (plain : '.' ∉ type.toList)
    (plain' : '.' ∉ name.toList) :
    qualifiedName type name = qualifiedName type' name' ↔ type = type' ∧ name = name' := by
  rw [← String.toList_inj, toList_qualifiedName, toList_qualifiedName,
    List.append_cons_inj_of_notMem plain plain', String.toList_inj, String.toList_inj]
  exact and_congr_right fun _ => and_iff_right rfl

end GraphQL

namespace Analysis

/-! ## Types of sites -/

namespace Site

/-- All fields among some sites have names of GraphQL. -/
def Named (sites : List Site) : Prop :=
  ∀ s ∈ sites, IsNameText s.field.name.toList

instance : DecidablePred Named := fun sites =>
  inferInstanceAs (Decidable (∀ s ∈ sites, IsNameText s.field.name.toList))

mutual

/-- Where the type around a selection is a name and the fields in it have names, the types in it
are names. -/
theorem isNameText_type_ofSelection (owners : List Owner)
    (around : IsNameText (typeInside owners).toList) : (s : Selection) →
    Named (ofSelection owners s) → ∀ x ∈ ofSelection owners s, IsNameText x.type.toList
  | .leaf _, _ => List.forall_mem_singleton.2 around
  | .branch field s, named => by
      obtain ⟨own, below⟩ := List.forall_mem_cons.1 named
      have inside : IsNameText (typeInside (.field field :: owners)).toList := own.capitalize
      exact List.forall_mem_cons.2 ⟨around, isNameText_type_ofSelections _ inside s below⟩
  | .inlineFragment _ _ s, named =>
      isNameText_type_ofSelections (.inlineFragment :: owners) around s named
  | .fragmentSpread _ _, _ => nofun

theorem isNameText_type_ofSelections (owners : List Owner)
    (around : IsNameText (typeInside owners).toList) : (s : List Selection) →
    Named (ofSelections owners s) → ∀ x ∈ ofSelections owners s, IsNameText x.type.toList
  | [], _ => nofun
  | s :: rest, named => by
      obtain ⟨first, others⟩ := List.forall_mem_append.1 named
      exact List.forall_mem_append.2 ⟨isNameText_type_ofSelection owners around s first,
        isNameText_type_ofSelections owners around rest others⟩

end

theorem isNameText_type_ofDefinition {d : Definition} (named : Named (ofDefinition d)) :
    ∀ s ∈ ofDefinition d, IsNameText s.type.toList := by
  cases d with
  | operation head s =>
      exact isNameText_type_ofSelections [.operation head] (isNameText_rootType head) s
        named
  | fragment head s =>
      have unknown : IsNameText "Unknown".toList := by decide
      exact isNameText_type_ofSelections [.fragment] unknown s named
  | typeSystem => nofun

theorem isNameText_type {d : Document} (named : Named (ofDocument d)) :
    ∀ s ∈ ofDocument d, IsNameText s.type.toList := by
  intro s among
  obtain ⟨definition, listed, inside⟩ := List.mem_flatMap.1 among
  refine isNameText_type_ofDefinition (fun x within => ?_) s inside
  exact named x (List.mem_flatMap.2 ⟨definition, listed, within⟩)

/-! ## Sites under a qualified name -/

/-- The sites of a type and a name. -/
def ofParts (d : Document) (type name : String) : List Site :=
  (ofDocument d).filter fun s => s.type = type ∧ s.field.name = name

theorem qualifiedName_eq_iff {d : Document} (named : Named (ofDocument d)) {s : Site}
    (among : s ∈ ofDocument d) (type name : String) :
    s.qualifiedName = type ++ "." ++ name ↔ s.type = type ∧ s.field.name = name :=
  qualifiedName_inj (isNameText_type named s among).point_notMem (named s among).point_notMem

theorem chargesUnder_qualifiedName {K : Type} [One K] [Mul K] [BEq K] {d : Document}
    (named : Named (ofDocument d)) (tariff : Tariff K) (type name : String) :
    chargesUnder tariff d (type ++ "." ++ name) = (ofParts d type name).map (·.charge tariff) := by
  rw [chargesUnder, ofParts]
  refine congrArg _ (List.filter_congr fun s among => ?_)
  rw [decide_eq_decide]
  exact qualifiedName_eq_iff named among type name

/-- Amounts are kept together if type and name are the same, so there are as many of them as there
are pairs of a type and a name. -/
theorem size_fields_eq_card {K : Type} [Zero K] [One K] [Add K] [Mul K] [BEq K] {d : Document}
    (named : Named (ofDocument d)) (tariff : Tariff K) :
    (Report.ofDocument tariff d).fields.size =
      ((ofDocument d).map fun s => (s.type, s.field.name)).toFinset.card := by
  have names : (Report.ofDocument tariff d).fields.size =
      ((ofDocument d).map (·.qualifiedName)).toFinset.card :=
    Ledger.size_eq_card fun name => by
      rw [mem_names_fields_iff, List.mem_map]
  have joined : ((ofDocument d).map (·.qualifiedName)).toFinset =
      ((ofDocument d).map fun s => (s.type, s.field.name)).toFinset.image
        fun parts => GraphQL.qualifiedName parts.1 parts.2 := by
    ext name
    simp [Site.qualifiedName, GraphQL.qualifiedName]
  rw [names, joined, Finset.card_image_of_injOn]
  intro parts among parts' among' same
  obtain ⟨s, inside, rfl⟩ := List.mem_map.1 (List.mem_toFinset.1 among)
  obtain ⟨s', -, rfl⟩ := List.mem_map.1 (List.mem_toFinset.1 among')
  exact Prod.ext_iff.2 ((qualifiedName_eq_iff named inside s'.type s'.field.name).1 same)

end Site

/-- **Qualified names do not collide** where fields have names of GraphQL, whatever their aliases.
Two fields share a qualified name exactly if they share type and name.  Under the name of a type and
a field stands the sum of the charges of the fields of this type and name, and there are as many
entries as there are pairs of a type and a name.  The cost set for such a pair is the base cost of
the fields of this type and name, and no other charge depends on it. -/
theorem qualified_names_never_collide {d : Document} (named : Site.Named (Site.ofDocument d))
    (rules : Rules Float) :
    (∀ s ∈ Site.ofDocument d, ∀ s' ∈ Site.ofDocument d,
      s.qualifiedName = s'.qualifiedName ↔ s.type = s'.type ∧ s.field.name = s'.field.name) ∧
    (∃ r, analyze rules.unlimited d = .ok r ∧ (∀ r', analyze rules d = .ok r' → r' = r) ∧
      (∀ type name, r.fields.get? (type ++ "." ++ name) =
        Site.total? ((Site.ofParts d type name).map (·.charge rules.tariff))) ∧
      r.fields.size = ((Site.ofDocument d).map fun s => (s.type, s.field.name)).toFinset.card) ∧
    ∀ type name cost, ∀ s ∈ Site.ofDocument d,
      s.charge (rules.setFieldCost (type ++ "." ++ name) cost).tariff =
        if s.type = type ∧ s.field.name = name then s.chargeFrom cost rules.tariff
        else s.charge rules.tariff := by
  refine ⟨fun s inside s' _ => Site.qualifiedName_eq_iff named inside s'.type s'.field.name,
    ⟨_, analyze_unlimited rules d, fun r' accepted => ?_, fun type name => ?_,
      Site.size_fields_eq_card named rules.tariff⟩, fun type name cost s inside => ?_⟩
  · rw [analyze_eq_heldTo, heldTo_eq_ok_iff] at accepted
    exact accepted.2.2
  · rw [Site.get?_fields_eq_total?, Site.chargesUnder_qualifiedName named]
  · rw [Site.charge_setFieldCost]
    simp only [Site.qualifiedName_eq_iff named inside]

/-- The document `{ a { a } x: a { a } b { a } }`. -/
def sameNames : Document :=
  ⟨[.operation none
      [.branch ⟨none, "a", [], []⟩ [.leaf ⟨none, "a", [], []⟩],
        .branch ⟨some "x", "a", [], []⟩ [.leaf ⟨none, "a", [], []⟩],
        .branch ⟨none, "b", [], []⟩ [.leaf ⟨none, "a", [], []⟩]]]⟩

-- the entries are those of `Query.a`, `A.a`, `Query.b` and `B.a`
theorem qualified_names_never_collide_sameNames :
    Site.Named (Site.ofDocument sameNames) ∧
      ∃ r, analyze (Rules.unlimited ⟨⟨∅, 1.0, 2.0, 10.0⟩, .none⟩) sameNames = .ok r ∧
        r.fields.size = 4 := by
  have named : Site.Named (Site.ofDocument sameNames) := by decide +kernel
  obtain ⟨r, accepted, -, -, size⟩ :=
    (qualified_names_never_collide named ⟨⟨∅, 1.0, 2.0, 10.0⟩, .none⟩).2.1
  have pairs : ((Site.ofDocument sameNames).map
      fun s => (s.type, s.field.name)).toFinset.card = 4 := by decide +kernel
  exact ⟨named, r, accepted, size.trans pairs⟩

end Analysis

end QueryCost
