/-
# QueryCost.Proofs.Analysis.Skeleton -- what of a document its price depends on

The skeleton of a document is what is left of it when everything is dropped that is
not charged: aliases, the names of operations and fragments, variables, directives
with all their arguments, type conditions, fragment spreads and definitions of types.
Of the arguments of a field one bit is kept, whether any of them bounds the length of a
list.  A selection set stays where it is even if nothing is left in it, because it is a
level of nesting.

The occurrences of a document and its height can be read off its skeleton
(`occurrences_ofDocument`, `height_ofDocument`), and an analysis depends on a document
through these two only.  So documents with one skeleton have one outcome under all
rules, whether it is a report or a refusal (`analyze_eq_of_skeleton_eq`).
-/
import QueryCost.Proofs.Analysis.Ceilings

namespace QueryCost.Analysis

open QueryCost.GraphQL

set_option autoImplicit false

/-! ## Skeletons -/

/-- What is charged for of a selection. -/
inductive Bone
  | leaf (name : String) (sized : Bool)
  | branch (name : String) (sized : Bool) (below : List Bone)
  /-- A selection set that belongs to no field. -/
  | level (below : List Bone)

/-- What is charged for of a definition. -/
inductive Limb
  | operation (kind : OperationKind) (below : List Bone)
  | fragment (below : List Bone)

namespace Skeleton

/-- Whether some own argument of a field is named so that it bounds the length of a list. -/
def sized (f : Field) : Bool :=
  f.arguments.any fun a => a.name ∈ ["first", "last", "limit"]

mutual

/-- One bone, or none for a fragment spread. -/
def ofSelection : Selection → List Bone
  | .leaf f => [.leaf f.name (sized f)]
  | .branch f selections => [.branch f.name (sized f) (ofSelections selections)]
  | .inlineFragment _ _ selections => [.level (ofSelections selections)]
  | .fragmentSpread _ _ => []

def ofSelections : List Selection → List Bone
  | [] => []
  | s :: rest => ofSelection s ++ ofSelections rest

end

/-- The kind of an operation; without a keyword it is a query. -/
def kind (head : Option OperationHead) : OperationKind :=
  (head.map (·.kind)).getD .query

/-- One limb, or none for a definition of types. -/
def ofDefinition : Definition → List Limb
  | .operation head selections => [.operation (kind head) (ofSelections selections)]
  | .fragment _ selections => [.fragment (ofSelections selections)]
  | .typeSystem => []

def ofDocument (d : Document) : List Limb :=
  d.definitions.flatMap ofDefinition

/-! ## Occurrences and height of a skeleton -/

mutual

def occurrences (depth : Nat) (type : String) : Bone → List Occurrence
  | .leaf name sized => [⟨depth, type, name, sized⟩]
  | .branch name sized below =>
      ⟨depth, type, name, sized⟩ :: occurrencesOf (depth + 1) (capitalize name) below
  | .level below => occurrencesOf (depth + 1) type below

def occurrencesOf (depth : Nat) (type : String) : List Bone → List Occurrence
  | [] => []
  | b :: rest => occurrences depth type b ++ occurrencesOf depth type rest

end

mutual

def height : Bone → Nat
  | .leaf _ _ => 0
  | .branch _ _ below => heightOf below + 1
  | .level below => heightOf below + 1

def heightOf : List Bone → Nat
  | [] => 0
  | b :: rest => max (height b) (heightOf rest)

end

def rootType : OperationKind → String
  | .query => "Query"
  | .mutation => "Mutation"
  | .subscription => "Subscription"

def limbOccurrences : Limb → List Occurrence
  | .operation kind below => occurrencesOf 1 (rootType kind) below
  | .fragment below => occurrencesOf 1 unknownType below

def limbHeight : Limb → Nat
  | .operation _ below => heightOf below + 1
  | .fragment below => heightOf below + 1

/-! ## They are those of the document -/

theorem occurrencesOf_append (depth : Nat) (type : String) (bones more : List Bone) :
    occurrencesOf depth type (bones ++ more) =
      occurrencesOf depth type bones ++ occurrencesOf depth type more := by
  induction bones with
  | nil => rfl
  | cons b bones ih => rw [List.cons_append, occurrencesOf, occurrencesOf, ih, List.append_assoc]

theorem heightOf_append (bones more : List Bone) :
    heightOf (bones ++ more) = max (heightOf bones) (heightOf more) := by
  induction bones with
  | nil => rw [List.nil_append, heightOf, Nat.zero_max]
  | cons b bones ih => rw [List.cons_append, heightOf, heightOf, ih, Nat.max_assoc]

mutual

theorem occurrences_ofSelection (depth : Nat) (type : String) : (s : Selection) →
    Occurrence.ofSelection depth type s = occurrencesOf depth type (ofSelection s)
  | .leaf f => rfl
  | .branch f s => by
      have below := occurrences_ofSelections (depth + 1) f.typeBelow s
      rw [Occurrence.ofSelection, below, ofSelection, occurrencesOf, occurrences, occurrencesOf,
        List.append_nil]
      rfl
  | .inlineFragment condition directives s => by
      have below := occurrences_ofSelections (depth + 1) type s
      rw [Occurrence.ofSelection, below, ofSelection, occurrencesOf, occurrences, occurrencesOf,
        List.append_nil]
  | .fragmentSpread name directives => rfl

theorem occurrences_ofSelections (depth : Nat) (type : String) : (s : List Selection) →
    Occurrence.ofSelections depth type s = occurrencesOf depth type (ofSelections s)
  | [] => rfl
  | s :: rest => by
      have first := occurrences_ofSelection depth type s
      have others := occurrences_ofSelections depth type rest
      rw [Occurrence.ofSelections, first, others, ofSelections, occurrencesOf_append]

end

mutual

theorem height_ofSelection : (s : Selection) → selectionHeight s = heightOf (ofSelection s)
  | .leaf f => rfl
  | .branch f s => by
      have below := height_ofSelections s
      rw [selectionHeight, below, ofSelection, heightOf, height, heightOf, Nat.max_zero]
  | .inlineFragment condition directives s => by
      have below := height_ofSelections s
      rw [selectionHeight, below, ofSelection, heightOf, height, heightOf, Nat.max_zero]
  | .fragmentSpread name directives => rfl

theorem height_ofSelections : (s : List Selection) →
    selectionsHeight s = heightOf (ofSelections s)
  | [] => rfl
  | s :: rest => by
      have first := height_ofSelection s
      have others := height_ofSelections rest
      rw [selectionsHeight, first, others, ofSelections, heightOf_append]

end

theorem rootType_kind (head : Option OperationHead) :
    rootType (kind head) = GraphQL.rootType head := by
  cases head with
  | none => rfl
  | some head =>
      show rootType head.kind = GraphQL.rootType (some head)
      rw [GraphQL.rootType]
      cases head.kind <;> rfl

theorem occurrences_ofDefinition (d : Definition) :
    Occurrence.ofDefinition d = (ofDefinition d).flatMap limbOccurrences := by
  cases d with
  | operation head s =>
      rw [Occurrence.ofDefinition, occurrences_ofSelections, ← rootType_kind, ofDefinition,
        List.flatMap_singleton, limbOccurrences]
  | fragment head s =>
      rw [Occurrence.ofDefinition, occurrences_ofSelections, ofDefinition,
        List.flatMap_singleton, limbOccurrences]
  | typeSystem => rfl

theorem occurrences_ofDocument (d : Document) :
    Occurrence.ofDocument d = (ofDocument d).flatMap limbOccurrences := by
  have each : Occurrence.ofDefinition = fun d => (ofDefinition d).flatMap limbOccurrences :=
    funext occurrences_ofDefinition
  rw [Occurrence.ofDocument, ofDocument, List.flatMap_assoc, each]

theorem height_ofDefinition (d : Definition) (h : Nat) :
    max h (definitionHeight d) =
      (ofDefinition d).foldl (fun h limb => max h (limbHeight limb)) h := by
  cases d with
  | operation head s =>
      rw [definitionHeight, height_ofSelections]
      rfl
  | fragment head s =>
      rw [definitionHeight, height_ofSelections]
      rfl
  | typeSystem => exact Nat.max_zero h

theorem height_ofDocument (d : Document) :
    documentHeight d = (ofDocument d).foldl (fun h limb => max h (limbHeight limb)) 0 := by
  simp only [documentHeight, ofDocument, List.foldl_flatMap, height_ofDefinition]

/-- A report without ceilings is told by the skeleton. -/
theorem report_eq_of_eq {K : Type} [Zero K] [One K] [Add K] [Mul K] [BEq K] (tariff : Tariff K)
    {d d' : Document} (same : ofDocument d = ofDocument d') :
    Report.ofDocument tariff d = Report.ofDocument tariff d' := by
  have occurrences : Occurrence.ofDocument d = Occurrence.ofDocument d' := by
    rw [occurrences_ofDocument, same, occurrences_ofDocument]
  have height : documentHeight d = documentHeight d' := by
    rw [height_ofDocument, same, height_ofDocument]
  rw [Report.ofDocument, Report.ofDocument, occurrences, height]

end Skeleton

/-- **Only the skeleton is charged.**  Documents with the same skeleton have the same outcome under
all rules. -/
theorem analyze_eq_of_skeleton_eq {d d' : Document}
    (same : Skeleton.ofDocument d = Skeleton.ofDocument d') (rules : Rules Float) :
    analyze rules d = analyze rules d' := by
  rw [analyze_eq_heldTo, analyze_eq_heldTo, Skeleton.report_eq_of_eq rules.tariff same]

/-- The document `query Q($n: Int) { id: items(first: $n, last: 1) @p(limit: 1) { ...F }
... on T { id } } type T { id: Int }`. -/
def dressedDocument : Document :=
  ⟨[.operation
      (some ⟨.query, some "Q", [⟨"n", .named "Int", none, []⟩], []⟩)
      [.branch ⟨some "id", "items", [.given "first" (.variable "n"), .given "last" (.number "1")],
          [⟨"p", [.given "limit" (.number "1")]⟩]⟩
        [.fragmentSpread "F" []],
        .inlineFragment (some "T") [] [.leaf ⟨none, "id", [], []⟩]],
    .typeSystem]⟩

/-- The document `{ items(limit: 3) { ...G } ... @p(first: 1) { items: id(after: 2) } ...H }`. -/
def plainDocument : Document :=
  ⟨[.operation none
      [.branch ⟨none, "items", [.given "limit" (.number "3")], []⟩ [.fragmentSpread "G" []],
        .inlineFragment none [⟨"p", [.given "first" (.number "1")]⟩]
          [.leaf ⟨some "items", "id", [.given "after" (.number "2")], []⟩],
        .fragmentSpread "H" []]]⟩

theorem analyze_dressed_eq_plain :
    Skeleton.ofDocument dressedDocument = Skeleton.ofDocument plainDocument ∧
      ∀ rules : Rules Float, analyze rules dressedDocument = analyze rules plainDocument :=
  ⟨rfl, analyze_eq_of_skeleton_eq rfl⟩

end QueryCost.Analysis
