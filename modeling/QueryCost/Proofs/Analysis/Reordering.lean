/-
# QueryCost.Proofs.Analysis.Reordering -- the order in which a document is written

Two documents are reorderings of each other if they have the same definitions in another
order, and in these, at any levels, the same selections in another order.  A field keeps
what is around it wherever it goes among its neighbours, so the sites of the one document
are those of the other, in another order (`Reordered.sites_perm`), and neither is deeper.

The walk visits other branches first, but which of them it ends at is not told: a document
is refused with the first level above the ceiling (`analyze_eq_depth_iff`).  Without
ceilings every name has the same charges under it.  Their sum need not be the same, since
doubles are summed up in the order of the text.
-/
import Mathlib.Data.List.Forall2
import QueryCost.Proofs.Analysis.Breakdown
import QueryCost.Proofs.Analysis.Entries

namespace QueryCost.Analysis

open QueryCost.GraphQL

set_option autoImplicit false

/-! ## Reorderings -/

mutual

/-- The same selection, with the selections below it in another order. -/
inductive ReorderedSelection : Selection → Selection → Prop
  | leaf (f : Field) : ReorderedSelection (.leaf f) (.leaf f)
  | branch (f : Field) {s s' : List Selection} (below : ReorderedSelections s s') :
      ReorderedSelection (.branch f s) (.branch f s')
  | inlineFragment (condition : Option String) (directives : List Directive)
      {s s' : List Selection} (below : ReorderedSelections s s') :
      ReorderedSelection (.inlineFragment condition directives s)
        (.inlineFragment condition directives s')
  | fragmentSpread (name : String) (directives : List Directive) :
      ReorderedSelection (.fragmentSpread name directives) (.fragmentSpread name directives)

/-- The same selections in another order, each with what is below it in another order. -/
inductive ReorderedSelections : List Selection → List Selection → Prop
  | nil : ReorderedSelections [] []
  | cons {s s' : Selection} {rest rest' : List Selection} (first : ReorderedSelection s s')
      (more : ReorderedSelections rest rest') : ReorderedSelections (s :: rest) (s' :: rest')
  | swap (s t : Selection) (rest : List Selection) :
      ReorderedSelections (s :: t :: rest) (t :: s :: rest)
  | trans {s t u : List Selection} (first : ReorderedSelections s t)
      (second : ReorderedSelections t u) : ReorderedSelections s u

end

inductive ReorderedDefinition : Definition → Definition → Prop
  | operation (head : Option OperationHead) {s s' : List Selection}
      (below : ReorderedSelections s s') :
      ReorderedDefinition (.operation head s) (.operation head s')
  | fragment (head : FragmentHead) {s s' : List Selection} (below : ReorderedSelections s s') :
      ReorderedDefinition (.fragment head s) (.fragment head s')
  | typeSystem : ReorderedDefinition .typeSystem .typeSystem

/-- The same definitions in another order, each with what is in it in another order. -/
def Reordered (d d' : Document) : Prop :=
  ∃ between, List.Forall₂ ReorderedDefinition d.definitions between ∧
    between.Perm d'.definitions

/-! ## Sites -/

mutual

theorem ReorderedSelection.sites_perm : ∀ {s s' : Selection}, ReorderedSelection s s' →
    ∀ owners : List Owner, (Site.ofSelection owners s).Perm (Site.ofSelection owners s')
  | _, _, .leaf _, _ => .refl _
  | _, _, .branch f below, owners => (below.sites_perm (.field f :: owners)).cons _
  | _, _, .inlineFragment _ _ below, owners => below.sites_perm (.inlineFragment :: owners)
  | _, _, .fragmentSpread _ _, _ => .refl _

theorem ReorderedSelections.sites_perm : ∀ {s s' : List Selection}, ReorderedSelections s s' →
    ∀ owners : List Owner, (Site.ofSelections owners s).Perm (Site.ofSelections owners s')
  | _, _, .nil, _ => .refl _
  | _, _, .cons first more, owners => (first.sites_perm owners).append (more.sites_perm owners)
  | _, _, .swap s t rest, owners => by
      simp only [Site.ofSelections, ← List.append_assoc]
      exact List.perm_append_comm.append_right _
  | _, _, .trans first second, owners =>
      (first.sites_perm owners).trans (second.sites_perm owners)

end

theorem ReorderedDefinition.sites_perm {d d' : Definition} (reordered : ReorderedDefinition d d') :
    (Site.ofDefinition d).Perm (Site.ofDefinition d') := by
  cases reordered with
  | operation head below => exact below.sites_perm [.operation head]
  | fragment head below => exact below.sites_perm [.fragment]
  | typeSystem => exact .refl _

theorem sites_perm_of_inside {ds ds' : List Definition}
    (inside : List.Forall₂ ReorderedDefinition ds ds') :
    (ds.flatMap Site.ofDefinition).Perm (ds'.flatMap Site.ofDefinition) := by
  induction inside with
  | nil => exact .refl _
  | cons first _ ih => exact first.sites_perm.append ih

theorem Reordered.sites_perm {d d' : Document} (reordered : Reordered d d') :
    (Site.ofDocument d).Perm (Site.ofDocument d') := by
  obtain ⟨between, inside, order⟩ := reordered
  exact (sites_perm_of_inside inside).trans (order.flatMap_right _)

/-! ## Heights -/

mutual

theorem ReorderedSelection.height_eq : ∀ {s s' : Selection}, ReorderedSelection s s' →
    selectionHeight s = selectionHeight s'
  | _, _, .leaf _ => rfl
  | _, _, .branch _ below => congrArg (· + 1) below.height_eq
  | _, _, .inlineFragment _ _ below => congrArg (· + 1) below.height_eq
  | _, _, .fragmentSpread _ _ => rfl

theorem ReorderedSelections.height_eq : ∀ {s s' : List Selection}, ReorderedSelections s s' →
    selectionsHeight s = selectionsHeight s'
  | _, _, .nil => rfl
  | _, _, .cons first more => by
      rw [selectionsHeight, selectionsHeight, first.height_eq, more.height_eq]
  | _, _, .swap s t rest => by
      simp only [selectionsHeight]
      exact Nat.max_left_comm _ _ _
  | _, _, .trans first second => first.height_eq.trans second.height_eq

end

theorem ReorderedDefinition.height_eq {d d' : Definition} (reordered : ReorderedDefinition d d') :
    definitionHeight d = definitionHeight d' := by
  cases reordered with
  | operation head below => exact congrArg (· + 1) below.height_eq
  | fragment head below => exact congrArg (· + 1) below.height_eq
  | typeSystem => rfl

theorem documentHeight_eq_of_perm {ds ds' : List Definition} (order : ds.Perm ds') :
    documentHeight ⟨ds⟩ = documentHeight ⟨ds'⟩ := by
  induction order with
  | nil => rfl
  | cons d _ ih => rw [documentHeight_cons, documentHeight_cons, ih]
  | swap d e ds =>
      simp only [documentHeight_cons]
      exact Nat.max_left_comm _ _ _
  | trans _ _ first second => exact first.trans second

theorem documentHeight_eq_of_inside {ds ds' : List Definition}
    (inside : List.Forall₂ ReorderedDefinition ds ds') :
    documentHeight ⟨ds⟩ = documentHeight ⟨ds'⟩ := by
  induction inside with
  | nil => rfl
  | cons first _ ih => rw [documentHeight_cons, documentHeight_cons, first.height_eq, ih]

theorem Reordered.height_eq {d d' : Document} (reordered : Reordered d d') :
    documentHeight d = documentHeight d' := by
  obtain ⟨between, inside, order⟩ := reordered
  exact (documentHeight_eq_of_inside inside).trans (documentHeight_eq_of_perm order)

/-! ## Outcomes -/

/-- **The order of siblings and of definitions does not matter for depth.**  Of a document and a
reordering of it both are refused at their depth, with the same values, or neither is.  Without
ceilings both have the same depth and the same names, and under each name the same charges in some
order, whose sum from the left stands there. -/
theorem reordered_same_depth_and_charges {d d' : Document} (reordered : Reordered d d')
    (rules : Rules Float) :
    (∀ reached limit, analyze rules d = .error (.depth reached limit) ↔
      analyze rules d' = .error (.depth reached limit)) ∧
    ∃ r r', analyze rules.unlimited d = .ok r ∧ analyze rules.unlimited d' = .ok r' ∧
      r.depth = r'.depth ∧
      (∀ name, name ∈ r.fields.names ↔ name ∈ r'.fields.names) ∧
      ∀ name,
        (Site.chargesUnder rules.tariff d name).Perm (Site.chargesUnder rules.tariff d' name) ∧
        r.fields.get? name = Site.total? (Site.chargesUnder rules.tariff d name) ∧
        r'.fields.get? name = Site.total? (Site.chargesUnder rules.tariff d' name) := by
  have sites := reordered.sites_perm
  refine ⟨fun reached limit => ?_, _, _, analyze_unlimited rules d, analyze_unlimited rules d',
    reordered.height_eq, fun name => ?_, fun name => ⟨?_, ?_, ?_⟩⟩
  · rw [analyze_eq_depth_iff, analyze_eq_depth_iff, reordered.height_eq]
  · rw [Site.mem_names_fields_iff, Site.mem_names_fields_iff]
    simp only [sites.mem_iff]
  · exact (sites.filter _).map _
  · exact Site.get?_fields_eq_total? rules.tariff d name
  · exact Site.get?_fields_eq_total? rules.tariff d' name

/-- A field with a name and nothing else. -/
def bareField (name : String) : Field :=
  ⟨none, name, [], []⟩

/-- The document `{ a { b c } a { ... { d } } } fragment F on T { e }`. -/
def fragmentLast : Document :=
  ⟨[.operation none
      [.branch (bareField "a") [.leaf (bareField "b"), .leaf (bareField "c")],
        .branch (bareField "a") [.inlineFragment none [] [.leaf (bareField "d")]]],
    .fragment ⟨"F", "T", []⟩ [.leaf (bareField "e")]]⟩

/-- The document `fragment F on T { e } { a { ... { d } } a { c b } }`. -/
def fragmentFirst : Document :=
  ⟨[.fragment ⟨"F", "T", []⟩ [.leaf (bareField "e")],
    .operation none
      [.branch (bareField "a") [.inlineFragment none [] [.leaf (bareField "d")]],
        .branch (bareField "a") [.leaf (bareField "c"), .leaf (bareField "b")]]]⟩

theorem reordered_fragmentFirst : Reordered fragmentLast fragmentFirst := by
  have turned : ReorderedSelections [.leaf (bareField "b"), .leaf (bareField "c")]
      [.leaf (bareField "c"), .leaf (bareField "b")] := .swap _ _ []
  have kept : ReorderedSelections [.inlineFragment none [] [.leaf (bareField "d")]]
      [.inlineFragment none [] [.leaf (bareField "d")]] :=
    .cons (.inlineFragment none [] (.cons (.leaf _) .nil)) .nil
  have operation := ReorderedDefinition.operation none
    (.trans (.cons (.branch (bareField "a") turned) (.cons (.branch (bareField "a") kept) .nil))
      (.swap _ _ []))
  have fragment := ReorderedDefinition.fragment ⟨"F", "T", []⟩ (.cons (.leaf (bareField "e")) .nil)
  exact ⟨_, .cons operation (.cons fragment .nil), .swap _ _ []⟩

/-- Rules that allow two levels. -/
def twoLevels : Rules Float :=
  ⟨⟨∅, 1.0, 2.0, 10.0⟩, ⟨some 1.0, some 2⟩⟩

-- the third level is met behind `b` and `c` in the one document, and in front of them in the other
theorem reordered_same_depth_and_charges_fragmentFirst :
    Reordered fragmentLast fragmentFirst ∧
      analyze twoLevels fragmentLast = .error (.depth 3 2) ∧
      analyze twoLevels fragmentFirst = .error (.depth 3 2) := by
  have refused : analyze twoLevels fragmentLast = .error (.depth 3 2) :=
    (analyze_eq_depth_iff ..).2 ⟨rfl, by decide, rfl⟩
  have same := (reordered_same_depth_and_charges reordered_fragmentFirst twoLevels).1 3 2
  exact ⟨reordered_fragmentFirst, refused, same.1 refused⟩

end QueryCost.Analysis
