/-
# QueryCost.Proofs.Analysis.Visit -- a walk told by its occurrences

A walk carries the place where it stands as mutable parts of its state: the depth
and the stack of types.  This module says what a walk does without following them.
From any state whatever, walking selections is one *visit* (`selections_eq_visit`):

* it fails exactly if the selections are too high for the depth at which the walk
  stands, and then with the first level above the ceiling (`depthExcess?`);
* else the total and the amounts have grown by the charges of the occurrences, in
  the order of the text, the deepest level is kept up, and the depth and the types
  are what they were (`visited`).

The induction is over selections and lists of selections together and needs two
facts about visits only: one after the other is one visit of both lists
(`visit_bind_visit`), and entering a set, visiting it and leaving it again is a
visit one level higher (`selectionSet_eq_visit_of`).

A document is walked by visits of its definitions that each start at depth zero below
no type, and these again are one visit (`document_eq_visit`).
-/
import QueryCost.Analysis.Occurrence
import QueryCost.Analysis.Walk

namespace QueryCost.Analysis

open QueryCost.GraphQL

set_option autoImplicit false

/-! ## Passing the ceiling on the depth -/

section Depth

variable {K : Type}

/-- How selections of a height pass the ceiling if they stand below a depth: the
first level above the ceiling shows it.  Selections without a set pass nothing. -/
def depthExcess? (ceiling : Option Nat) (depth height : Nat) : Option (Excess K) :=
  match ceiling with
  | some limit =>
      if height = 0 ∨ depth + height ≤ limit then none
      else some (.depth (max limit depth + 1) limit)
  | none => none

@[simp] theorem depthExcess?_none (depth height : Nat) :
    depthExcess? none depth height = (none : Option (Excess K)) := rfl

@[simp] theorem depthExcess?_zero (ceiling : Option Nat) (depth : Nat) :
    depthExcess? ceiling depth 0 = (none : Option (Excess K)) := by
  cases ceiling <;> simp [depthExcess?]

theorem depthExcess?_of_fits {limit depth height : Nat}
    (fits : height = 0 ∨ depth + height ≤ limit) :
    depthExcess? (some limit) depth height = (none : Option (Excess K)) :=
  if_pos fits

theorem depthExcess?_of_not_fits {limit depth height : Nat}
    (passes : ¬ (height = 0 ∨ depth + height ≤ limit)) :
    depthExcess? (some limit) depth height =
      (some (.depth (max limit depth + 1) limit) : Option (Excess K)) :=
  if_neg passes

theorem depthExcess?_eq_none_iff (ceiling : Option Nat) (depth height : Nat) :
    (depthExcess? ceiling depth height : Option (Excess K)) = none ↔
      ∀ limit, ceiling = some limit → height = 0 ∨ depth + height ≤ limit := by
  cases ceiling with
  | none => exact iff_of_true rfl nofun
  | some limit =>
      by_cases fits : height = 0 ∨ depth + height ≤ limit
      · rw [depthExcess?_of_fits fits]
        exact iff_of_true rfl fun m given => Option.some.inj given ▸ fits
      · rw [depthExcess?_of_not_fits fits]
        exact iff_of_false nofun fun all => fits (all limit rfl)

theorem depthExcess?_eq_some_iff (ceiling : Option Nat) (depth height : Nat) (e : Excess K) :
    depthExcess? ceiling depth height = some e ↔
      ∃ limit, ceiling = some limit ∧ height ≠ 0 ∧ limit < depth + height ∧
        e = .depth (max limit depth + 1) limit := by
  cases ceiling with
  | none => simp
  | some limit =>
      by_cases fits : height = 0 ∨ depth + height ≤ limit
      · rw [depthExcess?_of_fits fits]
        refine iff_of_false nofun ?_
        rintro ⟨_, ⟨⟩, nested, passed, -⟩
        omega
      · rw [depthExcess?_of_not_fits fits]
        constructor
        · rintro ⟨⟩
          exact ⟨limit, rfl, by omega, by omega, rfl⟩
        · rintro ⟨_, ⟨⟩, -, -, rfl⟩
          rfl

theorem depthExcess?_max (ceiling : Option Nat) (depth h₁ h₂ : Nat) :
    depthExcess? ceiling depth (max h₁ h₂) =
      ((depthExcess? ceiling depth h₁).or (depthExcess? ceiling depth h₂) :
        Option (Excess K)) := by
  cases ceiling with
  | none => rfl
  | some limit =>
      by_cases first : h₁ = 0 ∨ depth + h₁ ≤ limit
      · rw [depthExcess?_of_fits first, Option.none_or]
        by_cases second : h₂ = 0 ∨ depth + h₂ ≤ limit
        · rw [depthExcess?_of_fits second, depthExcess?_of_fits (by omega)]
        · rw [depthExcess?_of_not_fits second, depthExcess?_of_not_fits (by omega)]
      · rw [depthExcess?_of_not_fits first, depthExcess?_of_not_fits (by omega), Option.some_or]

/-- A set is entered first and looked into afterwards. -/
theorem depthExcess?_succ (ceiling : Option Nat) (depth height : Nat) :
    depthExcess? ceiling depth (height + 1) =
      ((depthExcess? ceiling depth 1).or (depthExcess? ceiling (depth + 1) height) :
        Option (Excess K)) := by
  cases ceiling with
  | none => rfl
  | some limit =>
      by_cases entered : depth + 1 ≤ limit
      · rw [depthExcess?_of_fits (.inr entered), Option.none_or]
        by_cases inside : height = 0 ∨ depth + 1 + height ≤ limit
        · rw [depthExcess?_of_fits inside, depthExcess?_of_fits (by omega)]
        · have level : max limit (depth + 1) = max limit depth := by omega
          rw [depthExcess?_of_not_fits inside, depthExcess?_of_not_fits (by omega), level]
      · rw [depthExcess?_of_not_fits (by omega), depthExcess?_of_not_fits (by omega),
          Option.some_or]

end Depth

/-! ## Visits -/

namespace Walk

variable {K : Type} [Zero K] [One K] [Add K] [Mul K] [BEq K]

set_option linter.unusedSectionVars false

/-- The state after occurrences were charged and selections of a height walked. -/
def visited (tariff : Tariff K) (occurrences : List Occurrence) (height : Nat) (w : Walk K) :
    Walk K :=
  { w with
    deepest := if height = 0 then w.deepest else max w.deepest (w.depth + height)
    cost := occurrences.foldl (fun cost o => cost + o.charge tariff) w.cost
    fields := occurrences.foldl
      (fun fields o => fields.add o.qualifiedName (o.charge tariff)) w.fields }

/-- Walk selections that are known by their occurrences and their height. -/
def visit (rules : Rules K) (occurrences : List Occurrence) (height : Nat) (w : Walk K) :
    Except (Excess K) (Walk K) :=
  match depthExcess? rules.ceilings.depth w.depth height with
  | some e => .error e
  | none => .ok (w.visited rules.tariff occurrences height)

theorem visit_eq_ok_iff (rules : Rules K) (os : List Occurrence) (height : Nat) (w w' : Walk K) :
    w.visit rules os height = .ok w' ↔
      (depthExcess? rules.ceilings.depth w.depth height : Option (Excess K)) = none ∧
        w' = w.visited rules.tariff os height := by
  unfold visit
  cases depthExcess? rules.ceilings.depth w.depth height <;> simp [eq_comm]

theorem visit_eq_error_iff (rules : Rules K) (os : List Occurrence) (height : Nat) (w : Walk K)
    (e : Excess K) :
    w.visit rules os height = .error e ↔
      depthExcess? rules.ceilings.depth w.depth height = some e := by
  unfold visit
  cases depthExcess? rules.ceilings.depth w.depth height <;> simp

theorem deepest_visited_succ (tariff : Tariff K) (os : List Occurrence) (height : Nat)
    (w : Walk K) :
    (w.visited tariff os (height + 1)).deepest = max w.deepest (w.depth + (height + 1)) := by
  simp only [visited, if_neg (Nat.succ_ne_zero height)]

@[simp] theorem visit_nil_zero (rules : Rules K) (w : Walk K) :
    w.visit rules [] 0 = .ok w := by
  simp [visit, visited]

theorem visited_visited (tariff : Tariff K) (os₁ os₂ : List Occurrence) (h₁ h₂ : Nat)
    (w : Walk K) :
    (w.visited tariff os₁ h₁).visited tariff os₂ h₂ =
      w.visited tariff (os₁ ++ os₂) (max h₁ h₂) := by
  have deepest : (if h₂ = 0 then (if h₁ = 0 then w.deepest else max w.deepest (w.depth + h₁))
        else max (if h₁ = 0 then w.deepest else max w.deepest (w.depth + h₁)) (w.depth + h₂)) =
      if max h₁ h₂ = 0 then w.deepest else max w.deepest (w.depth + max h₁ h₂) := by
    by_cases flat₁ : h₁ = 0
    · subst flat₁
      rw [if_pos rfl, Nat.zero_max]
    · by_cases flat₂ : h₂ = 0
      · subst flat₂
        rw [if_pos rfl, Nat.max_zero]
      · have deeper : max h₁ h₂ ≠ 0 := by omega
        rw [if_neg flat₁, if_neg flat₂, if_neg deeper]
        omega
  simp only [visited, List.foldl_append, deepest]

/-- One visit after the other is one visit. -/
theorem visit_bind_visit (rules : Rules K) (os₁ os₂ : List Occurrence) (h₁ h₂ : Nat)
    (w : Walk K) :
    (do let w ← w.visit rules os₁ h₁; w.visit rules os₂ h₂) =
      w.visit rules (os₁ ++ os₂) (max h₁ h₂) := by
  simp only [visit, depthExcess?_max]
  cases depthExcess? rules.ceilings.depth w.depth h₁ with
  | some e => rfl
  | none =>
      have depth : (w.visited rules.tariff os₁ h₁).depth = w.depth := rfl
      simp only [bind, Except.bind, depth, visited_visited, Option.none_or]

/-- The state inside a set that was just entered. -/
def inside (w : Walk K) : Walk K :=
  { w with depth := w.depth + 1, deepest := max w.deepest (w.depth + 1) }

theorem enter_eq (ceiling : Option Nat) (w : Walk K) :
    w.enter ceiling =
      match depthExcess? ceiling w.depth 1 with
      | some e => .error e
      | none => .ok w.inside := by
  cases ceiling with
  | none => rfl
  | some limit =>
      by_cases deep : limit < w.depth + 1
      · have level : max limit w.depth = w.depth := by omega
        rw [depthExcess?_of_not_fits (by omega), level]
        exact if_pos deep
      · rw [depthExcess?_of_fits (by omega)]
        exact if_neg deep

theorem leave_visited_inside (tariff : Tariff K) (os : List Occurrence) (height : Nat)
    (w : Walk K) :
    (w.inside.visited tariff os height).leave = w.visited tariff os (height + 1) := by
  have deepest : (if height = 0 then max w.deepest (w.depth + 1)
        else max (max w.deepest (w.depth + 1)) (w.depth + 1 + height)) =
      max w.deepest (w.depth + (height + 1)) := by
    split <;> omega
  simp only [visited, inside, leave, deepest, Nat.add_sub_cancel, Nat.succ_ne_zero, if_false]

/-- What a walk does with selections, it does one level higher with a set of them. -/
theorem selectionSet_eq_visit_of {rules : Rules K} {s : List Selection}
    (walked : ∀ w : Walk K, w.selections rules s =
      w.visit rules (Occurrence.ofSelections w.depth w.currentType s) (selectionsHeight s))
    (w : Walk K) :
    w.selectionSet rules s =
      w.visit rules (Occurrence.ofSelections (w.depth + 1) w.currentType s)
        (selectionsHeight s + 1) := by
  rw [selectionSet, enter_eq, visit, depthExcess?_succ _ _ (selectionsHeight s)]
  cases depthExcess? rules.ceilings.depth w.depth 1 with
  | some e => rfl
  | none =>
      have depth : w.inside.depth = w.depth + 1 := rfl
      have type : w.inside.currentType = w.currentType := rfl
      have below := walked w.inside
      rw [depth, type] at below
      simp only [bind, Except.bind, below, visit, Option.none_or, depth]
      cases depthExcess? rules.ceilings.depth (w.depth + 1) (selectionsHeight s) with
      | some e => rfl
      | none => exact congrArg Except.ok (leave_visited_inside _ _ _ w)

/-- Charging a field is the visit of its occurrence. -/
theorem chargeField_eq (tariff : Tariff K) (field : Field) (w : Walk K) :
    w.chargeField tariff field =
      w.visited tariff [.ofField w.depth w.currentType field] 0 := rfl

/-- A type on top of the stack is not seen by a visit. -/
theorem visit_push (rules : Rules K) (os : List Occurrence) (height : Nat) (type : String)
    (w : Walk K) :
    (do let w ← (w.push type).visit rules os height; return w.pop) =
      w.visit rules os height := by
  have depth : (w.push type).depth = w.depth := rfl
  simp only [visit, depth]
  cases depthExcess? rules.ceilings.depth w.depth height <;> rfl

theorem selection_branch (rules : Rules K) (w : Walk K) (field : Field) (s : List Selection) :
    w.selection rules (.branch field s) = (do
      let w ← ((w.chargeField rules.tariff field).push field.typeBelow).selectionSet rules s
      return w.pop) := by
  simp only [selection, selectionSet, bind_assoc, pure_bind]

theorem selection_inlineFragment (rules : Rules K) (w : Walk K) (type : Option String)
    (directives : List Directive) (s : List Selection) :
    w.selection rules (.inlineFragment type directives s) = w.selectionSet rules s := by
  simp only [selection, selectionSet]

mutual

/-- **A walk is a visit of the occurrences.** -/
theorem selection_eq_visit (rules : Rules K) : (s : Selection) → (w : Walk K) →
    w.selection rules s =
      w.visit rules (Occurrence.ofSelection w.depth w.currentType s) (selectionHeight s)
  | .leaf field, w => by
      simp only [selection, visit, selectionHeight, depthExcess?_zero, Occurrence.ofSelection,
        chargeField_eq]
  | .branch field s, w => by
      have below := selectionSet_eq_visit_of (selections_eq_visit rules s)
        ((w.chargeField rules.tariff field).push field.typeBelow)
      rw [selection_branch, below, visit_push]
      have here : w.visit rules [Occurrence.ofField w.depth w.currentType field] 0 =
          .ok (w.chargeField rules.tariff field) := by
        simp only [visit, depthExcess?_zero, chargeField_eq]
      have both := visit_bind_visit rules [Occurrence.ofField w.depth w.currentType field]
        (Occurrence.ofSelections (w.depth + 1) field.typeBelow s) 0 (selectionsHeight s + 1) w
      rw [here, Nat.zero_max] at both
      exact both
  | .inlineFragment type directives s, w => by
      rw [selection_inlineFragment]
      exact selectionSet_eq_visit_of (selections_eq_visit rules s) w
  | .fragmentSpread name directives, w => by
      simp only [selection, Occurrence.ofSelection, selectionHeight, visit_nil_zero]

theorem selections_eq_visit (rules : Rules K) : (s : List Selection) → (w : Walk K) →
    w.selections rules s =
      w.visit rules (Occurrence.ofSelections w.depth w.currentType s) (selectionsHeight s)
  | [], w => by
      simp only [selections, Occurrence.ofSelections, selectionsHeight, visit_nil_zero]
  | s :: rest, w => by
      have first := selection_eq_visit rules s w
      have both := visit_bind_visit rules (Occurrence.ofSelection w.depth w.currentType s)
        (Occurrence.ofSelections w.depth w.currentType rest) (selectionHeight s)
        (selectionsHeight rest) w
      simp only [selections, Occurrence.ofSelections, selectionsHeight, first]
      rw [← both]
      -- The first visit leaves depth and types alone, so the rest is charged in one context.
      simp only [visit]
      cases depthExcess? rules.ceilings.depth w.depth (selectionHeight s) with
      | some e => rfl
      | none => exact selections_eq_visit rules rest _

end

theorem selectionSet_eq_visit (rules : Rules K) (s : List Selection) (w : Walk K) :
    w.selectionSet rules s =
      w.visit rules (Occurrence.ofSelections (w.depth + 1) w.currentType s)
        (selectionsHeight s + 1) :=
  selectionSet_eq_visit_of (selections_eq_visit rules s) w

/-! ## Documents -/

/-- Between definitions a walk stands at depth zero and below no type. -/
theorem definition_eq_visit (rules : Rules K) (d : Definition) (w : Walk K)
    (depth : w.depth = 0) (types : w.types = []) :
    w.definition rules d =
      w.visit rules (Occurrence.ofDefinition d) (definitionHeight d) := by
  cases d with
  | operation head s =>
      have below := selectionSet_eq_visit rules s (w.push (rootType head))
      have pushed : (w.push (rootType head)).depth = 0 := depth
      have type : (w.push (rootType head)).currentType = rootType head := rfl
      rw [pushed, type] at below
      rw [definition, below, visit_push]
      rfl
  | fragment head s =>
      have type : w.currentType = unknownType := by rw [currentType, types]; rfl
      rw [definition, selectionSet_eq_visit, depth, type]
      rfl
  | typeSystem => simp only [definition, Occurrence.ofDefinition, definitionHeight, visit_nil_zero]

theorem foldlM_definition_eq_visit (rules : Rules K) (ds : List Definition)
    (os : List Occurrence) (height : Nat) :
    (do let w ← start.visit rules os height; ds.foldlM (definition rules) w) =
      start.visit rules (os ++ ds.flatMap Occurrence.ofDefinition)
        (ds.foldl (fun h d => max h (definitionHeight d)) height) := by
  induction ds generalizing os height with
  | nil => simp
  | cons d rest ih =>
      have both := visit_bind_visit rules os (Occurrence.ofDefinition d) height
        (definitionHeight d) start
      rw [List.flatMap_cons, ← List.append_assoc, List.foldl_cons, ← ih, ← both, bind_assoc]
      simp only [List.foldlM_cons, visit]
      cases depthExcess? rules.ceilings.depth (start : Walk K).depth height with
      | some e => rfl
      | none =>
          have one := definition_eq_visit rules d (start.visited rules.tariff os height) rfl rfl
          simp only [bind, Except.bind, one]
          rfl

theorem document_eq_visit (rules : Rules K) (d : Document) :
    document rules d = start.visit rules (Occurrence.ofDocument d) (documentHeight d) := by
  have all := foldlM_definition_eq_visit rules d.definitions [] 0
  rw [visit_nil_zero] at all
  exact all

end Walk

end QueryCost.Analysis
