/-
# QueryCost.Proofs.Analysis.Frame -- what a walk leaves as it was

A field or a selection set is walked from any state, in the middle of a document as well
as at its start.  A walk that comes back stands where it stood: it has left every level
that it entered and has taken off every type that it pushed, so what it meets next is
charged as if it had met nothing before.  It has seen the levels of what it walked, and of
the amounts it has changed only those under the names that it charged
(`Walk.subtree_keeps_frame`).

A walk that does not come back was stopped by the ceiling on the depth.  If it started at
or below the ceiling, it was stopped on the first level above, however far below it started
and however far the levels go on.  Levels are natural numbers, so there is no depth at which
a walk would lose count of them.
-/
import QueryCost.Proofs.Analysis.Visit
import QueryCost.Proofs.Ledger

namespace QueryCost.Analysis

open QueryCost.GraphQL

set_option autoImplicit false

/-- What is walked in one go: a field with what is selected below it, or a selection set. -/
inductive Subtree
  | field (f : Field) (below : Option (List Selection))
  | selectionSet (s : List Selection)

namespace Subtree

/-- The most selection sets of a subtree that stand in each other. -/
def height : Subtree → Nat
  | .field _ none => 0
  | .field _ (some s) => selectionsHeight s + 1
  | .selectionSet s => selectionsHeight s + 1

/-- The fields of a subtree that stands below a depth and a type. -/
def occurrences (depth : Nat) (type : String) : Subtree → List Occurrence
  | .field f none => [.ofField depth type f]
  | .field f (some s) =>
      .ofField depth type f :: Occurrence.ofSelections (depth + 1) f.typeBelow s
  | .selectionSet s => Occurrence.ofSelections (depth + 1) type s

end Subtree

namespace Walk

variable {K : Type} [Zero K] [One K] [Add K] [Mul K] [BEq K]

set_option linter.unusedSectionVars false

def subtree (rules : Rules K) (w : Walk K) : Subtree → Except (Excess K) (Walk K)
  | .field f none => w.selection rules (.leaf f)
  | .field f (some s) => w.selection rules (.branch f s)
  | .selectionSet s => w.selectionSet rules s

theorem subtree_eq_visit (rules : Rules K) (w : Walk K) (t : Subtree) :
    w.subtree rules t = w.visit rules (t.occurrences w.depth w.currentType) t.height := by
  cases t with
  | field f below =>
      cases below with
      | none => exact selection_eq_visit rules (.leaf f) w
      | some s => exact selection_eq_visit rules (.branch f s) w
  | selectionSet s => exact selectionSet_eq_visit rules s w

/-! ## Amounts -/

/-- A visit changes no amount under a name that it does not charge. -/
theorem get?_fields_visited_of_forall_ne (tariff : Tariff K) {os : List Occurrence} (height : Nat)
    (w : Walk K) {name : String} (others : ∀ o ∈ os, o.qualifiedName ≠ name) :
    (w.visited tariff os height).fields.get? name = w.fields.get? name := by
  have uncharged : ¬ ∃ o ∈ os, o.qualifiedName = name :=
    fun ⟨o, member, same⟩ => others o member same
  rw [visited, Ledger.get?_foldl_add, if_neg uncharged]

/-! ## Subtrees -/

/-- **A walk keeps its frame.**  A subtree may be walked from any state.  The walk comes back
unless the levels of the subtree pass the ceiling, and then depth and types are as before,
the levels of the subtree have been seen, and no amount has changed under a name that was not
charged.  Otherwise it is stopped, and if it started at or below the ceiling, on the first
level above. -/
theorem subtree_keeps_frame (rules : Rules K) (w : Walk K) (t : Subtree) :
    ((∃ w', w.subtree rules t = .ok w') ↔
      ∀ limit, rules.ceilings.depth = some limit → t.height = 0 ∨ w.depth + t.height ≤ limit) ∧
    (∀ w', w.subtree rules t = .ok w' →
      w'.depth = w.depth ∧ w'.types = w.types ∧
        w'.deepest = (match t with
          | .field _ none => w.deepest
          | _ => max w.deepest (w.depth + t.height)) ∧
        ∀ name, (∀ o ∈ t.occurrences w.depth w.currentType, o.qualifiedName ≠ name) →
          w'.fields.get? name = w.fields.get? name) ∧
    ∀ e, w.subtree rules t = .error e →
      ∃ reached limit, e = .depth reached limit ∧ rules.ceilings.depth = some limit ∧
        (w.depth ≤ limit → reached = limit + 1) := by
  rw [subtree_eq_visit]
  refine ⟨?_, ?_, ?_⟩
  · rw [← depthExcess?_eq_none_iff (K := K)]
    constructor
    · rintro ⟨w', walked⟩
      exact ((visit_eq_ok_iff _ _ _ _ _).1 walked).1
    · intro passes
      exact ⟨_, (visit_eq_ok_iff _ _ _ _ _).2 ⟨passes, rfl⟩⟩
  · intro w' walked
    obtain ⟨-, rfl⟩ := (visit_eq_ok_iff _ _ _ _ _).1 walked
    refine ⟨rfl, rfl, ?_, fun name others => get?_fields_visited_of_forall_ne _ _ w others⟩
    cases t with
    | field f below =>
        cases below with
        | none => rfl
        | some s => exact deepest_visited_succ _ _ _ w
    | selectionSet s => exact deepest_visited_succ _ _ _ w
  · intro e stopped
    rw [visit_eq_error_iff, depthExcess?_eq_some_iff] at stopped
    obtain ⟨limit, given, -, -, rfl⟩ := stopped
    refine ⟨_, limit, rfl, given, fun fits => ?_⟩
    rw [Nat.max_eq_left fits]

end Walk

end QueryCost.Analysis
