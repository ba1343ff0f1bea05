/-
# QueryCost.Proofs.Analysis.Breakdown -- the breakdown accounts for the whole cost

A walk keeps the total and the amounts under the names apart and changes both with
every field.  Where sums do not depend on their order the two agree at every moment:
a charge adds the same to the total and to the sum of all amounts (`Balanced.charged`),
and a walk is nothing but charges.  So the amounts of a report sum up to its cost.

What a document is charged is a sum over its occurrences, in the total as under each
name (`cost_ofDocument_eq_sum`, `getD_fields_ofDocument`), and two documents one
after the other have the occurrences of the one and then of the other.  So their
reports are added: totals and amounts are summed, and the greater depth counts
(`breakdown_adds_up`).
-/
import Mathlib.Algebra.BigOperators.Group.List.Basic
import Mathlib.Algebra.Field.Rat
import QueryCost.Proofs.Analysis.Ceilings
import QueryCost.Proofs.Ledger

namespace QueryCost

open QueryCost.GraphQL

set_option autoImplicit false

/-! ## Sums of a ledger -/

namespace Ledger

variable {K : Type} [AddCommMonoid K]

theorem sum_alterEntries_add (name : String) (a : K) (entries : List (String × K)) :
    ((alterEntries name (fun old => old.getD 0 + a) entries).map (·.2)).sum =
      (entries.map (·.2)).sum + a := by
  induction entries with
  | nil => simp [alterEntries]
  | cons head rest ih =>
      obtain ⟨n, b⟩ := head
      simp only [alterEntries]
      split
      · simp only [List.map_cons, List.sum_cons, Option.getD_none, zero_add]
        exact add_comm _ _
      · split
        · simp only [List.map_cons, List.sum_cons, Option.getD_some]
          exact add_right_comm _ _ _
        · simp only [List.map_cons, List.sum_cons, ih, add_assoc]

/-- Adding an amount under some name adds it to the sum of all amounts. -/
theorem sum_amounts_add (l : Ledger K) (name : String) (a : K) :
    (l.add name a).amounts.sum = l.amounts.sum + a :=
  sum_alterEntries_add name a l.entries

end Ledger

namespace Analysis

/-- A sum from the left is a sum. -/
theorem foldl_add_eq_sum {K α : Type} [AddMonoid K] (charge : α → K) (items : List α)
    (start : K) :
    items.foldl (fun total a => total + charge a) start = start + (items.map charge).sum := by
  induction items generalizing start with
  | nil => simp
  | cons a items ih => rw [List.foldl_cons, ih, List.map_cons, List.sum_cons, add_assoc]

variable {K : Type} [AddCommMonoid K] [One K] [Mul K] [BEq K]

/-! ## Total and amounts agree -/

namespace Walk

set_option linter.unusedSectionVars false

/-- The amounts under all names sum up to the total. -/
def Balanced (w : Walk K) : Prop :=
  w.fields.amounts.sum = w.cost

theorem balanced_start : (start : Walk K).Balanced := by
  unfold Balanced
  exact List.sum_nil

theorem Balanced.charged {w : Walk K} (balanced : w.Balanced) (tariff : Tariff K)
    (o : Occurrence) : (w.visited tariff [o] 0).Balanced := by
  unfold Balanced at balanced ⊢
  show (w.fields.add o.qualifiedName (o.charge tariff)).amounts.sum = w.cost + o.charge tariff
  rw [Ledger.sum_amounts_add, balanced]

/-- A visit charges its occurrences one by one, and its height changes neither side. -/
theorem Balanced.visited {w : Walk K} (balanced : w.Balanced) (tariff : Tariff K)
    (os : List Occurrence) (height : Nat) : (w.visited tariff os height).Balanced := by
  induction os generalizing w with
  | nil => exact balanced
  | cons o os ih =>
      have rest := ih (balanced.charged tariff o)
      rw [visited_visited, Nat.zero_max] at rest
      exact rest

end Walk

theorem sum_fields_ofDocument (tariff : Tariff K) (d : Document) :
    (Report.ofDocument tariff d).fields.amounts.sum = (Report.ofDocument tariff d).cost :=
  Walk.balanced_start.visited tariff (Occurrence.ofDocument d) 0

/-! ## Reports as sums over occurrences -/

theorem cost_ofDocument_eq_sum (tariff : Tariff K) (d : Document) :
    (Report.ofDocument tariff d).cost =
      ((Occurrence.ofDocument d).map (·.charge tariff)).sum := by
  have summed := foldl_add_eq_sum (·.charge tariff) (Occurrence.ofDocument d) 0
  rwa [zero_add] at summed

theorem mem_names_ofDocument (tariff : Tariff K) (d : Document) (name : String) :
    name ∈ (Report.ofDocument tariff d).fields.names ↔
      ∃ o ∈ Occurrence.ofDocument d, o.qualifiedName = name := by
  rw [Ledger.mem_names_iff, Report.ofDocument, Ledger.get?_foldl_add, Ledger.get?_empty]
  split <;> simp_all

/-- What stands under a name is the sum of the charges under it, and zero if there is none. -/
theorem getD_fields_ofDocument (tariff : Tariff K) (d : Document) (name : String) :
    ((Report.ofDocument tariff d).fields.get? name).getD 0 =
      (((Occurrence.ofDocument d).filter (·.qualifiedName = name)).map (·.charge tariff)).sum := by
  have summed := foldl_add_eq_sum (K := K) id
    (((Occurrence.ofDocument d).filter (·.qualifiedName = name)).map (·.charge tariff)) 0
  simp only [id_eq, List.map_id_fun, zero_add] at summed
  rw [Report.ofDocument, Ledger.get?_foldl_add, Ledger.get?_empty, Option.getD_none]
  split
  · exact summed
  · next absent =>
    have none : (Occurrence.ofDocument d).filter (·.qualifiedName = name) = [] := by
      simpa [List.filter_eq_nil_iff] using absent
    rw [none]
    rfl

/-! ## Documents one after the other -/

/-- One document and then another. -/
def joined (d d' : Document) : Document :=
  ⟨d.definitions ++ d'.definitions⟩

theorem occurrences_joined (d d' : Document) :
    Occurrence.ofDocument (joined d d') =
      Occurrence.ofDocument d ++ Occurrence.ofDocument d' :=
  List.flatMap_append

theorem foldl_max_height (ds : List Definition) (start : Nat) :
    ds.foldl (fun h d => max h (definitionHeight d)) start = max start (documentHeight ⟨ds⟩) := by
  unfold documentHeight
  induction ds generalizing start with
  | nil => simp
  | cons d ds ih =>
      rw [List.foldl_cons, List.foldl_cons, ih, ih (max 0 _), Nat.zero_max, Nat.max_assoc]

theorem documentHeight_cons (d : Definition) (ds : List Definition) :
    documentHeight ⟨d :: ds⟩ = max (definitionHeight d) (documentHeight ⟨ds⟩) := by
  have rest := foldl_max_height ds (max 0 (definitionHeight d))
  rwa [Nat.zero_max] at rest

theorem documentHeight_joined (d d' : Document) :
    documentHeight (joined d d') = max (documentHeight d) (documentHeight d') := by
  have both : documentHeight (joined d d') =
      d'.definitions.foldl (fun h d => max h (definitionHeight d)) (documentHeight d) :=
    List.foldl_append
  rw [both, foldl_max_height]

/-- **The breakdown adds up.**  Whatever sums are, as long as they can be taken in any order: in a
report the amounts under all names sum up to the cost.  Of two documents one after the other the
costs are summed and the amounts under each name too, and the depth is that of the deeper one. -/
theorem breakdown_adds_up [LT K] [DecidableLT K] (rules : Rules K) :
    (∀ d r, analyze rules d = .ok r → r.fields.amounts.sum = r.cost) ∧
    ∀ d d', ∃ r r' both,
      analyze rules.unlimited d = .ok r ∧ analyze rules.unlimited d' = .ok r' ∧
      analyze rules.unlimited (joined d d') = .ok both ∧
      both.cost = r.cost + r'.cost ∧
      both.depth = max r.depth r'.depth ∧
      (∀ name, name ∈ both.fields.names ↔ name ∈ r.fields.names ∨ name ∈ r'.fields.names) ∧
      ∀ name, (both.fields.get? name).getD 0 =
        (r.fields.get? name).getD 0 + (r'.fields.get? name).getD 0 := by
  constructor
  · intro d r accepted
    rw [analyze_eq_heldTo, heldTo_eq_ok_iff] at accepted
    obtain ⟨-, -, rfl⟩ := accepted
    exact sum_fields_ofDocument rules.tariff d
  · intro d d'
    refine ⟨_, _, _, analyze_unlimited rules d, analyze_unlimited rules d',
      analyze_unlimited rules (joined d d'), ?_, documentHeight_joined d d', ?_, ?_⟩
    · rw [cost_ofDocument_eq_sum, cost_ofDocument_eq_sum, cost_ofDocument_eq_sum,
        occurrences_joined, List.map_append, List.sum_append]
    · intro name
      simp only [mem_names_ofDocument, occurrences_joined, List.mem_append, or_and_right,
        exists_or]
    · intro name
      rw [getD_fields_ofDocument, getD_fields_ofDocument, getD_fields_ofDocument,
        occurrences_joined, List.filter_append, List.map_append, List.sum_append]

/-- Rational rules whose ceilings the document below just keeps. -/
def feedRules : Rules ℚ :=
  ⟨⟨Ledger.ofList [("Query.feed", 4)], 1, 3 / 2, 10⟩, ⟨some (255 / 4), some 2⟩⟩

/-- The document `{ feed(first: 5) { title } viewer }`. -/
def feedDocument : Document :=
  ⟨[.operation none
      [.branch ⟨none, "feed", [.given "first" (.number "5")], []⟩ [.leaf ⟨none, "title", [], []⟩],
        .leaf ⟨none, "viewer", [], []⟩]]⟩

theorem feedDocument_accepted :
    analyze feedRules feedDocument = .ok (Report.ofDocument feedRules.tariff feedDocument) := by
  rw [analyze_eq_heldTo, heldTo_eq_ok_iff]
  refine ⟨fun limit given => ?_, fun limit given => ?_, rfl⟩
  · cases given
    decide
  · cases given
    decide +kernel

theorem breakdown_adds_up_feed :
    ∃ r, analyze feedRules feedDocument = .ok r ∧ r.cost = 255 / 4 ∧
      r.fields.amounts.sum = r.cost :=
  ⟨_, feedDocument_accepted, by decide +kernel,
    (breakdown_adds_up feedRules).1 _ _ feedDocument_accepted⟩

end Analysis

end QueryCost
