/-
# QueryCost.Proofs.Analysis.Total -- totals and the ceiling on them

Under valid rules every amount is finite and at least zero, but a total is not: the
depth multiplier may grow to infinity, and where an infinity meets a price or a list
factor of zero the charge is no number.  From then on the total is none either, and
it is not greater than any ceiling.

Nothing else escapes the ceiling.  No power of the depth factor fails to be a number,
because what is multiplied on the way stays on one side of one (`zero_le_power`), and
no sum of charges that are at least zero does.  So a total is within the ceiling
exactly if the charge of no field is lost.
-/
import QueryCost.Config
import QueryCost.Proofs.Analysis.Ceilings
import QueryCost.Proofs.Analysis.Power
import QueryCost.Proofs.Double.Arithmetic
import QueryCost.Proofs.Ledger

namespace QueryCost.Analysis

open QueryCost.Double
open QueryCost.GraphQL

set_option autoImplicit false

/-! ## Powers -/

theorem zero_le_power {a : Float} (n : Nat) (nonneg : 0.0 ≤ a) : 0.0 ≤ power a n := by
  have one : value 1 = .finite .positive (2 ^ 52) (-52) (Nat.two_pow_pos 52) := rfl
  have ends := Squaring.ends_multiplyPower n 1 a
  rw [zero_le_iff]
  rcases atLeastOne_or_atMostOne nonneg with high | low
  · have start : AtLeastOne (value 1) := by
      rw [one]
      exact .finite _ _ _ (Nat.log2_two_pow) (Int.le_refl _)
    exact (ends.of_closed (P := fun x => AtLeastOne (value x))
      (fun x y => AtLeastOne.mul) start high).nonnegative
  · have start : AtMostOne (value 1) := by
      rw [one]
      exact .one
    exact (ends.of_closed (P := fun x => AtMostOne (value x))
      (fun x y => AtMostOne.mul) start low).nonnegative

/-! ## Valid rules -/

/-- At least zero and not infinite, as every amount of valid rules is. -/
structure Amount (x : Float) : Prop where
  nonneg : 0.0 ≤ x
  bounded : x.isInf = false

theorem amount_of_isAmount {x : Float} (valid : Config.isAmount x = true) : Amount x := by
  rw [Config.isAmount, Bool.and_eq_true, decide_eq_true_iff] at valid
  obtain ⟨finite, nonneg⟩ := valid
  refine ⟨nonneg, ?_⟩
  rw [Bool.eq_false_iff]
  intro infinite
  obtain ⟨s, has⟩ := (isInf_iff x).1 infinite
  change (value x).isFinite = true at finite
  rw [has] at finite
  cases finite

theorem Amount.isFinite {x : Float} (amount : Amount x) : x.isFinite = true :=
  (isFinite_iff x).2 ⟨isNaN_eq_false_of_nonneg amount.nonneg, amount.bounded⟩

section Valid

variable {rules : Rules Float} (valid : Config.rulesProblem? rules = none)

include valid

theorem amount_of_mem {key : Config.AmountKey} {x : Float}
    (member : (key, x) ∈ Config.amounts rules) : Amount x := by
  rw [Config.rulesProblem?, Option.map_eq_none_iff, List.find?_eq_none] at valid
  have passes := valid (key, x) member
  rw [Bool.not_not_eq] at passes
  exact amount_of_isAmount passes

theorem amount_base (name : String) : Amount (rules.tariff.base name) := by
  unfold Tariff.base
  cases found : rules.tariff.fieldCosts.get? name with
  | none =>
      have member : (.defaultCost, rules.tariff.defaultCost) ∈ Config.amounts rules := by
        simp [Config.amounts]
      exact amount_of_mem valid member
  | some x =>
      have entry := Ledger.mem_entries_of_get? found
      have member : (.fieldCost name, x) ∈ Config.amounts rules := by
        simp only [Config.amounts, List.mem_append, List.mem_map]
        exact .inr ⟨(name, x), entry, rfl⟩
      exact amount_of_mem valid member

theorem zero_le_depthMultiplier (depth : Nat) : 0.0 ≤ rules.tariff.depthMultiplier depth := by
  have member : (.depthFactor, rules.tariff.depthFactor) ∈ Config.amounts rules := by
    simp [Config.amounts]
  unfold Tariff.depthMultiplier
  split
  · decide +kernel
  · exact zero_le_power depth (amount_of_mem valid member).nonneg

end Valid

/-! ## Charges -/

/-- The charge of an occurrence is lost if its base is zero and its depth multiplier
infinite, or if their product is infinite and the list factor zero. -/
def Occurrence.Lost (tariff : Tariff Float) (o : Occurrence) : Prop :=
  (tariff.base o.qualifiedName == 0) = true ∧ (tariff.depthMultiplier o.depth).isInf = true ∨
    o.sized = true ∧ (tariff.listFactor == 0) = true ∧
      (tariff.base o.qualifiedName * tariff.depthMultiplier o.depth).isInf = true

/-- Only one of two factors can be infinite if the other is an amount. -/
theorem indeterminate_amount_left {x y : Float} (amount : Amount x) :
    Indeterminate x y ↔ (x == 0) = true ∧ y.isInf = true := by
  simp [Indeterminate, amount.bounded]

theorem indeterminate_amount_right {x y : Float} (amount : Amount y) :
    Indeterminate x y ↔ x.isInf = true ∧ (y == 0) = true := by
  simp [Indeterminate, amount.bounded]

theorem listMultiplier_beq_zero_iff (tariff : Tariff Float) (sized : Bool) :
    (tariff.listMultiplier sized == 0) = true ↔
      sized = true ∧ (tariff.listFactor == 0) = true := by
  unfold Tariff.listMultiplier
  have one : ((1 : Float) == 0) = false := by decide +kernel
  cases sized with
  | true => simp
  | false => simp [one]

section Charge

variable {rules : Rules Float} (valid : Config.rulesProblem? rules = none) (o : Occurrence)

include valid

theorem amount_listMultiplier (sized : Bool) : Amount (rules.tariff.listMultiplier sized) := by
  have member : (.listFactor, rules.tariff.listFactor) ∈ Config.amounts rules := by
    simp [Config.amounts]
  unfold Tariff.listMultiplier
  split
  · exact amount_of_mem valid member
  · exact ⟨by decide +kernel, by decide +kernel⟩

/-- A charge is at least zero or lost, and then it is no number. -/
theorem charge_cases :
    (¬ o.Lost rules.tariff ∧ 0.0 ≤ o.charge rules.tariff) ∨
      (o.Lost rules.tariff ∧ (o.charge rules.tariff).isNaN = true) := by
  have base := amount_base valid o.qualifiedName
  have multiplier := zero_le_depthMultiplier valid o.depth
  have list := amount_listMultiplier valid o.sized
  unfold Occurrence.Lost Occurrence.charge Tariff.charge
  by_cases early : (rules.tariff.base o.qualifiedName == 0) = true ∧
      (rules.tariff.depthMultiplier o.depth).isInf = true
  · have meet := (indeterminate_amount_left base).2 early
    exact .inr ⟨.inl early, isNaN_mul _ (isNaN_mul_of_indeterminate meet)⟩
  · have apart : ¬ Indeterminate _ _ := fun meet => early ((indeterminate_amount_left base).1 meet)
    have product := zero_le_mul base.nonneg multiplier apart
    have last := indeterminate_amount_right (x := rules.tariff.base o.qualifiedName
      * rules.tariff.depthMultiplier o.depth) list
    rw [listMultiplier_beq_zero_iff] at last
    by_cases meet : Indeterminate (rules.tariff.base o.qualifiedName
        * rules.tariff.depthMultiplier o.depth) (rules.tariff.listMultiplier o.sized)
    · obtain ⟨infinite, sized, zero⟩ := last.1 meet
      exact .inr ⟨.inr ⟨sized, zero, infinite⟩, isNaN_mul_of_indeterminate meet⟩
    · refine .inl ⟨?_, zero_le_mul product list.nonneg meet⟩
      rintro (lost | ⟨sized, zero, infinite⟩)
      · exact early lost
      · exact meet (last.2 ⟨infinite, sized, zero⟩)

end Charge

/-! ## Totals -/

section Sum

variable {α : Type} (charge : α → Float)

theorem zero_le_foldl_add (items : List α) : ∀ {start : Float}, 0.0 ≤ start →
    (∀ a ∈ items, 0.0 ≤ charge a) →
    0.0 ≤ items.foldl (fun total a => total + charge a) start := by
  induction items with
  | nil => exact fun nonneg _ => nonneg
  | cons first rest ih =>
      intro start nonneg charges
      rw [List.forall_mem_cons] at charges
      exact ih (zero_le_add nonneg charges.1) charges.2

theorem isNaN_foldl_add (items : List α) : ∀ {start : Float},
    (start.isNaN = true ∨ ∃ a ∈ items, (charge a).isNaN = true) →
    (items.foldl (fun total a => total + charge a) start).isNaN = true := by
  induction items with
  | nil =>
      rintro start (none | ⟨a, member, -⟩)
      · exact none
      · cases member
  | cons first rest ih =>
      rintro start (none | ⟨a, member, none⟩)
      · exact ih (.inl (isNaN_add (.inl none)))
      · cases member with
        | head => exact ih (.inl (isNaN_add (.inr none)))
        | tail _ member => exact ih (.inr ⟨a, member, none⟩)

end Sum

/-- A total is at least zero, or it is no number because a charge is lost. -/
theorem total_cases {rules : Rules Float} (valid : Config.rulesProblem? rules = none)
    (d : Document) :
    ((∀ o ∈ Occurrence.ofDocument d, ¬ o.Lost rules.tariff) ∧
        0.0 ≤ (Report.ofDocument rules.tariff d).cost) ∨
      ((∃ o ∈ Occurrence.ofDocument d, o.Lost rules.tariff) ∧
        (Report.ofDocument rules.tariff d).cost.isNaN = true) := by
  by_cases lost : ∃ o ∈ Occurrence.ofDocument d, o.Lost rules.tariff
  · refine .inr ⟨lost, isNaN_foldl_add _ _ (.inr ?_)⟩
    obtain ⟨o, member, gone⟩ := lost
    rcases charge_cases valid o with ⟨kept, -⟩ | ⟨-, none⟩
    · exact absurd gone kept
    · exact ⟨o, member, none⟩
  · have kept : ∀ o ∈ Occurrence.ofDocument d, ¬ o.Lost rules.tariff :=
      fun o member gone => lost ⟨o, member, gone⟩
    refine .inl ⟨kept, zero_le_foldl_add _ _ (by decide +kernel) fun o member => ?_⟩
    rcases charge_cases valid o with ⟨-, nonneg⟩ | ⟨gone, -⟩
    · exact nonneg
    · exact absurd gone (kept o member)

/-- **When the ceiling holds.**  Whatever is accepted under valid rules is within their
ceiling exactly if, in a document that keeps the ceiling on the depth, no charge is lost. -/
theorem cost_le_ceiling_iff_none_lost {rules : Rules Float} {m : Float} (d : Document)
    (valid : Config.rulesProblem? rules = none) (given : rules.ceilings.cost = some m) :
    (∀ r, analyze rules d = .ok r → r.cost ≤ m) ↔
      ((∀ limit, rules.ceilings.depth = some limit → documentHeight d ≤ limit) →
        ∀ o ∈ Occurrence.ofDocument d, ¬ o.Lost rules.tariff) := by
  have accepted : ∀ r, analyze rules d = .ok r ↔
      (Report.ofDocument rules.tariff d).KeepsDepth rules.ceilings ∧
        (Report.ofDocument rules.tariff d).KeepsCost rules.ceilings ∧
          r = Report.ofDocument rules.tariff d := by
    intro r
    rw [analyze_eq_heldTo]
    exact heldTo_eq_ok_iff _ _ _
  have member : (.costCeiling, m) ∈ Config.amounts rules := by simp [Config.amounts, given]
  have number := isNaN_eq_false_of_nonneg (amount_of_mem valid member).nonneg
  constructor
  · intro within keeps
    rcases total_cases valid d with ⟨kept, -⟩ | ⟨-, none⟩
    · exact kept
    · have unnoticed : (Report.ofDocument rules.tariff d).KeepsCost rules.ceilings :=
        fun limit _ => not_lt_of_isNaN limit none
      have le := within _ ((accepted _).2 ⟨keeps, unnoticed, rfl⟩)
      exact absurd le (not_le_of_isNaN m none)
  · intro kept r ok
    obtain ⟨keeps, below, rfl⟩ := (accepted r).1 ok
    rcases total_cases valid d with ⟨-, nonneg⟩ | ⟨⟨o, member, gone⟩, -⟩
    · exact (not_lt_iff_le (isNaN_eq_false_of_nonneg nonneg) number).1 (below m given)
    · exact absurd gone (kept keeps o member)

/-- Fields without a price, and a depth factor whose square is infinite. -/
def steepRules : Rules Float :=
  ⟨⟨∅, 0.0, 1e200, 10.0⟩, ⟨some 1.0, none⟩⟩

/-- The document `{ a { b } }`. -/
def nestedDocument : Document :=
  ⟨[.operation none [.branch ⟨none, "a", [], []⟩ [.leaf ⟨none, "b", [], []⟩]]]⟩

theorem cost_le_ceiling_iff_none_lost_steep :
    Config.rulesProblem? steepRules = none ∧ steepRules.ceilings.cost = some 1.0 ∧
      ((∀ r, analyze steepRules nestedDocument = .ok r → r.cost ≤ 1.0) ↔
        ((∀ limit, steepRules.ceilings.depth = some limit →
            documentHeight nestedDocument ≤ limit) →
          ∀ o ∈ Occurrence.ofDocument nestedDocument, ¬ o.Lost steepRules.tariff)) :=
  ⟨by decide +kernel, rfl, cost_le_ceiling_iff_none_lost nestedDocument (by decide +kernel) rfl⟩

theorem nested_escapes_steep_ceiling :
    Config.rulesProblem? steepRules = none ∧ steepRules.ceilings.cost = some 1.0 ∧
      ∃ r, analyze steepRules nestedDocument = .ok r ∧ ¬ r.cost ≤ 1.0 := by
  have none : (Report.ofDocument steepRules.tariff nestedDocument).cost.isNaN = true := by
    decide +kernel
  refine ⟨by decide +kernel, rfl, Report.ofDocument steepRules.tariff nestedDocument, ?_,
    not_le_of_isNaN 1.0 none⟩
  rw [analyze_eq_heldTo, heldTo_eq_ok_iff]
  exact ⟨fun _ => nofun, fun limit _ => not_lt_of_isNaN limit none, rfl⟩

end QueryCost.Analysis
