/-
# QueryCost.Proofs.Analysis.RoundTrip -- written reports are read again

A report is written with its total, its depth and the amount under each name, and a double
that is not finite is written as `null`, which is not read as an amount.  In which order its
members stand does not matter (`Report.Writes.ofWritten?_iff`).  Nothing in the rules keeps a
total finite: prices and factors are finite, what is formed of them need not be.

The total alone decides.  If it is finite then so is the amount under every name, because an
amount is a sum of some of the charges of which the total sums up all, and rounded sums keep
their order (`count_foldl_filter_le`).  So a report is read from what is written of it exactly
if its total is finite and its doubles read back, and from an infinite total nothing is read
(`report_read_back_iff_total_finite`).
-/
import QueryCost.Analysis.Report
import QueryCost.Proofs.Analysis.Total
import QueryCost.Proofs.Config.RoundTrip
import QueryCost.Proofs.Double.Units
import QueryCost.Proofs.Json.Members
import QueryCost.Proofs.Json.Numbers

namespace QueryCost.Analysis

open QueryCost.Double
open QueryCost.GraphQL
open QueryCost.Json (ReadsBack Written tree)

set_option autoImplicit false

/-! ## Amounts that are part of a total -/

section Sum

variable {α : Type} {charge : α → Float}

/-- Some of the charges sum up to no more than all of them. -/
theorem count_foldl_filter_le (among : α → Bool) (items : List α) : ∀ {start start' : Float},
    0.0 ≤ start → 0.0 ≤ start' → count start ≤ count start' →
    (∀ a ∈ items, 0.0 ≤ charge a) →
    count (((items.filter among).map charge).foldl (· + ·) start) ≤
      count (items.foldl (fun total a => total + charge a) start') := by
  induction items with
  | nil => exact fun _ _ le _ => le
  | cons first rest ih =>
      intro start start' nonneg nonneg' le charges
      obtain ⟨charged, charges⟩ := List.forall_mem_cons.1 charges
      have total := zero_le_add nonneg' charged
      by_cases listed : among first = true
      · rw [List.filter_cons_of_pos listed]
        exact ih (zero_le_add nonneg charged) total
          (count_add_le_count_add nonneg nonneg' charged le) charges
      · rw [List.filter_cons_of_neg listed]
        exact ih nonneg total (le.trans (count_le_count_add nonneg' charged)) charges

end Sum

namespace Report

/-- If a total is a number then all charges in it are at least zero. -/
theorem zero_le_charge {rules : Rules Float} (valid : Config.rulesProblem? rules = none)
    {d : Document} (number : (ofDocument rules.tariff d).cost.isNaN = false) :
    ∀ o ∈ Occurrence.ofDocument d, 0.0 ≤ o.charge rules.tariff := by
  intro o member
  rcases charge_cases valid o with ⟨-, nonneg⟩ | ⟨-, none⟩
  · exact nonneg
  · have lost : (ofDocument rules.tariff d).cost.isNaN = true :=
      isNaN_foldl_add _ _ (.inr ⟨o, member, none⟩)
    rw [number] at lost
    cases lost

/-- No amount under a name is greater than the total. -/
theorem count_le_count_cost {rules : Rules Float} (valid : Config.rulesProblem? rules = none)
    {d : Document} (number : (ofDocument rules.tariff d).cost.isNaN = false)
    {e : String × Float} (listed : e ∈ (ofDocument rules.tariff d).fields.entries) :
    count e.2 ≤ count (ofDocument rules.tariff d).cost := by
  have found : (ofDocument rules.tariff d).fields.get? e.1 = some e.2 := Ledger.get?_of_mem listed
  have charges := zero_le_charge valid number
  have zero : 0.0 ≤ (0 : Float) := by decide +kernel
  rw [ofDocument, Ledger.get?_foldl_add] at found
  split at found
  · rw [← Option.some.inj found]
    exact count_foldl_filter_le _ _ zero zero le_rfl charges
  · cases found

/-! ## Written reports -/

/-- What a report may be written as. -/
inductive Writes (r : Report Float) : Json → Prop
  | object {fields : Json} {members : List (String × Json)}
      (hasFields : Config.WritesLedger r.fields fields)
      (order : members.Perm [("cost", .double r.cost), ("depth", .ofNat r.depth),
        ("fields", fields)]) :
      Writes r (.object members)

theorem writes_toJson (r : Report Float) : r.Writes r.toJson :=
  .object (Config.writesLedger_ofLedger r.fields) (.refl _)

/-- The doubles in what is written of a report. -/
theorem Writes.forall_mem_doubles {r : Report Float} {j : Json} (writes : r.Writes j)
    {p : Float → Prop} :
    (∀ x ∈ j.doubles, p x) ↔ p r.cost ∧ ∀ e ∈ r.fields.entries, p e.2 := by
  cases writes with
  | @object fields members hasFields order =>
      have amounts : (∀ x ∈ fields.doubles, p x) ↔ ∀ e ∈ r.fields.entries, p e.2 := by
        cases hasFields with
        | @object es entries =>
            rw [Json.forall_mem_doubles_object, List.forall_mem_map]
            simp only [Json.doubles, List.forall_mem_singleton, entries.mem_iff]
      rw [Json.forall_mem_doubles_of_perm order, Json.forall_mem_doubles_object, ← amounts]
      simp [Json.doubles, Json.ofNat]

theorem forall_mem_doubles {r : Report Float} {p : Float → Prop} :
    (∀ x ∈ r.toJson.doubles, p x) ↔ p r.cost ∧ ∀ e ∈ r.fields.entries, p e.2 :=
  (writes_toJson r).forall_mem_doubles

/-! ## Reading -/

/-- The reader finds the three members of a written report, whatever their order is. -/
theorem ofWritten?_tree_of_perm {cost depth fields : Json} {members : List (String × Json)}
    (order : members.Perm [("cost", cost), ("depth", depth), ("fields", fields)]) :
    ofWritten? (tree (.object members)) = (do
      let cost ← (tree cost).amount?
      let depth ← (tree depth).size?
      let fields ← (tree fields).ledger?
      return ⟨cost, depth, fields⟩) := by
  have found : Record.ofMembers? [["cost"], ["depth"], ["fields"]]
      [("cost", cost), ("depth", depth), ("fields", fields)] =
      some [some cost, some depth, some fields] := rfl
  rw [ofWritten?, Written.record?_tree_of_perm order, Written.record?_tree, found]
  rfl

theorem Writes.ofWritten?_iff {r : Report Float} (fits : r.depth ≤ Json.maxSize) {j : Json}
    (writes : r.Writes j) : ofWritten? (tree j) = some r ↔ Config.AllReadBack j := by
  rw [Config.AllReadBack, writes.forall_mem_doubles]
  cases writes with
  | @object fields members hasFields order =>
      have entries : (tree fields).ledger? = some r.fields ↔
          ∀ e ∈ r.fields.entries, ReadsBack e.2 := by
        cases hasFields with
        | @object es entries =>
            rw [Written.ledger?_tree_iff entries]
            simp only [entries.mem_iff]
      rw [ofWritten?_tree_of_perm order, ← Written.amount?_tree_iff, ← entries]
      simp only [Option.bind_eq_bind, Option.bind_eq_some_iff, Option.pure_def, Option.some.injEq]
      constructor
      · rintro ⟨_, cost, _, depth, _, fields, rfl⟩
        exact ⟨cost, fields⟩
      · rintro ⟨cost, fields⟩
        exact ⟨_, cost, _, Written.size?_tree fits, _, fields, rfl⟩

theorem ofWritten?_tree_iff {r : Report Float} (fits : r.depth ≤ Json.maxSize) :
    ofWritten? (tree r.toJson) = some r ↔ ∀ x ∈ r.toJson.doubles, ReadsBack x :=
  (writes_toJson r).ofWritten?_iff fits

/-- Without a finite total nothing is read. -/
theorem ofWritten?_tree_eq_none {r : Report Float} (other : ¬ r.cost.isFinite = true) :
    ofWritten? (tree r.toJson) = none := by
  have null : (tree (.double r.cost)).amount? = none := by
    rw [tree, Json.doubleTree_of_not_isFinite other]
    rfl
  rw [toJson, ofWritten?_tree_of_perm (.refl _), null]
  rfl

theorem ofText?_written {j : Json} {text : String}
    (written : text ∈ [Json.compact j, Json.pretty j]) : ofText? text = ofWritten? (tree j) := by
  rw [ofText?, Written.ofText?_written written, Option.bind_some]

end Report

/-- **A report is read back if its total is finite.**  Under valid rules, what is written of a
report is read as that report exactly if its total is finite and its finite doubles read back; if
its total is not finite then nothing is read of it. -/
theorem report_read_back_iff_total_finite {rules : Rules Float} {d : Document} {r : Report Float}
    (valid : Config.rulesProblem? rules = none) (accepted : analyze rules d = .ok r)
    (fits : r.depth ≤ Json.maxSize) :
    ∀ text ∈ [Json.compact r.toJson, Json.pretty r.toJson],
      (Report.ofText? text = some r ↔
        r.cost.isFinite = true ∧ ∀ x ∈ r.toJson.doubles, x.isFinite = true → ReadsBack x) ∧
      (r.cost.isFinite = false → Report.ofText? text = none) := by
  intro text written
  have total : r = Report.ofDocument rules.tariff d := by
    rw [analyze_eq_heldTo] at accepted
    exact ((heldTo_eq_ok_iff _ _ _).1 accepted).2.2
  have finite : r.cost.isFinite = true → ∀ x ∈ r.toJson.doubles, x.isFinite = true := by
    intro finite
    refine Report.forall_mem_doubles.2 ⟨finite, fun e listed => ?_⟩
    subst total
    have number : (Report.ofDocument rules.tariff d).cost.isNaN = false :=
      ((isFinite_iff _).1 finite).1
    have below := Report.count_le_count_cost valid number listed
    rw [isFinite_iff_count] at finite ⊢
    exact (lt_of_le_of_lt below (lt_top_iff_ne_top.2 finite)).ne
  rw [Report.ofText?_written written]
  refine ⟨?_, fun other => Report.ofWritten?_tree_eq_none (by simp [other])⟩
  rw [Report.ofWritten?_tree_iff fits]
  constructor
  · intro back
    exact ⟨(Report.forall_mem_doubles.1 back).1.isFinite, fun x inside _ => back x inside⟩
  · rintro ⟨bounded, back⟩ x inside
    exact back x inside (finite bounded x inside)

theorem report_read_back_iff_total_finite_nested :
    Config.rulesProblem? defaultRules = none ∧
      ∃ r, analyze defaultRules nestedDocument = .ok r ∧ r.depth ≤ Json.maxSize ∧
        Report.ofText? (Json.compact r.toJson) = some r ∧
        Report.ofText? (Json.pretty r.toJson) = some r := by
  have valid : Config.rulesProblem? defaultRules = none := by decide +kernel
  have accepted := analyze_unlimited defaultRules nestedDocument
  have fits : (Report.ofDocument defaultRules.tariff nestedDocument).depth ≤ Json.maxSize := by
    decide +kernel
  have reads := report_read_back_iff_total_finite valid accepted fits
  refine ⟨valid, _, accepted, fits, ?_, ?_⟩
  · exact (reads _ List.mem_cons_self).1.2 (by decide +kernel)
  · exact (reads _ (List.mem_cons_of_mem _ List.mem_cons_self)).1.2 (by decide +kernel)

/-- Fields that cost one, and a depth factor whose square is infinite. -/
def soaringRules : Rules Float :=
  ⟨⟨∅, 1.0, 1e200, 10.0⟩, .none⟩

theorem nested_report_lost_under_soaringRules :
    Config.rulesProblem? soaringRules = none ∧
      ∃ r, analyze soaringRules nestedDocument = .ok r ∧ r.depth ≤ Json.maxSize ∧
        (∀ x ∈ r.toJson.doubles, x.isFinite = true → ReadsBack x) ∧
        Json.compact r.toJson = "\x7b\"cost\":null,\"depth\":2," ++
          "\"fields\":\x7b\"A.b\":null,\"Query.a\":1e+200\x7d\x7d" ∧
        Report.ofText? (Json.compact r.toJson) = none := by
  refine ⟨by decide +kernel, _, analyze_unlimited soaringRules nestedDocument, by decide +kernel,
    by decide +kernel, by decide +kernel, ?_⟩
  rw [Report.ofText?_written List.mem_cons_self]
  exact Report.ofWritten?_tree_eq_none (by decide +kernel)

end QueryCost.Analysis
