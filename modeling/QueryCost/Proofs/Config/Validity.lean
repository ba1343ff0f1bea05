/-
# QueryCost.Proofs.Config.Validity -- what a valid configuration is

A configuration is valid if bodies may have some length and every amount in it is finite
and at least zero (`Valid`).  The check looks at the amounts one after the other and
stops at the first that is neither; it finds none exactly in a valid configuration
(`problem?_eq_none_iff`).  So a text is accepted as a configuration exactly if it is one
and that one is valid (`checked_eq_ok_iff_valid`).
-/
import QueryCost.Config.Load
import QueryCost.Proofs.Ledger

namespace QueryCost.Config

open QueryCost.Analysis

set_option autoImplicit false

/-- Finite and at least zero; negative zero is that too. -/
structure FiniteNonneg (x : Float) : Prop where
  finite : x.isFinite = true
  nonneg : 0.0 ≤ x

structure Valid (c : Config) : Prop where
  bodySize : 0 < c.settings.maxBodySize
  defaultCost : FiniteNonneg c.rules.tariff.defaultCost
  depthFactor : FiniteNonneg c.rules.tariff.depthFactor
  listFactor : FiniteNonneg c.rules.tariff.listFactor
  costCeiling : ∀ x, c.rules.ceilings.cost = some x → FiniteNonneg x
  fieldCosts : ∀ name x, c.rules.tariff.fieldCosts.get? name = some x → FiniteNonneg x

theorem isAmount_iff {x : Float} : isAmount x = true ↔ FiniteNonneg x := by
  rw [isAmount, Bool.and_eq_true, decide_eq_true_iff]
  exact ⟨fun ⟨finite, nonneg⟩ => ⟨finite, nonneg⟩, fun ⟨finite, nonneg⟩ => ⟨finite, nonneg⟩⟩

theorem rulesProblem?_eq_none_iff {r : Rules Float} :
    rulesProblem? r = none ↔ ∀ a ∈ amounts r, FiniteNonneg a.2 := by
  rw [rulesProblem?, Option.map_eq_none_iff, List.find?_eq_none]
  simp only [Bool.not_not_eq, isAmount_iff]

/-- The amounts of some rules are those of their parts. -/
theorem forall_mem_amounts_iff {P : Float → Prop} {r : Rules Float} :
    (∀ a ∈ amounts r, P a.2) ↔
      P r.tariff.defaultCost ∧ P r.tariff.depthFactor ∧ P r.tariff.listFactor ∧
      (∀ x, r.ceilings.cost = some x → P x) ∧
      ∀ name x, r.tariff.fieldCosts.get? name = some x → P x := by
  have entries : (∀ e ∈ r.tariff.fieldCosts.entries, P e.2) ↔
      ∀ name x, r.tariff.fieldCosts.get? name = some x → P x :=
    ⟨fun all name x found => all (name, x) (Ledger.mem_entries_of_get? found),
      fun all e listed => all e.1 e.2 (Ledger.get?_of_mem listed)⟩
  rw [← entries, amounts]
  simp only [List.forall_mem_append, List.forall_mem_cons, List.forall_mem_map, List.not_mem_nil,
    Option.mem_toList, false_imp_iff, implies_true, and_true, and_assoc]

theorem problem?_eq_none_iff {c : Config} : c.problem? = none ↔ c.Valid := by
  unfold problem?
  by_cases empty : c.settings.maxBodySize = 0
  · rw [if_pos empty]
    exact ⟨nofun, fun valid => absurd empty (Nat.pos_iff_ne_zero.1 valid.bodySize)⟩
  · rw [if_neg empty, rulesProblem?_eq_none_iff, forall_mem_amounts_iff]
    constructor
    · rintro ⟨base, depth, list, ceiling, fields⟩
      exact ⟨Nat.pos_of_ne_zero empty, base, depth, list, ceiling, fields⟩
    · rintro ⟨-, base, depth, list, ceiling, fields⟩
      exact ⟨base, depth, list, ceiling, fields⟩

/-! ## Texts -/

theorem checked_eq_ok_iff_valid {c : Config} {fault : LoadFault} {read : Option Config} :
    checked fault read = .ok c ↔ read = some c ∧ c.Valid := by
  cases read with
  | none => exact ⟨nofun, nofun⟩
  | some d =>
      rw [Option.some.injEq, ← problem?_eq_none_iff, checked]
      cases found : d.problem? with
      | none =>
          constructor
          · rintro ⟨⟩
            exact ⟨rfl, found⟩
          · rintro ⟨rfl, -⟩
            rfl
      | some p =>
          constructor
          · nofun
          · rintro ⟨rfl, none⟩
            cases found.symm.trans none

/-- The configuration that a text is in the format of a path, valid or not. -/
def ofFileText? (path text : String) : Option Config :=
  if isJsonPath path then ofJsonText? text else ofYamlText? text

theorem ofFileText_eq_ok_iff {path text : String} {c : Config} :
    ofFileText path text = .ok c ↔ ofFileText? path text = some c ∧ c.Valid := by
  unfold ofFileText ofFileText?
  split
  · exact checked_eq_ok_iff_valid
  · exact checked_eq_ok_iff_valid

end QueryCost.Config
