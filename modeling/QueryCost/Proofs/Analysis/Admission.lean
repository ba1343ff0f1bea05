/-
# QueryCost.Proofs.Analysis.Admission -- what asks for less is admitted

Costs are read here as exact rational numbers.  A document is pruned by deleting
selections with all that is below them, at any places, or whole definitions; a
selection set that has lost everything stays as an empty one.  Where the rest of a
document stands does not depend on what stood beside it, so the occurrences that
survive keep their depth and their type: those of the pruned document are among those
of the whole one, in the same order (`sublist_ofSelections`).

A tariff undercuts another if it asks no more for a field of any name and none of its
factors is greater.  Without negative numbers it then charges no more for any
occurrence (`charge_le`).  Both together: a pruned document under a tariff that
undercuts is charged no more, in total and under each name, and is accepted wherever
the whole document is (`admission_monotone`).
-/
import Mathlib.Algebra.Order.BigOperators.Group.List
import Mathlib.Algebra.Order.Ring.Rat
import Mathlib.Data.List.Forall2
import Mathlib.Tactic.NormNum
import QueryCost.Proofs.Analysis.Breakdown
import QueryCost.Proofs.Analysis.Power

namespace QueryCost.Analysis

open QueryCost.GraphQL

set_option autoImplicit false

/-! ## Pruned documents -/

mutual

/-- The same selection, with some of what is below it deleted. -/
inductive PrunedSelection : Selection → Selection → Prop
  | leaf (f : Field) : PrunedSelection (.leaf f) (.leaf f)
  | branch (f : Field) {s s' : List Selection} (below : Pruned s s') :
      PrunedSelection (.branch f s) (.branch f s')
  | inlineFragment (condition : Option String) (directives : List Directive)
      {s s' : List Selection} (below : Pruned s s') :
      PrunedSelection (.inlineFragment condition directives s)
        (.inlineFragment condition directives s')
  | fragmentSpread (name : String) (directives : List Directive) :
      PrunedSelection (.fragmentSpread name directives) (.fragmentSpread name directives)

/-- Some of the selections with all below them, or some of what is below them, deleted. -/
inductive Pruned : List Selection → List Selection → Prop
  | nil : Pruned [] []
  | keep {s s' : Selection} {rest rest' : List Selection} (first : PrunedSelection s s')
      (more : Pruned rest rest') : Pruned (s :: rest) (s' :: rest')
  | delete (s : Selection) {rest rest' : List Selection} (more : Pruned rest rest') :
      Pruned rest (s :: rest')

end

inductive PrunedDefinition : Definition → Definition → Prop
  | operation (head : Option OperationHead) {s s' : List Selection} (below : Pruned s s') :
      PrunedDefinition (.operation head s) (.operation head s')
  | fragment (head : FragmentHead) {s s' : List Selection} (below : Pruned s s') :
      PrunedDefinition (.fragment head s) (.fragment head s')
  | typeSystem : PrunedDefinition .typeSystem .typeSystem

/-- Whole definitions, or some of what is in them, deleted. -/
def PrunedDocument (d d' : Document) : Prop :=
  List.SublistForall₂ PrunedDefinition d.definitions d'.definitions

mutual

theorem sublist_ofSelection (depth : Nat) (type : String) : ∀ {s s' : Selection},
    PrunedSelection s s' →
    (Occurrence.ofSelection depth type s).Sublist (Occurrence.ofSelection depth type s')
  | _, _, .leaf f => List.Sublist.refl _
  | _, _, .branch f below => (sublist_ofSelections (depth + 1) f.typeBelow below).cons_cons _
  | _, _, .inlineFragment _ _ below => sublist_ofSelections (depth + 1) type below
  | _, _, .fragmentSpread _ _ => List.Sublist.refl _

theorem sublist_ofSelections (depth : Nat) (type : String) : ∀ {s s' : List Selection},
    Pruned s s' →
    (Occurrence.ofSelections depth type s).Sublist (Occurrence.ofSelections depth type s')
  | _, _, .nil => List.Sublist.refl _
  | _, _, .keep first more =>
      (sublist_ofSelection depth type first).append (sublist_ofSelections depth type more)
  | _, _, .delete s more =>
      (sublist_ofSelections depth type more).trans (List.sublist_append_right _ _)

end

mutual

theorem selectionHeight_le : ∀ {s s' : Selection}, PrunedSelection s s' →
    selectionHeight s ≤ selectionHeight s'
  | _, _, .leaf _ => Nat.le_refl _
  | _, _, .branch _ below => Nat.succ_le_succ (selectionsHeight_le below)
  | _, _, .inlineFragment _ _ below => Nat.succ_le_succ (selectionsHeight_le below)
  | _, _, .fragmentSpread _ _ => Nat.le_refl _

theorem selectionsHeight_le : ∀ {s s' : List Selection}, Pruned s s' →
    selectionsHeight s ≤ selectionsHeight s'
  | _, _, .nil => Nat.le_refl _
  | _, _, .keep first more => by
      have here := selectionHeight_le first
      have there := selectionsHeight_le more
      simp only [selectionsHeight]
      omega
  | _, _, .delete s more => by
      have there := selectionsHeight_le more
      simp only [selectionsHeight]
      omega

end

theorem PrunedDefinition.sublist {d d' : Definition} (pruned : PrunedDefinition d d') :
    (Occurrence.ofDefinition d).Sublist (Occurrence.ofDefinition d') := by
  cases pruned with
  | operation head below => exact sublist_ofSelections 1 (rootType head) below
  | fragment head below => exact sublist_ofSelections 1 unknownType below
  | typeSystem => exact List.Sublist.refl _

theorem PrunedDefinition.height_le {d d' : Definition} (pruned : PrunedDefinition d d') :
    definitionHeight d ≤ definitionHeight d' := by
  cases pruned with
  | operation head below => exact Nat.succ_le_succ (selectionsHeight_le below)
  | fragment head below => exact Nat.succ_le_succ (selectionsHeight_le below)
  | typeSystem => exact Nat.le_refl _

theorem PrunedDocument.sublist {d d' : Document} (pruned : PrunedDocument d d') :
    (Occurrence.ofDocument d).Sublist (Occurrence.ofDocument d') := by
  obtain ⟨ds⟩ := d
  obtain ⟨ds'⟩ := d'
  change List.SublistForall₂ PrunedDefinition ds ds' at pruned
  induction pruned with
  | nil => exact List.nil_sublist _
  | cons first _ ih => exact first.sublist.append ih
  | cons_right _ ih => exact ih.trans (List.sublist_append_right _ _)

theorem PrunedDocument.height_le {d d' : Document} (pruned : PrunedDocument d d') :
    documentHeight d ≤ documentHeight d' := by
  obtain ⟨ds⟩ := d
  obtain ⟨ds'⟩ := d'
  change List.SublistForall₂ PrunedDefinition ds ds' at pruned
  induction pruned with
  | nil => exact Nat.zero_le _
  | cons first _ ih =>
      have here := first.height_le
      rw [documentHeight_cons, documentHeight_cons]
      omega
  | cons_right _ ih =>
      rw [documentHeight_cons]
      omega

/-! ## Tariffs that ask for less -/

namespace Tariff

/-- No number of the tariff is negative. -/
structure Nonnegative (t : Tariff ℚ) : Prop where
  fieldCosts : ∀ e ∈ t.fieldCosts.entries, 0 ≤ e.2
  defaultCost : 0 ≤ t.defaultCost
  depthFactor : 0 ≤ t.depthFactor
  listFactor : 0 ≤ t.listFactor

/-- The tariff asks no more than another. -/
structure Undercuts (t t' : Tariff ℚ) : Prop where
  base : ∀ name, t.base name ≤ t'.base name
  depthFactor : t.depthFactor ≤ t'.depthFactor
  listFactor : t.listFactor ≤ t'.listFactor

theorem Nonnegative.base {t : Tariff ℚ} (nonneg : t.Nonnegative) (name : String) :
    0 ≤ t.base name := by
  unfold Tariff.base
  cases found : t.fieldCosts.get? name with
  | none => exact nonneg.defaultCost
  | some x => exact nonneg.fieldCosts _ (Ledger.mem_entries_of_get? found)

theorem Nonnegative.listMultiplier {t : Tariff ℚ} (nonneg : t.Nonnegative) (sized : Bool) :
    0 ≤ t.listMultiplier sized := by
  cases sized with
  | true => exact nonneg.listFactor
  | false => exact zero_le_one

theorem Nonnegative.charge {t : Tariff ℚ} (nonneg : t.Nonnegative) (o : Occurrence) :
    0 ≤ o.charge t := by
  unfold Occurrence.charge Tariff.charge
  rw [depthMultiplier_eq_pow]
  exact mul_nonneg (mul_nonneg (nonneg.base _) (pow_nonneg nonneg.depthFactor _))
    (nonneg.listMultiplier _)

variable {t t' : Tariff ℚ} (nonneg : t.Nonnegative) (undercuts : t.Undercuts t')

include nonneg undercuts

/-- Each of the three factors of a charge is at least zero and no greater than its counterpart. -/
theorem charge_le (o : Occurrence) : o.charge t ≤ o.charge t' := by
  have base := undercuts.base o.qualifiedName
  have depth : t.depthFactor ^ o.depth ≤ t'.depthFactor ^ o.depth :=
    pow_le_pow_left₀ nonneg.depthFactor undercuts.depthFactor o.depth
  have list : t.listMultiplier o.sized ≤ t'.listMultiplier o.sized := by
    cases o.sized with
    | true => exact undercuts.listFactor
    | false => exact le_refl 1
  have baseNonneg : 0 ≤ t'.base o.qualifiedName := (nonneg.base _).trans base
  have depthNonneg := pow_nonneg nonneg.depthFactor o.depth
  unfold Occurrence.charge Tariff.charge
  rw [depthMultiplier_eq_pow, depthMultiplier_eq_pow]
  have product := mul_le_mul base depth depthNonneg baseNonneg
  exact mul_le_mul product list (nonneg.listMultiplier _)
    (mul_nonneg baseNonneg (depthNonneg.trans depth))

/-- Fewer occurrences at lower charges sum up to less. -/
theorem sum_charges_le {os os' : List Occurrence} (fewer : os.Sublist os') :
    (os.map (·.charge t)).sum ≤ (os'.map (·.charge t')).sum := by
  have cheaper : (os.map (·.charge t)).sum ≤ (os.map (·.charge t')).sum :=
    List.sum_le_sum fun o _ => charge_le nonneg undercuts o
  have shorter : (os.map (·.charge t')).sum ≤ (os'.map (·.charge t')).sum := by
    refine (fewer.map _).sum_le_sum fun x among => ?_
    obtain ⟨o, -, rfl⟩ := List.mem_map.1 among
    exact (nonneg.charge o).trans (charge_le nonneg undercuts o)
  exact cheaper.trans shorter

end Tariff

/-! ## Reports that ask for less -/

/-- The ceilings are no lower than others; a ceiling that is not given is higher than any. -/
structure Ceilings.NoLower (c c' : Ceilings ℚ) : Prop where
  cost : ∀ x, c.cost = some x → ∃ x', c'.cost = some x' ∧ x' ≤ x
  depth : ∀ n, c.depth = some n → ∃ n', c'.depth = some n' ∧ n' ≤ n

/-- A report that is nowhere greater than another and has no other names. -/
structure Report.Within (r r' : Report ℚ) : Prop where
  cost : r.cost ≤ r'.cost
  depth : r.depth ≤ r'.depth
  names : ∀ name ∈ r.fields.names, name ∈ r'.fields.names
  fields : ∀ name, (r.fields.get? name).getD 0 ≤ (r'.fields.get? name).getD 0

theorem Report.Within.keepsDepth {r r' : Report ℚ} (within : r.Within r')
    {c c' : Ceilings ℚ} (higher : c.NoLower c') (keeps : r'.KeepsDepth c') : r.KeepsDepth c := by
  intro limit given
  obtain ⟨limit', given', le⟩ := higher.depth limit given
  exact within.depth.trans ((keeps limit' given').trans le)

theorem Report.Within.keepsCost {r r' : Report ℚ} (within : r.Within r')
    {c c' : Ceilings ℚ} (higher : c.NoLower c') (keeps : r'.KeepsCost c') : r.KeepsCost c := by
  intro limit given
  obtain ⟨limit', given', le⟩ := higher.cost limit given
  exact not_lt.2 (within.cost.trans ((not_lt.1 (keeps limit' given')).trans le))

theorem within_ofDocument {t t' : Tariff ℚ} {d d' : Document} (nonneg : t.Nonnegative)
    (undercuts : t.Undercuts t') (pruned : PrunedDocument d d') :
    (Report.ofDocument t d).Within (Report.ofDocument t' d') where
  cost := by
    rw [cost_ofDocument_eq_sum, cost_ofDocument_eq_sum]
    exact Tariff.sum_charges_le nonneg undercuts pruned.sublist
  depth := pruned.height_le
  names name listed := by
    rw [mem_names_ofDocument] at listed ⊢
    obtain ⟨o, among, named⟩ := listed
    exact ⟨o, pruned.sublist.subset among, named⟩
  fields name := by
    rw [getD_fields_ofDocument, getD_fields_ofDocument]
    exact Tariff.sum_charges_le nonneg undercuts (pruned.sublist.filter _)

/-- **Admission is monotone.**  A pruned document under a tariff that undercuts is charged no more
than the whole one, in total and under each name, and is no deeper; so it is accepted if the whole
one is accepted under the other tariff and ceilings that are no higher. -/
theorem admission_monotone {t t' : Tariff ℚ} {d d' : Document} (nonneg : t.Nonnegative)
    (undercuts : t.Undercuts t') (pruned : PrunedDocument d d') :
    (∃ r r', analyze ⟨t, .none⟩ d = .ok r ∧ analyze ⟨t', .none⟩ d' = .ok r' ∧
      r.cost ≤ r'.cost ∧ r.depth ≤ r'.depth ∧
      ∀ name x, r.fields.get? name = some x →
        ∃ x', r'.fields.get? name = some x' ∧ x ≤ x') ∧
    ∀ c c' : Ceilings ℚ, c.NoLower c' →
      (∃ r', analyze ⟨t', c'⟩ d' = .ok r') → ∃ r, analyze ⟨t, c⟩ d = .ok r := by
  have within := within_ofDocument nonneg undercuts pruned
  constructor
  · refine ⟨_, _, analyze_unlimited ⟨t, .none⟩ d, analyze_unlimited ⟨t', .none⟩ d', within.cost,
      within.depth, fun name x entered => ?_⟩
    have listed := within.names name
    have le := within.fields name
    rw [Ledger.mem_names_iff, Ledger.mem_names_iff, entered] at listed
    obtain ⟨x', entered'⟩ := Option.isSome_iff_exists.1 (listed rfl)
    rw [entered, entered'] at le
    exact ⟨x', entered', le⟩
  · rintro c c' higher ⟨r', accepted⟩
    rw [analyze_eq_heldTo, heldTo_eq_ok_iff] at accepted
    obtain ⟨keepsDepth, keepsCost, -⟩ := accepted
    refine ⟨Report.ofDocument t d, ?_⟩
    rw [analyze_eq_heldTo, heldTo_eq_ok_iff]
    exact ⟨within.keepsDepth higher keepsDepth, within.keepsCost higher keepsCost, rfl⟩

/-- Rules that undercut `feedRules` and have one ceiling less. -/
def lowRules : Rules ℚ :=
  ⟨⟨Ledger.ofList [("Query.feed", 3)], 1, 5 / 4, 10⟩, ⟨some (255 / 4), none⟩⟩

/-- The document `{ feed(first: 5) { } }`, which is `feedDocument` without two of its fields. -/
def emptiedDocument : Document :=
  ⟨[.operation none [.branch ⟨none, "feed", [.given "first" (.number "5")], []⟩ []]]⟩

theorem base_ofList_singleton (name : String) (cost default depthFactor listFactor : ℚ)
    (other : String) :
    (⟨Ledger.ofList [(name, cost)], default, depthFactor, listFactor⟩ : Tariff ℚ).base other =
      if other = name then cost else default := by
  have found : (Ledger.ofList [(name, cost)]).get? other =
      if other = name then some cost else none :=
    Ledger.get?_alter ∅ name (fun _ => cost) other
  rw [Tariff.base, found]
  split <;> rfl

theorem admission_monotone_emptied :
    lowRules.tariff.Nonnegative ∧ lowRules.tariff.Undercuts feedRules.tariff ∧
      PrunedDocument emptiedDocument feedDocument ∧
      lowRules.ceilings.NoLower feedRules.ceilings ∧
      (∃ r', analyze feedRules feedDocument = .ok r') ∧
      ∃ r, analyze lowRules emptiedDocument = .ok r := by
  have nonneg : lowRules.tariff.Nonnegative :=
    ⟨by decide +kernel, by decide +kernel, by decide +kernel, by decide +kernel⟩
  have undercuts : lowRules.tariff.Undercuts feedRules.tariff := by
    refine ⟨fun name => ?_, by decide +kernel, by decide +kernel⟩
    rw [lowRules, feedRules, base_ofList_singleton, base_ofList_singleton]
    split <;> norm_num
  have pruned : PrunedDocument emptiedDocument feedDocument :=
    .cons (.operation none (.keep (.branch _ (.delete _ .nil)) (.delete _ .nil))) .nil
  have higher : lowRules.ceilings.NoLower feedRules.ceilings :=
    ⟨fun x given => ⟨255 / 4, rfl, (Option.some.inj given).le⟩, nofun⟩
  exact ⟨nonneg, undercuts, pruned, higher, ⟨_, feedDocument_accepted⟩,
    (admission_monotone nonneg undercuts pruned).2 _ _ higher ⟨_, feedDocument_accepted⟩⟩

end QueryCost.Analysis
