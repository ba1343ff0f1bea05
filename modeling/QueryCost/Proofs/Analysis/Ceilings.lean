/-
# QueryCost.Proofs.Analysis.Ceilings -- ceilings refuse and change nothing else

A walk looks at the ceiling on the depth in every selection set and may end in the
middle of a document.  Nevertheless the ceilings can be taken out of the walk: the
analysis is the report of the document without ceilings, held to the ceilings
afterwards (`analyze_eq_heldTo`).  The ceiling on the depth is asked first, and a
document that passes it is refused with the first level above it, wherever that
level stands in the document and however deep it goes on below.
-/
import QueryCost.Proofs.Analysis.Visit
import QueryCost.Refusal

namespace QueryCost.Analysis

open QueryCost.GraphQL

set_option autoImplicit false

/-! ## Reports without ceilings -/

namespace Report

variable {K : Type}

/-- What is known of a document when nothing is asked of it. -/
def ofDocument [Zero K] [One K] [Add K] [Mul K] [BEq K] (tariff : Tariff K) (d : Document) :
    Report K where
  cost := (Occurrence.ofDocument d).foldl (fun cost o => cost + o.charge tariff) 0
  depth := documentHeight d
  fields := (Occurrence.ofDocument d).foldl
    (fun fields o => fields.add o.qualifiedName (o.charge tariff)) ∅

variable [LT K] [DecidableLT K]

/-- Ask a report for the ceilings, for the one on the depth first. -/
def heldTo (ceilings : Ceilings K) (r : Report K) : Except (Excess K) (Report K) :=
  match depthExcess? ceilings.depth 0 r.depth with
  | some e => .error e
  | none =>
      match ceilings.cost with
      | some limit => if limit < r.cost then .error (.cost r.cost limit) else .ok r
      | none => .ok r

/-- A depth that is no more than the ceiling, if there is one. -/
def KeepsDepth (ceilings : Ceilings K) (r : Report K) : Prop :=
  ∀ limit, ceilings.depth = some limit → r.depth ≤ limit

/-- A total that is not greater than the ceiling, if there is one. -/
def KeepsCost (ceilings : Ceilings K) (r : Report K) : Prop :=
  ∀ limit, ceilings.cost = some limit → ¬ limit < r.cost

end Report

section Held

variable {K : Type} [LT K] [DecidableLT K]

set_option linter.unusedSectionVars false

theorem depthExcess?_bottom_eq_some_iff (ceiling : Option Nat) (height : Nat) (e : Excess K) :
    depthExcess? ceiling 0 height = some e ↔
      ∃ limit, ceiling = some limit ∧ limit < height ∧ e = .depth (limit + 1) limit := by
  rw [depthExcess?_eq_some_iff]
  refine exists_congr fun limit => and_congr_right fun _ => ?_
  rw [Nat.zero_add, Nat.max_zero]
  constructor
  · exact fun ⟨_, passed, found⟩ => ⟨passed, found⟩
  · exact fun ⟨passed, found⟩ => ⟨by omega, passed, found⟩

theorem depthExcess?_bottom_eq_none_iff (ceilings : Ceilings K) (r : Report K) :
    (depthExcess? ceilings.depth 0 r.depth : Option (Excess K)) = none ↔
      r.KeepsDepth ceilings := by
  rw [depthExcess?_eq_none_iff]
  refine forall_congr' fun limit => imp_congr_right fun _ => ?_
  omega

theorem heldTo_eq_depth_iff (ceilings : Ceilings K) (r : Report K) (reached limit : Nat) :
    r.heldTo ceilings = .error (.depth reached limit) ↔
      ceilings.depth = some limit ∧ limit < r.depth ∧ reached = limit + 1 := by
  unfold Report.heldTo
  cases excess : (depthExcess? ceilings.depth 0 r.depth : Option (Excess K)) with
  | some e =>
      obtain ⟨m, given, passed, rfl⟩ := (depthExcess?_bottom_eq_some_iff _ _ _).1 excess
      simp only [given, Except.error.injEq, Excess.depth.injEq, Option.some.injEq]
      constructor
      · rintro ⟨rfl, rfl⟩
        exact ⟨rfl, passed, rfl⟩
      · rintro ⟨rfl, -, rfl⟩
        exact ⟨rfl, rfl⟩
  | none =>
      have keeps := (depthExcess?_bottom_eq_none_iff ceilings r).1 excess
      have never : ¬ (ceilings.depth = some limit ∧ limit < r.depth ∧ reached = limit + 1) :=
        fun ⟨given, passed, _⟩ => Nat.not_lt.2 (keeps limit given) passed
      simp only [never, iff_false]
      cases ceilings.cost with
      | none => simp
      | some x => by_cases exceeds : x < r.cost <;> simp [exceeds]

theorem heldTo_of_not_keepsDepth {ceilings : Ceilings K} {r : Report K}
    (passes : ¬ r.KeepsDepth ceilings) :
    ∃ reached limit, r.heldTo ceilings = .error (.depth reached limit) := by
  rw [← depthExcess?_bottom_eq_none_iff] at passes
  obtain ⟨e, excess⟩ := Option.ne_none_iff_exists'.1 passes
  obtain ⟨limit, -, -, rfl⟩ := (depthExcess?_bottom_eq_some_iff _ _ _).1 excess
  exact ⟨limit + 1, limit, by simp only [Report.heldTo, excess]⟩

theorem heldTo_of_keepsDepth {ceilings : Ceilings K} {r : Report K}
    (keeps : r.KeepsDepth ceilings) :
    r.heldTo ceilings =
      match ceilings.cost with
      | some limit => if limit < r.cost then .error (.cost r.cost limit) else .ok r
      | none => .ok r := by
  rw [← depthExcess?_bottom_eq_none_iff] at keeps
  simp only [Report.heldTo, keeps]

theorem heldTo_eq_cost_iff (ceilings : Ceilings K) (r : Report K) (reached limit : K) :
    r.heldTo ceilings = .error (.cost reached limit) ↔
      r.KeepsDepth ceilings ∧ ceilings.cost = some limit ∧ limit < r.cost ∧
        reached = r.cost := by
  by_cases keeps : r.KeepsDepth ceilings
  · rw [heldTo_of_keepsDepth keeps]
    cases ceilings.cost with
    | none => simp
    | some x =>
        by_cases exceeds : x < r.cost
        · simp only [exceeds, if_true, Except.error.injEq, Excess.cost.injEq, keeps, true_and,
            Option.some.injEq]
          constructor
          · rintro ⟨rfl, rfl⟩
            exact ⟨rfl, exceeds, rfl⟩
          · rintro ⟨rfl, -, rfl⟩
            exact ⟨rfl, rfl⟩
        · simp only [exceeds, if_false, reduceCtorEq, false_iff]
          rintro ⟨-, given, passed, -⟩
          cases given
          exact exceeds passed
  · obtain ⟨m, k, refused⟩ := heldTo_of_not_keepsDepth keeps
    simp [refused, keeps]

theorem heldTo_eq_ok_iff (ceilings : Ceilings K) (r r' : Report K) :
    r.heldTo ceilings = .ok r' ↔
      r.KeepsDepth ceilings ∧ r.KeepsCost ceilings ∧ r' = r := by
  by_cases keeps : r.KeepsDepth ceilings
  · rw [heldTo_of_keepsDepth keeps]
    unfold Report.KeepsCost
    cases ceilings.cost with
    | none => simp [keeps, eq_comm]
    | some x => by_cases exceeds : x < r.cost <;> simp [exceeds, keeps, eq_comm]
  · obtain ⟨m, k, refused⟩ := heldTo_of_not_keepsDepth keeps
    simp [refused, keeps]

end Held

/-! ## The analysis -/

section Analyze

variable {K : Type} [Zero K] [One K] [Add K] [Mul K] [BEq K] [LT K] [DecidableLT K]

/-- **The ceilings can be asked after the walk.** -/
theorem analyze_eq_heldTo (rules : Rules K) (d : Document) :
    analyze rules d = (Report.ofDocument rules.tariff d).heldTo rules.ceilings := by
  rw [analyze, Walk.document_eq_visit, Walk.visit, Report.heldTo]
  have depth : (Walk.start : Walk K).depth = 0 := rfl
  have height : (Report.ofDocument rules.tariff d).depth = documentHeight d := rfl
  rw [depth, height]
  cases depthExcess? rules.ceilings.depth 0 (documentHeight d) with
  | some e => rfl
  | none =>
      have deepest : ((Walk.start : Walk K).visited rules.tariff (Occurrence.ofDocument d)
          (documentHeight d)).deepest = documentHeight d := by
        simp only [Walk.visited, Walk.start]
        split <;> omega
      simp only [bind, Except.bind, deepest]
      rfl

theorem analyze_unlimited (rules : Rules K) (d : Document) :
    analyze rules.unlimited d = .ok (Report.ofDocument rules.tariff d) := by
  rw [analyze_eq_heldTo]
  rfl

end Analyze

/-- The analysis of a document is refused at its depth, else at its cost, exactly as
the report without ceilings shows, and is that report otherwise.  A text that is no
document gets one answer under all rules. -/
theorem analyze_agrees_with_unlimited (rules : Rules Float) :
    (∀ d, ∃ r, analyze rules.unlimited d = .ok r ∧
      (∀ reached limit, analyze rules d = .error (.depth reached limit) ↔
        rules.ceilings.depth = some limit ∧ limit < r.depth ∧ reached = limit + 1) ∧
      (∀ reached limit, analyze rules d = .error (.cost reached limit) ↔
        (∀ m, rules.ceilings.depth = some m → r.depth ≤ m) ∧
          rules.ceilings.cost = some limit ∧ limit < r.cost ∧ reached = r.cost) ∧
      (∀ r', analyze rules d = .ok r' ↔
        (∀ m, rules.ceilings.depth = some m → r.depth ≤ m) ∧
          (∀ x, rules.ceilings.cost = some x → ¬ x < r.cost) ∧ r' = r)) ∧
    ∀ text,
      (∃ fault, Document.ofText text = .error fault ∧
        ∀ other, analyzeText other text = .error (.unreadable [.ofFault fault])) ∨
      (∃ d, Document.ofText text = .ok d ∧
        ∀ other, analyzeText other text = (analyze other d).mapError .excess) := by
  refine ⟨fun d => ⟨_, analyze_unlimited rules d, ?_, ?_, ?_⟩, fun text => ?_⟩
  · intro reached limit
    rw [analyze_eq_heldTo]
    exact heldTo_eq_depth_iff _ _ reached limit
  · intro reached limit
    rw [analyze_eq_heldTo]
    exact heldTo_eq_cost_iff _ _ reached limit
  · intro r'
    rw [analyze_eq_heldTo]
    exact heldTo_eq_ok_iff _ _ r'
  · cases read : Document.ofText text with
    | error fault =>
        refine .inl ⟨fault, rfl, fun other => ?_⟩
        simp only [analyzeText, read]
    | ok d =>
        refine .inr ⟨d, rfl, fun other => ?_⟩
        simp only [analyzeText, read]
        cases analyze other d <;> rfl

end QueryCost.Analysis
