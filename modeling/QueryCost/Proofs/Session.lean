/-
# QueryCost.Proofs.Session -- what a session answers at each of its steps

A session is told by its steps.  Of everything that steps can set, the current
configuration has what the last step that set it gave (`last?`), and all else is as it
was at the start (`LeftBy`): one lemma says what a single step sets, and one carries it
through a run (`view_run`).  No two configurations are left by the same steps
(`LeftBy.unique`).

What was bound stays where it was bound (`bound_run`).  So what it answers is what the
configuration answers that the steps before its binding left (`BoundBy`), and the steps
between the binding and the question have no part in it.
-/
import QueryCost.Proofs.Ledger
import QueryCost.Session

namespace QueryCost

open QueryCost.Analysis

set_option autoImplicit false

namespace Session

/-! ## What steps set -/

namespace Step

/-- The field whose cost a step sets. -/
def field? : Step → Option String
  | .setFieldCost name _ => some name
  | _ => none

/-- The cost that a step sets for a field. -/
def fieldCost? (name : String) : Step → Option Float
  | .setFieldCost field cost => if name = field then some cost else none
  | _ => none

def costCeiling? : Step → Option Float
  | .setCostCeiling cost => some cost
  | _ => none

def depthCeiling? : Step → Option Nat
  | .setDepthCeiling depth => some depth
  | _ => none

/-- What a step binds while a configuration is current. -/
def binding? (c : Config) : Step → Option Binding
  | .bind => some (.middleware c)
  | .bindFunction => some (.ofRules c.rules)
  | _ => none

/-- Whether a step binds anything. -/
def binds : Step → Bool
  | .bind => true
  | .bindFunction => true
  | _ => false

theorem isSome_fieldCost?_iff (name : String) (step : Step) :
    (step.fieldCost? name).isSome ↔ step.field? = some name := by
  cases step with
  | setFieldCost field cost =>
      by_cases same : name = field
      · simp [fieldCost?, field?, same]
      · simp [fieldCost?, field?, same, Ne.symm same]
  | _ => simp [fieldCost?, field?]

end Step

section Last

variable {β : Type} (set : Step → Option β)

/-- What the last of the steps that set something sets. -/
def last? (steps : List Step) : Option β :=
  (steps.filterMap set).getLast?

theorem last?_cons (step : Step) (rest : List Step) :
    last? set (step :: rest) = (last? set rest).or (set step) := by
  unfold last?
  cases given : set step with
  | none => rw [List.filterMap_cons_none given, Option.or_none]
  | some b =>
      rw [List.filterMap_cons_some given, List.getLast?_cons]
      cases (rest.filterMap set).getLast? <;> rfl

theorem isSome_last?_iff (steps : List Step) :
    (last? set steps).isSome ↔ ∃ step ∈ steps, (set step).isSome := by
  induction steps with
  | nil => simp [last?]
  | cons step rest ih => rw [last?_cons, Option.isSome_or, Bool.or_eq_true, ih]; simp [or_comm]

end Last

/-! ## The configuration that steps leave -/

/-- A configuration as some steps leave it. -/
structure LeftBy (c : Config) (steps : List Step) (d : Config) : Prop where
  settings : d.settings = c.settings
  defaultCost : d.rules.tariff.defaultCost = c.rules.tariff.defaultCost
  depthFactor : d.rules.tariff.depthFactor = c.rules.tariff.depthFactor
  listFactor : d.rules.tariff.listFactor = c.rules.tariff.listFactor
  fieldCost : ∀ name, d.rules.tariff.fieldCosts.get? name =
    (last? (Step.fieldCost? name) steps).or (c.rules.tariff.fieldCosts.get? name)
  /-- There is one entry for each name. -/
  fieldCosts : d.rules.tariff.fieldCosts.size =
    (c.rules.tariff.fieldCosts.names ++ steps.filterMap Step.field?).toFinset.card
  costCeiling : d.rules.ceilings.cost =
    (last? Step.costCeiling? steps).or c.rules.ceilings.cost
  depthCeiling : d.rules.ceilings.depth =
    (last? Step.depthCeiling? steps).or c.rules.ceilings.depth

theorem LeftBy.unique {c d d' : Config} {steps : List Step} (left : LeftBy c steps d)
    (left' : LeftBy c steps d') : d = d' := by
  obtain ⟨settings, ⟨fieldCosts, defaultCost, depthFactor, listFactor⟩, ⟨cost, depth⟩⟩ := d
  obtain ⟨settings', ⟨fieldCosts', defaultCost', depthFactor', listFactor'⟩, ⟨cost', depth'⟩⟩ := d'
  have same : fieldCosts = fieldCosts' :=
    Ledger.eq_of_get? fun name => (left.fieldCost name).trans (left'.fieldCost name).symm
  cases same
  cases left.settings.trans left'.settings.symm
  cases left.defaultCost.trans left'.defaultCost.symm
  cases left.depthFactor.trans left'.depthFactor.symm
  cases left.listFactor.trans left'.listFactor.symm
  cases left.costCeiling.trans left'.costCeiling.symm
  cases left.depthCeiling.trans left'.depthCeiling.symm
  rfl

theorem run_cons (s : Session) (step : Step) (rest : List Step) :
    s.run (step :: rest) =
      (((s.step step).1.run rest).1, (s.step step).2 :: ((s.step step).1.run rest).2) :=
  rfl

/-- What every step leaves as it is, or as the step sets it, a run leaves as its last step that
sets it does. -/
theorem view_run {β : Type} (view : Config → Option β) (set : Step → Option β)
    (onStep : ∀ (s : Session) (step : Step),
      view (s.step step).1.current = (set step).or (view s.current))
    (steps : List Step) (s : Session) :
    view (s.run steps).1.current = (last? set steps).or (view s.current) := by
  induction steps generalizing s with
  | nil => rfl
  | cons step rest ih =>
      have next := ih (s.step step).1
      rw [onStep] at next
      rw [run_cons, last?_cons, Option.or_assoc]
      exact next

/-- What no step changes, no run does. -/
theorem kept_run {β : Type} (view : Config → β)
    (onStep : ∀ (s : Session) (step : Step), view (s.step step).1.current = view s.current)
    (steps : List Step) (s : Session) : view (s.run steps).1.current = view s.current := by
  induction steps generalizing s with
  | nil => rfl
  | cons step rest ih => exact (ih (s.step step).1).trans (onStep s step)

theorem get?_fieldCosts_step (name : String) (s : Session) (step : Step) :
    (s.step step).1.current.rules.tariff.fieldCosts.get? name =
      (step.fieldCost? name).or (s.current.rules.tariff.fieldCosts.get? name) := by
  cases step with
  | setFieldCost field cost =>
      have set : (s.step (.setFieldCost field cost)).1.current.rules.tariff.fieldCosts =
        s.current.rules.tariff.fieldCosts.insert field cost := rfl
      rw [set, Ledger.insert, Ledger.get?_alter, Step.fieldCost?]
      split
      · rfl
      · rfl
  | _ => rfl

theorem leftBy_run (c : Config) (steps : List Step) :
    LeftBy c steps ((start c).run steps).1.current := by
  have fieldCost := fun name =>
    view_run (fun d => d.rules.tariff.fieldCosts.get? name) (Step.fieldCost? name)
      (get?_fieldCosts_step name) steps (start c)
  refine ⟨?_, ?_, ?_, ?_, fieldCost, ?_, ?_, ?_⟩
  · exact kept_run (·.settings) (fun s step => by cases step <;> rfl) steps _
  · exact kept_run (·.rules.tariff.defaultCost) (fun s step => by cases step <;> rfl) steps _
  · exact kept_run (·.rules.tariff.depthFactor) (fun s step => by cases step <;> rfl) steps _
  · exact kept_run (·.rules.tariff.listFactor) (fun s step => by cases step <;> rfl) steps _
  · refine Ledger.size_eq_card fun name => ?_
    have initial : (start c).current = c := rfl
    have named : (∃ step ∈ steps, step.field? = some name) ↔
        name ∈ steps.filterMap Step.field? := List.mem_filterMap.symm
    rw [Ledger.mem_names_iff, fieldCost name, Option.isSome_or, Bool.or_eq_true, isSome_last?_iff,
      initial, List.mem_append, Ledger.mem_names_iff, ← named, or_comm]
    simp only [Step.isSome_fieldCost?_iff]
  · exact view_run (·.rules.ceilings.cost) Step.costCeiling?
      (fun s step => by cases step <;> rfl) steps (start c)
  · exact view_run (·.rules.ceilings.depth) Step.depthCeiling?
      (fun s step => by cases step <;> rfl) steps (start c)

/-! ## What stays bound -/

/-- How many things some steps bind, which is the number that the next one is bound under. -/
def bindings (steps : List Step) : Nat :=
  steps.countP Step.binds

theorem run_append (s : Session) (before after : List Step) :
    s.run (before ++ after) =
      (((s.run before).1.run after).1, (s.run before).2 ++ ((s.run before).1.run after).2) := by
  induction before generalizing s with
  | nil => rfl
  | cons step rest ih => rw [List.cons_append, run_cons, ih, run_cons, List.cons_append]

theorem length_run (s : Session) (steps : List Step) :
    (s.run steps).2.length = steps.length := by
  induction steps generalizing s with
  | nil => rfl
  | cons step rest ih => rw [run_cons, List.length_cons, List.length_cons, ih]

/-- The answer to a step is that of the session at that step. -/
theorem answer_run (s : Session) (before : List Step) (use : Step) (after : List Step) :
    (s.run (before ++ use :: after)).2[before.length]? =
      some ((s.run before).1.step use).2 := by
  rw [run_append, run_cons, List.getElem?_append_right (length_run s before).le,
    length_run, Nat.sub_self, List.getElem?_cons_zero]

theorem bound_step (s : Session) (step : Step) :
    (s.step step).1.bound = s.bound ++ (step.binding? s.current).toList := by
  cases step with
  | bind => rfl
  | bindFunction => rfl
  | _ => exact (List.append_nil _).symm

theorem isSome_binding? (c : Config) (step : Step) : (step.binding? c).isSome = step.binds := by
  cases step <;> rfl

theorem bound_run (s : Session) (steps : List Step) :
    s.bound <+: (s.run steps).1.bound ∧
      (s.run steps).1.bound.length = s.bound.length + bindings steps := by
  induction steps generalizing s with
  | nil => exact ⟨List.prefix_refl _, rfl⟩
  | cons step rest ih =>
      obtain ⟨kept, length⟩ := ih (s.step step).1
      rw [bound_step] at kept length
      refine ⟨(List.prefix_append ..).trans kept, ?_⟩
      have counted : (step.binding? s.current).toList.length = if step.binds then 1 else 0 := by
        rw [← isSome_binding? s.current]
        cases step.binding? s.current <;> rfl
      rw [run_cons, length, List.length_append, counted, bindings, bindings, List.countP_cons]
      omega

/-- Under this number a step bound what it binds while that configuration was current. -/
def BoundBy (c : Config) (before : List Step) (index : Nat) (binding : Step) (d : Config) : Prop :=
  ∃ early late, before = early ++ binding :: late ∧ bindings early = index ∧ LeftBy c early d

theorem BoundBy.getElem? {c d : Config} {before : List Step} {index : Nat} {binding : Step}
    {b : Binding} (bound : BoundBy c before index binding d) (given : binding.binding? d = some b) :
    ((start c).run before).1.bound[index]? = some b := by
  obtain ⟨early, late, rfl, rfl, left⟩ := bound
  have current : ((start c).run early).1.current = d := (leftBy_run c early).unique left
  have length : ((start c).run early).1.bound.length = bindings early :=
    ((bound_run (start c) early).2).trans (Nat.zero_add _)
  rw [run_append, run_cons]
  obtain ⟨rest, more⟩ := (bound_run (((start c).run early).1.step binding).1 late).1
  rw [bound_step, current, given] at more
  rw [← more, ← length]
  simp

/-! ## Answers -/

/-- What a step is to be answered with behind others. -/
inductive Answers (c : Config) (before : List Step) : Step → Answer → Prop
  | entries {name : String} {cost : Float} {d : Config}
      (left : LeftBy c (before ++ [.setFieldCost name cost]) d) :
      Answers c before (.setFieldCost name cost) (.fieldCosts d.rules.tariff.fieldCosts.size)
  | bound {binding : Step} (binds : binding.binds = true) :
      Answers c before binding (.bound (bindings before))
  | analyzed {d : Config} (left : LeftBy c before d) (query : String) :
      Answers c before (.analyze query) (.analysis (analyzeText d.rules query))
  | analyzedBound {index : Nat} {binding : Step} {d : Config} (binds : binding.binds = true)
      (bound : BoundBy c before index binding d) (query : String) :
      Answers c before (.analyzeBound index query) (.analysis (analyzeText d.rules query))
  | judgedBound {index : Nat} {d : Config} (bound : BoundBy c before index .bind d)
      (body : ByteArray) : Answers c before (.judgeBound index body) (.verdict (d.judge body))

theorem answer_step {c : Config} {before : List Step} {use : Step} {answer : Answer}
    (answers : Answers c before use answer) :
    (((start c).run before).1.step use).2 = answer := by
  cases answers with
  | @entries name cost d left =>
      have after := leftBy_run c (before ++ [.setFieldCost name cost])
      rw [run_append] at after
      rw [left.unique after]
      rfl
  | bound binds =>
      have length := (bound_run (start c) before).2.trans (Nat.zero_add _)
      cases use with
      | bind => exact congrArg Answer.bound length
      | bindFunction => exact congrArg Answer.bound length
      | _ => cases binds
  | analyzed left query =>
      rw [left.unique (leftBy_run c before)]
      rfl
  | @analyzedBound index binding d binds bound query =>
      cases binding with
      | bind => simp only [step, askBound, bound.getElem? rfl, Binding.config, Config.analyze]
      | bindFunction =>
          simp only [step, askBound, bound.getElem? rfl, Binding.ofRules, Binding.config,
            Config.analyze]
      | _ => cases binds
  | judgedBound bound body => simp only [step, askMiddleware, askBound, bound.getElem? rfl]

/-- **What was bound never sees a later change.**  The current configuration is at every time what
the steps so far make of the first one, and every step is answered as it is to be answered behind
those in front of it: what was bound as the configuration that was current then, however many
changes and bindings followed. -/
theorem run_answers_as_bound (c : Config) (steps : List Step) :
    LeftBy c steps ((start c).run steps).1.current ∧
      ((start c).run steps).2.length = steps.length ∧
      ∀ before use after answer, steps = before ++ use :: after → Answers c before use answer →
        ((start c).run steps).2[before.length]? = some answer := by
  refine ⟨leftBy_run c steps, length_run _ steps, ?_⟩
  rintro before use after answer rfl answers
  rw [answer_run, answer_step answers]

/-- The cost of a field is raised after a middleware was bound. -/
def raisedSteps : List Step :=
  [.setFieldCost "Query.a" 5.0, .bind, .setFieldCost "Query.a" 7.0, .analyzeBound 0 "\x7ba\x7d"]

theorem run_answers_as_bound_raised :
    ∃ report, ((start .default).run raisedSteps).2[3]? = some (.analysis (.ok report)) ∧
      report.cost = 5.0 := by
  obtain ⟨-, -, answered⟩ := run_answers_as_bound .default raisedSteps
  have bound : BoundBy .default (raisedSteps.take 3) 0 .bind
      ⟨.default, defaultRules.setFieldCost "Query.a" 5.0⟩ :=
    ⟨raisedSteps.take 1, (raisedSteps.drop 2).take 1, rfl, rfl, leftBy_run .default _⟩
  have told := answered (raisedSteps.take 3) _ [] _ rfl (.analyzedBound rfl bound "\x7ba\x7d")
  have known : (analyzeText (defaultRules.setFieldCost "Query.a" 5.0) "\x7ba\x7d").toOption.map
      (·.cost) = some 5.0 := by decide +kernel
  cases analyzed : analyzeText (defaultRules.setFieldCost "Query.a" 5.0) "\x7ba\x7d" with
  | error refusal =>
      rw [analyzed] at known
      cases known
  | ok report =>
      rw [analyzed] at told known
      exact ⟨report, told, Option.some.inj known⟩

end Session

end QueryCost
