/-
# QueryCost.Proofs.CommandLine.Blocking -- what is found in an input, and whether it blocks

A plain query is refused or not; a request body is no body of requests, or some of its
queries are refused (`Found`).  In both modes what is found is just what is printed as the
errors of a response (`answer_of_found`).

The settings say whether what is found blocks.  For a request body they decide; a plain
query that is refused blocks whatever they say.  So the two modes follow the settings
except for refused plain queries under settings that allow (`followsSettings_iff`), and
the exit code with them.
-/
import QueryCost.Proofs.CommandLine.Selection
import QueryCost.Proofs.Verdict

namespace QueryCost.CommandLine

set_option autoImplicit false

/-- A violation in an input that is a request body or a plain query. -/
inductive Found (c : Config) : Bool → String → Violation → Prop
  | query {input : String} {refusal : Refusal} (refused : c.analyze input = .error refusal) :
      Found c false input refusal.toViolation
  | bodyTooLong {input : String} (long : c.settings.maxBodySize < input.toUTF8.size) :
      Found c true input (Config.bodyTooLong input.toUTF8.size c.settings.maxBodySize)
  | noRequests {input : String} {fault : Request.Fault}
      (fits : input.toUTF8.size ≤ c.settings.maxBodySize)
      (unread : Request.ofBody input.toUTF8 = .error fault) :
      Found c true input ⟨.invalidRequest, fault.message, none⟩
  | inBody {input : String} {requests : List Request} {request : Request} {refusal : Refusal}
      (fits : input.toUTF8.size ≤ c.settings.maxBodySize)
      (read : Request.ofBody input.toUTF8 = .ok requests) (among : request ∈ requests)
      (refused : c.analyze request.query = .error refusal) :
      Found c true input refusal.toViolation

/-- The input is blocked if a violation is found in it and the settings block, and not otherwise. -/
def FollowsSettings (c : Config) (request : Bool) (input : String) : Prop :=
  (answer c request input).2 = true ↔
    (∃ v, Found c request input v) ∧ c.settings.enforcement = .block

/-! ## Violations -/

variable {c : Config} {request : Bool} {input : String}

theorem found_in_body_iff {v : Violation} :
    Found c true input v ↔ v ∈ (c.judge input.toUTF8).violations := by
  constructor
  · rintro (_ | long | ⟨fits, unread⟩ | ⟨fits, read, among, refused⟩)
    · rw [Config.judge_eq_conclude, Config.findings, if_pos long]
      exact List.mem_singleton_self _
    · rw [Config.judge_eq_conclude, Config.findings, if_neg (Nat.not_lt.2 fits), unread]
      exact List.mem_singleton_self _
    · exact (Config.mem_violations_iff fits read).2 ⟨_, among, _, refused, rfl⟩
  · intro told
    by_cases long : c.settings.maxBodySize < input.toUTF8.size
    · rw [Config.judge_eq_conclude, Config.findings, if_pos long] at told
      cases List.mem_singleton.1 told
      exact .bodyTooLong long
    · have fits := Nat.not_lt.1 long
      cases read : Request.ofBody input.toUTF8 with
      | error fault =>
          rw [Config.judge_eq_conclude, Config.findings, if_neg long, read] at told
          cases List.mem_singleton.1 told
          exact .noRequests fits read
      | ok requests =>
          obtain ⟨r, among, refusal, refused, rfl⟩ := (Config.mem_violations_iff fits read).1 told
          exact .inBody fits read among refused

/-- All that is found is printed, and it blocks a plain query whatever the settings are. -/
theorem exists_violations (c : Config) (request : Bool) (input : String) :
    ∃ violations, (∀ v, v ∈ violations ↔ Found c request input v) ∧
      ((answer c request input).2 = true ↔
        violations ≠ [] ∧ (c.settings.enforcement = .block ∨ request = false)) ∧
      (violations ≠ [] → (answer c request input).1 = Violation.errorResponse violations) := by
  cases request with
  | true =>
      have judged : answer c true input = answerRequest c input.toUTF8 := rfl
      refine ⟨(c.judge input.toUTF8).violations, fun v => found_in_body_iff.symm, ?_, ?_⟩
      · rw [judged, answerRequest, Config.blocked_iff, or_iff_left (by decide)]
      · intro some
        rw [judged, answerRequest, Config.errorResponse?_of_violations some, Option.getD_some]
  | false =>
      have plain : answer c false input = answerQuery c input := rfl
      rw [plain, answerQuery]
      cases analyzed : c.analyze input with
      | ok report =>
          refine ⟨[], fun v => ?_, by simp, fun some => absurd rfl some⟩
          constructor
          · nofun
          · rintro ⟨refused⟩
            cases analyzed.symm.trans refused
      | error refusal =>
          refine ⟨[refusal.toViolation], fun v => ?_, by simp, fun _ => rfl⟩
          rw [List.mem_singleton]
          constructor
          · rintro rfl
            exact .query analyzed
          · rintro ⟨refused⟩
            cases analyzed.symm.trans refused
            rfl

theorem blocked_iff_found :
    (answer c request input).2 = true ↔ (∃ v, Found c request input v) ∧
      (c.settings.enforcement = .block ∨ request = false) := by
  obtain ⟨violations, found, blocked, -⟩ := exists_violations c request input
  have some : violations ≠ [] ↔ ∃ v, v ∈ violations :=
    ⟨List.exists_mem_of_ne_nil _, fun ⟨_, told⟩ => List.ne_nil_of_mem told⟩
  rw [blocked, some]
  simp only [found]

theorem answer_of_found (some : ∃ v, Found c request input v) :
    ∃ violations, (∀ v, v ∈ violations ↔ Found c request input v) ∧
      (answer c request input).1 = Violation.errorResponse violations := by
  obtain ⟨violations, found, -, answered⟩ := exists_violations c request input
  obtain ⟨v, told⟩ := some
  exact ⟨violations, found, answered (List.ne_nil_of_mem ((found v).2 told))⟩

theorem followsSettings_iff :
    FollowsSettings c request input ↔
      ¬ (request = false ∧ c.settings.enforcement = .allow ∧ ∃ v, Found c request input v) := by
  rw [FollowsSettings, blocked_iff_found]
  cases request <;> cases c.settings.enforcement <;> simp

/-- **What blocks a run.**  Under any configuration that is loaded, an input is blocked exactly if
a violation is found in it and the settings block or it is a plain query.  So the settings are
followed but for a plain query with a violation under settings that allow.  What is found is
printed either way, and the exit code is one exactly if the input is blocked. -/
theorem run_blocks_on_found {arguments : List String} {o : Options} {e : Environment}
    (accepted : Invocation.ofArguments arguments = .analyze o) (loaded : loadConfig e o = .ok c) :
    (∀ request input,
      ((answer c request input).2 = true ↔ (∃ v, Found c request input v) ∧
        (c.settings.enforcement = .block ∨ request = false)) ∧
      (FollowsSettings c request input ↔
        ¬ (request = false ∧ c.settings.enforcement = .allow ∧ ∃ v, Found c request input v)) ∧
      ((∃ v, Found c request input v) →
        ∃ violations, (∀ v, v ∈ violations ↔ Found c request input v) ∧
          (answer c request input).1 = Violation.errorResponse violations)) ∧
    ∀ input, Selected arguments e input →
      (run e arguments).output = (answer c o.request input).1.pretty ++ "\n" ∧
      (run e arguments).exitCode = if (answer c o.request input).2 then 1 else 0 := by
  constructor
  · exact fun request input => ⟨blocked_iff_found, followsSettings_iff, answer_of_found⟩
  · intro input selected
    have read := (readInput_eq_ok_iff accepted).2 selected
    rw [run_eq_analyze accepted, analyze, loaded]
    dsimp only
    rw [read]
    exact ⟨rfl, rfl⟩

/-- A file that lets violations through. -/
def allowingEnvironment : Environment :=
  .ofFiles [("config.yaml", "settings:\n  fail_action: allow\n")] ""

/-- One level may be selected. -/
def shallowOptions (request : Bool) (input : String) : Options :=
  ⟨"config.yaml", some input, none, request, none, some 1⟩

def deepQuery : String :=
  "\x7ba\x7bb\x7d\x7d"

def deepBody : String :=
  "\x7b\"query\":\"\x7ba\x7bb\x7d\x7d\"\x7d"

def bodyArguments : List String :=
  ["--request", "--query", deepBody, "--max-depth", "1"]

def queryArguments : List String :=
  ["--query", deepQuery, "--max-depth", "1"]

/-- A query in a body that is too deep is let through. -/
theorem run_blocks_on_found_body :
    ∃ c, Invocation.ofArguments bodyArguments = .analyze (shallowOptions true deepBody) ∧
      loadConfig allowingEnvironment (shallowOptions true deepBody) = .ok c ∧
      (∃ v, Found c true deepBody v) ∧ (run allowingEnvironment bodyArguments).exitCode = 0 := by
  have accepted :
      Invocation.ofArguments bodyArguments = .analyze (shallowOptions true deepBody) := rfl
  have known : (loadConfig allowingEnvironment (shallowOptions true deepBody)).toOption.map
      (fun c => (c.settings.enforcement, (c.judge deepBody.toUTF8).violations.length)) =
        some (.allow, 1) := by decide +kernel
  obtain ⟨c, loaded, facts⟩ := exists_ok_of_map known
  obtain ⟨allow, one⟩ := Prod.mk.inj facts
  obtain ⟨v, told⟩ := List.exists_mem_of_length_pos (one ▸ Nat.one_pos)
  obtain ⟨law, runs⟩ := run_blocks_on_found accepted loaded
  have passes : (answer c true deepBody).2 = false := by
    rw [Bool.eq_false_iff, ne_eq, (law true deepBody).1, allow]
    simp
  refine ⟨c, accepted, loaded, ⟨v, found_in_body_iff.2 told⟩, ?_⟩
  rw [(runs deepBody (.query ((query_eq_some_iff accepted _).1 rfl))).2, shallowOptions, passes]
  rfl

/-- The same query as it stands is blocked under the same file. -/
theorem plain_query_blocked_under_allow :
    ∃ c, Invocation.ofArguments queryArguments = .analyze (shallowOptions false deepQuery) ∧
      loadConfig allowingEnvironment (shallowOptions false deepQuery) = .ok c ∧
      c.settings.enforcement = .allow ∧ (∃ v, Found c false deepQuery v) ∧
      ¬ FollowsSettings c false deepQuery ∧
      (run allowingEnvironment queryArguments).exitCode = 1 := by
  have known : (loadConfig allowingEnvironment (shallowOptions false deepQuery)).toOption.map
      (fun c => (c.settings.enforcement, (c.analyze deepQuery).isOk)) = some (.allow, false) := by
    decide +kernel
  obtain ⟨c, loaded, facts⟩ := exists_ok_of_map known
  obtain ⟨allow, refused⟩ := Prod.mk.inj facts
  cases analyzed : c.analyze deepQuery with
  | ok report =>
      rw [analyzed] at refused
      cases refused
  | error refusal =>
      have found : Found c false deepQuery refusal.toViolation := .query analyzed
      refine ⟨c, rfl, loaded, allow, ⟨_, found⟩, fun follows => ?_, by decide +kernel⟩
      exact followsSettings_iff.1 follows ⟨rfl, allow, _, found⟩

end QueryCost.CommandLine
