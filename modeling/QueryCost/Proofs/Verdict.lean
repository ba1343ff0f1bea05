/-
# QueryCost.Proofs.Verdict -- what a verdict says of a body

Whichever way a body is judged, its reports and violations are found first and then
concluded under the settings, so that whether the request is blocked is decided in
one place (`judge_eq_conclude`).  What is found does not depend on the enforcement,
and on the ceiling for the size only as far as the body passes it.

The answers to the queries of a batch are sifted: one after the other, each goes
either to the reports or to the violations, as it would alone, and nothing goes
elsewhere.
-/
import QueryCost.Proofs.Json.Record
import QueryCost.Verdict

namespace QueryCost

open QueryCost.Analysis

set_option autoImplicit false

/-! ## Sifting answers -/

/-- Each answer, in order, is kept as a report or told as a violation. -/
inductive Sifted : List (Except Refusal (Report Float)) → List (Report Float) →
    List Violation → Prop
  | done : Sifted [] [] []
  | passed {answers reports violations} (r : Report Float)
      (rest : Sifted answers reports violations) :
      Sifted (.ok r :: answers) (r :: reports) violations
  | refused {answers reports violations} (e : Refusal)
      (rest : Sifted answers reports violations) :
      Sifted (.error e :: answers) reports (e.toViolation :: violations)

theorem sifted_passed_refused (answers : List (Except Refusal (Report Float))) :
    Sifted answers (Config.passed answers) (Config.refused answers) := by
  induction answers with
  | nil => exact .done
  | cons answer answers rest =>
      cases answer with
      | ok r => exact .passed r rest
      | error e => exact .refused e rest

theorem Sifted.length_add {answers : List (Except Refusal (Report Float))}
    {reports : List (Report Float)} {violations : List Violation}
    (sifted : Sifted answers reports violations) :
    reports.length + violations.length = answers.length := by
  induction sifted with
  | done => rfl
  | passed r rest total =>
      rw [List.length_cons, List.length_cons]
      omega
  | refused e rest total =>
      rw [List.length_cons, List.length_cons]
      omega

/-! ## Batches with a bad element -/

namespace Request

theorem ofBody_of_bad_element {body : ByteArray} {items : List Json.Written}
    {item : Json.Written} {rest : List Json.Token}
    (read : Json.Written.read? (some nestingCeiling)
      (Json.Token.scan (Text.Utf8.characters body)) = some (.array items, rest))
    (notSingle : ofWritten? (.array items) = none)
    (among : item ∈ items) (bad : ofWritten? item = none) :
    ∃ fault, ofBody body = .error fault := by
  have none : ofValue? (.array items) = none := by
    simp only [ofValue?, notSingle]
    exact Json.Written.mapM_eq_none_of_mem among bad
  unfold ofBody
  rw [read]
  simp only [none]
  split
  · exact ⟨.notJson, rfl⟩
  · exact ⟨.noShape, rfl⟩

end Request

/-! ## Judging -/

namespace Config

/-- The reports and violations of a body, before the settings are asked. -/
def findings (c : Config) (body : ByteArray) : List (Report Float) × List Violation :=
  if c.settings.maxBodySize < body.size then
    ([], [bodyTooLong body.size c.settings.maxBodySize])
  else
    match Request.ofBody body with
    | .error fault => ([], [⟨.invalidRequest, fault.message, none⟩])
    | .ok requests =>
        let answers := requests.map fun r => c.analyze r.query
        (passed answers, refused answers)

theorem judge_eq_conclude (c : Config) (body : ByteArray) :
    c.judge body = conclude c.settings (c.findings body).1 (c.findings body).2 := by
  unfold judge findings
  by_cases long : c.settings.maxBodySize < body.size
  · rw [if_pos long, if_pos long]
  · rw [if_neg long, if_neg long]
    cases Request.ofBody body with
    | error fault => rfl
    | ok requests => rfl

theorem findings_of_rejected {c : Config} {body : ByteArray}
    (rejected : c.settings.maxBodySize < body.size ∨
      ∃ fault, Request.ofBody body = .error fault) :
    ∃ message, c.findings body = ([], [⟨.invalidRequest, message, none⟩]) := by
  unfold findings
  by_cases long : c.settings.maxBodySize < body.size
  · rw [if_pos long]
    exact ⟨_, rfl⟩
  · rw [if_neg long]
    obtain ⟨fault, unread⟩ := rejected.resolve_left long
    rw [unread]
    exact ⟨fault.message, rfl⟩

theorem findings_of_requests {c : Config} {body : ByteArray} {requests : List Request}
    (fits : body.size ≤ c.settings.maxBodySize) (read : Request.ofBody body = .ok requests) :
    Sifted (requests.map fun r => c.analyze r.query) (c.findings body).1
      (c.findings body).2 := by
  unfold findings
  rw [if_neg (Nat.not_lt.2 fits), read]
  exact sifted_passed_refused _

theorem mem_refused_iff {v : Violation} {answers : List (Except Refusal (Report Float))} :
    v ∈ refused answers ↔ ∃ refusal, .error refusal ∈ answers ∧ refusal.toViolation = v := by
  unfold refused
  rw [List.mem_filterMap]
  constructor
  · rintro ⟨_ | _, among, told⟩
    · exact ⟨_, among, Option.some.inj told⟩
    · cases told
  · rintro ⟨refusal, among, told⟩
    exact ⟨_, among, congrArg some told⟩

theorem mem_violations_iff {c : Config} {body : ByteArray} {v : Violation}
    {requests : List Request} (fits : body.size ≤ c.settings.maxBodySize)
    (read : Request.ofBody body = .ok requests) :
    v ∈ (c.judge body).violations ↔
      ∃ r ∈ requests, ∃ refusal, c.analyze r.query = .error refusal ∧ refusal.toViolation = v := by
  have found : (c.judge body).violations = refused (requests.map fun r => c.analyze r.query) := by
    rw [judge_eq_conclude, findings, if_neg (Nat.not_lt.2 fits), read]
    rfl
  rw [found, mem_refused_iff]
  simp only [List.mem_map]
  constructor
  · rintro ⟨refusal, ⟨r, among, refused⟩, told⟩
    exact ⟨r, among, refusal, refused, told⟩
  · rintro ⟨r, among, refusal, refused, told⟩
    exact ⟨refusal, ⟨r, among, refused⟩, told⟩

theorem blocked_iff (c : Config) (body : ByteArray) :
    (c.judge body).blocked = true ↔
      (c.judge body).violations ≠ [] ∧ c.settings.enforcement = .block := by
  rw [judge_eq_conclude]
  simp [conclude]

theorem errorResponse?_isSome_iff (v : Verdict) :
    v.errorResponse?.isSome = true ↔ v.violations ≠ [] := by
  unfold Verdict.errorResponse? Verdict.hasViolations
  cases v.violations <;> simp

theorem errorResponse?_of_violations {v : Verdict} (some : v.violations ≠ []) :
    v.errorResponse? = .some (Violation.errorResponse v.violations) := by
  rw [Verdict.errorResponse?, Verdict.hasViolations, if_pos (by simpa using some)]

/-- The same configuration with other settings. -/
def withSettings (c : Config) (s : Settings) : Config :=
  { c with settings := s }

theorem findings_withSettings {c : Config} {body : ByteArray} {s : Settings}
    (same : s.maxBodySize = c.settings.maxBodySize ∨
      body.size ≤ s.maxBodySize ∧ body.size ≤ c.settings.maxBodySize) :
    (c.withSettings s).findings body = c.findings body := by
  have analyzed : (c.withSettings s).analyze = c.analyze := rfl
  have limit : (c.withSettings s).settings.maxBodySize = s.maxBodySize := rfl
  unfold findings
  rw [analyzed, limit]
  rcases same with equal | ⟨fits, fits'⟩
  · rw [equal]
  · rw [if_neg (Nat.not_lt.2 fits), if_neg (Nat.not_lt.2 fits')]

/-- **What a verdict says.**  A rejected body is one violation; otherwise every query
is answered on its own and in place.  The enforcement decides whether the request is
blocked and nothing else, and the ceiling on the size says nothing of bodies below it. -/
theorem judge_sifts_answers (c : Config) (body : ByteArray) :
    ((c.settings.maxBodySize < body.size ∨ ∃ fault, Request.ofBody body = .error fault) →
      (c.judge body).reports = [] ∧
        ∃ message, (c.judge body).violations = [⟨.invalidRequest, message, none⟩]) ∧
    (∀ items item rest,
      Json.Written.read? (some Request.nestingCeiling)
          (Json.Token.scan (Text.Utf8.characters body)) = some (.array items, rest) →
        Request.ofWritten? (.array items) = none →
        item ∈ items → Request.ofWritten? item = none →
        ∃ fault, Request.ofBody body = .error fault) ∧
    (∀ requests, body.size ≤ c.settings.maxBodySize → Request.ofBody body = .ok requests →
      Sifted (requests.map fun r => c.analyze r.query) (c.judge body).reports
          (c.judge body).violations ∧
        (c.judge body).reports.length + (c.judge body).violations.length =
          requests.length) ∧
    ((c.judge body).blocked = true ↔
      (c.judge body).violations ≠ [] ∧ c.settings.enforcement = .block) ∧
    ((c.judge body).errorResponse?.isSome = true ↔ (c.judge body).violations ≠ []) ∧
    (∀ enforcement : Enforcement,
      (c.withSettings ⟨c.settings.maxBodySize, enforcement⟩).judge body =
        { c.judge body with
          blocked := !(c.judge body).violations.isEmpty && enforcement = .block }) ∧
    ∀ size size', body.size ≤ size → body.size ≤ size' →
      (c.withSettings ⟨size, c.settings.enforcement⟩).judge body =
        (c.withSettings ⟨size', c.settings.enforcement⟩).judge body := by
  refine ⟨?_, ?_, ?_, blocked_iff c body, errorResponse?_isSome_iff _, ?_, ?_⟩
  · intro rejected
    obtain ⟨message, found⟩ := findings_of_rejected rejected
    rw [judge_eq_conclude, found]
    exact ⟨rfl, message, rfl⟩
  · intro items item rest read notSingle among bad
    exact Request.ofBody_of_bad_element read notSingle among bad
  · intro requests fits read
    have sifted := findings_of_requests fits read
    rw [judge_eq_conclude]
    refine ⟨sifted, ?_⟩
    have total := sifted.length_add
    rw [List.length_map] at total
    exact total
  · intro enforcement
    have found : (c.withSettings ⟨c.settings.maxBodySize, enforcement⟩).findings body =
        c.findings body := findings_withSettings (.inl rfl)
    rw [judge_eq_conclude, judge_eq_conclude, found]
    rfl
  · intro size size' fits fits'
    rw [judge_eq_conclude, judge_eq_conclude]
    have found : (c.withSettings ⟨size, c.settings.enforcement⟩).findings body =
        (c.withSettings ⟨size', c.settings.enforcement⟩).findings body :=
      findings_withSettings (c := c.withSettings ⟨size', c.settings.enforcement⟩)
        (.inr ⟨fits, fits'⟩)
    rw [found]
    rfl

end Config

end QueryCost
