/-
# QueryCost.Proofs.Request.Batch -- single requests joined to one batch

Bodies that are objects can be joined with commas in brackets.  The joined body is the
text of the array of those objects (`isBody_joined`), so it holds the requests of the
single bodies, in their order (`ofBody_joined`): an array of objects is never mistaken
for one request.  Since every query is analyzed on its own, the verdict on the joined
body is put together from the verdicts on the single ones
(`judge_joined_eq_concatenation`), as long as the joined body is not too long.
-/
import QueryCost.Proofs.Request.RoundTrip
import QueryCost.Proofs.Verdict

namespace QueryCost

open QueryCost.Analysis
open QueryCost.Json (Written Token TokenText)

set_option autoImplicit false

/-! ## Joining bodies -/

namespace Request

/-- Further bodies, each behind a comma, and the closing bracket. -/
def joinedBehind : List ByteArray → ByteArray
  | [] => "]".toUTF8
  | body :: rest => ",".toUTF8 ++ (body ++ joinedBehind rest)

/-- Bodies in brackets, with commas between them. -/
def joined : List ByteArray → ByteArray
  | [] => "[]".toUTF8
  | body :: rest => "[".toUTF8 ++ (body ++ joinedBehind rest)

theorem size_le_joinedBehind {bodies : List ByteArray} {body : ByteArray}
    (among : body ∈ bodies) : body.size ≤ (joinedBehind bodies).size := by
  induction bodies with
  | nil => cases among
  | cons first rest ih =>
      rw [joinedBehind, ByteArray.size_append, ByteArray.size_append]
      rcases List.mem_cons.1 among with rfl | among
      · omega
      · have := ih among
        omega

theorem size_le_joined {bodies : List ByteArray} {body : ByteArray} (among : body ∈ bodies) :
    body.size ≤ (joined bodies).size := by
  cases bodies with
  | nil => cases among
  | cons first rest =>
      rw [joined, ByteArray.size_append, ByteArray.size_append]
      rcases List.mem_cons.1 among with rfl | among
      · omega
      · have := size_le_joinedBehind among
        omega

/-! ## The text of the joined body -/

theorem text_joinedBehind {limit : Nat} {bodies : List ByteArray} {ws : List Written}
    (each : List.Forall₂ (Written.IsBody limit) bodies ws) :
    ∃ cs, joinedBehind bodies = cs.utf8Encode ∧
      TokenText (Written.moreItems ws ++ [.bracketRight]) cs := by
  induction each with
  | nil => exact ⟨[']'], rfl, .single .bracketRight⟩
  | cons body _ ih =>
      obtain ⟨ds, rfl, text⟩ := body.text
      obtain ⟨es, same, texts⟩ := ih
      refine ⟨[','] ++ (ds ++ es), ?_, ?_⟩
      · rw [joinedBehind, same, List.utf8Encode_append, List.utf8Encode_append]
        rfl
      · rw [Written.moreItems, List.cons_append, List.append_assoc]
        exact (TokenText.single .comma).append (text.append texts)

theorem itemsNesting_le {limit : Nat} {bodies : List ByteArray} {ws : List Written}
    (each : List.Forall₂ (Written.IsBody limit) bodies ws) :
    Written.itemsNesting ws ≤ limit := by
  induction each with
  | nil => exact Nat.zero_le limit
  | cons body _ ih => exact Nat.max_le.2 ⟨body.nesting, ih⟩

/-- Joined bodies are the text of the array of their values. -/
theorem isBody_joined {limit : Nat} {bodies : List ByteArray} {ws : List Written}
    (nonempty : bodies ≠ []) (each : List.Forall₂ (Written.IsBody limit) bodies ws) :
    (Written.array ws).IsBody (limit + 1) (joined bodies) := by
  have nesting : (Written.array ws).nesting ≤ limit + 1 :=
    Nat.succ_le_succ (itemsNesting_le each)
  refine ⟨?_, nesting, Written.inRange_array_of_forall₂ (fun _ _ body => body.inRange) each⟩
  cases each with
  | nil => exact absurd rfl nonempty
  | cons body rest =>
      obtain ⟨ds, rfl, text⟩ := body.text
      obtain ⟨es, same, texts⟩ := text_joinedBehind rest
      refine ⟨['['] ++ (ds ++ es), ?_, ?_⟩
      · rw [joined, same, List.utf8Encode_append, List.utf8Encode_append]
        rfl
      · exact (TokenText.single .bracketLeft).append (text.append texts)

/-! ## The requests of the joined body -/

/-- A body that is an object and holds requests holds one. -/
theorem exists_request_of_object {body : ByteArray} {members : List (Option String × Written)}
    {requests : List Request} (isBody : (Written.object members).IsBody nestingCeiling body)
    (found : ofBody body = .ok requests) :
    ∃ r, requests = [r] ∧ IsObject (.object members) r := by
  obtain ⟨w, isBody', shape⟩ := ofBody_eq_ok_iff_shape.1 found
  obtain rfl := isBody.unique isBody'
  cases shape with
  | single request =>
      rcases request with object | listed
      · exact ⟨_, rfl, object⟩
      · cases listed

/-- Bodies that are objects hold one request each, and joined they hold all of them. -/
theorem ofBody_joined {bodies : List ByteArray} (nonempty : bodies ≠ [])
    (objects : ∀ body ∈ bodies, ∃ members, (Written.object members).IsBody 126 body)
    (accepted : ∀ body ∈ bodies, ∃ requests, ofBody body = .ok requests) :
    ∃ requests, ofBody (joined bodies) = .ok requests ∧
      List.Forall₂ (fun body r => ofBody body = .ok [r]) bodies requests := by
  have each : ∃ ws requests, List.Forall₂ (Written.IsBody 126) bodies ws ∧
      List.Forall₂ IsObject ws requests ∧
      List.Forall₂ (fun body r => ofBody body = .ok [r]) bodies requests := by
    clear nonempty
    induction bodies with
    | nil => exact ⟨[], [], .nil, .nil, .nil⟩
    | cons body bodies ih =>
        obtain ⟨ws, rs, isBodies, areObjects, found⟩ :=
          ih (fun b among => objects b (List.mem_cons_of_mem body among))
            (fun b among => accepted b (List.mem_cons_of_mem body among))
        obtain ⟨members, isBody⟩ := objects body List.mem_cons_self
        obtain ⟨requests, read⟩ := accepted body List.mem_cons_self
        obtain ⟨r, rfl, object⟩ :=
          exists_request_of_object (isBody.mono (by decide)) read
        exact ⟨_, _, .cons isBody isBodies, .cons object areObjects, .cons read found⟩
  obtain ⟨ws, requests, isBodies, areObjects, found⟩ := each
  refine ⟨requests, ofBody_eq_ok_iff_shape.2 ⟨_, isBody_joined nonempty isBodies, ?_⟩, found⟩
  refine .batch (fun empty => ?_) (areObjects.imp fun _ _ object => .inl object)
  subst empty
  cases isBodies
  exact nonempty rfl

end Request

/-! ## The verdict on the joined body -/

namespace Config

theorem findings_eq_of_requests {c : Config} {body : ByteArray} {requests : List Request}
    (fits : body.size ≤ c.settings.maxBodySize) (read : Request.ofBody body = .ok requests) :
    c.findings body = (passed (requests.map fun r => c.analyze r.query),
      refused (requests.map fun r => c.analyze r.query)) := by
  unfold findings
  rw [if_neg (Nat.not_lt.2 fits), read]

/-- What is found in single requests, one body after the other, is what their answers give. -/
theorem flatMap_findings {c : Config} {bodies : List ByteArray} {requests : List Request}
    (fit : ∀ body ∈ bodies, body.size ≤ c.settings.maxBodySize)
    (each : List.Forall₂ (fun body r => Request.ofBody body = .ok [r]) bodies requests) :
    bodies.flatMap (fun body => (c.findings body).1) =
        passed (requests.map fun r => c.analyze r.query) ∧
      bodies.flatMap (fun body => (c.findings body).2) =
        refused (requests.map fun r => c.analyze r.query) := by
  induction each with
  | nil => exact ⟨rfl, rfl⟩
  | @cons body r bodies requests read _ ih =>
      obtain ⟨reports, violations⟩ := ih fun b among => fit b (List.mem_cons_of_mem body among)
      have found := findings_eq_of_requests (fit body List.mem_cons_self) read
      rw [List.flatMap_cons, List.flatMap_cons, reports, violations, found]
      unfold passed refused
      rw [← List.filterMap_append, ← List.filterMap_append]
      exact ⟨rfl, rfl⟩

/-- **Joining requests to a batch.**  The reports and the violations of the batch are those of
its requests, one request after the other, and the batch is blocked if one of them is. -/
theorem judge_joined_eq_concatenation (c : Config) {bodies : List ByteArray}
    (nonempty : bodies ≠ [])
    (objects : ∀ body ∈ bodies, ∃ members, (Written.object members).IsBody 126 body)
    (accepted : ∀ body ∈ bodies, ∃ requests, Request.ofBody body = .ok requests)
    (fits : (Request.joined bodies).size ≤ c.settings.maxBodySize) :
    (c.judge (Request.joined bodies)).reports =
        bodies.flatMap (fun body => (c.judge body).reports) ∧
      (c.judge (Request.joined bodies)).violations =
        bodies.flatMap (fun body => (c.judge body).violations) ∧
      ((c.judge (Request.joined bodies)).blocked = true ↔
        ∃ body ∈ bodies, (c.judge body).blocked = true) := by
  obtain ⟨requests, read, each⟩ := Request.ofBody_joined nonempty objects accepted
  obtain ⟨reports, violations⟩ := flatMap_findings (c := c)
    (fun body among => Nat.le_trans (Request.size_le_joined among) fits) each
  have found := findings_eq_of_requests fits read
  have sameReports : (c.judge (Request.joined bodies)).reports =
      bodies.flatMap (fun body => (c.judge body).reports) := by
    simp only [judge_eq_conclude, conclude, found, reports]
  have sameViolations : (c.judge (Request.joined bodies)).violations =
      bodies.flatMap (fun body => (c.judge body).violations) := by
    simp only [judge_eq_conclude, conclude, found, violations]
  refine ⟨sameReports, sameViolations, ?_⟩
  rw [blocked_iff, sameViolations, Ne, List.flatMap_eq_nil_iff]
  simp only [blocked_iff]
  constructor
  · rintro ⟨some, block⟩
    push Not at some
    obtain ⟨body, among, notNone⟩ := some
    exact ⟨body, among, notNone, block⟩
  · rintro ⟨body, among, notNone, block⟩
    exact ⟨fun none => notNone (none body among), block⟩

/-- A query joined with one that is no query at all: one report, one violation, and blocked. -/
theorem judge_joined_two_queries :
    let query := (Request.queryText "\x7ba\x7d").utf8Encode
    let empty := (Request.queryText "").utf8Encode
    let verdict := default.judge (Request.joined [query, empty])
    verdict.reports = (default.judge query).reports ++ (default.judge empty).reports ∧
      verdict.violations = (default.judge query).violations ++ (default.judge empty).violations ∧
      verdict.reports.map (·.cost) = [1.0] ∧
      verdict.violations.map (·.code) = [.parseError] ∧
      verdict.blocked = true := by
  intro query empty verdict
  have objects (text : String) :
      ∃ members, (Written.object members).IsBody 126 (Request.queryText text).utf8Encode :=
    ⟨_, Request.isBody_queryText text (by decide)⟩
  have accepted (text : String) :
      ∃ requests, Request.ofBody (Request.queryText text).utf8Encode = .ok requests :=
    ⟨_, Request.ofBody_queryText text⟩
  obtain ⟨reports, violations, blocked⟩ := judge_joined_eq_concatenation default
    (List.cons_ne_nil query [empty])
    (List.forall_mem_cons.2 ⟨objects _, List.forall_mem_singleton.2 (objects _)⟩)
    (List.forall_mem_cons.2 ⟨accepted _, List.forall_mem_singleton.2 (accepted _)⟩)
    (by decide)
  rw [List.flatMap_cons, List.flatMap_singleton] at reports violations
  -- The two bodies are judged on their own, and what is found in them is only put together.
  have ofQuery : (default.judge query).reports.map (·.cost) = [1.0] ∧
      (default.judge query).violations.map (·.code) = [] := by
    decide +kernel
  have ofEmpty : (default.judge empty).reports.map (·.cost) = [] ∧
      (default.judge empty).violations.map (·.code) = [.parseError] ∧
      (default.judge empty).blocked = true := by
    decide +kernel
  refine ⟨reports, violations, ?_, ?_, blocked.2 ⟨empty, by simp, ofEmpty.2.2⟩⟩
  · show (default.judge (Request.joined [query, empty])).reports.map (·.cost) = [1.0]
    rw [reports, List.map_append, ofQuery.1, ofEmpty.1, List.append_nil]
  · show (default.judge (Request.joined [query, empty])).violations.map (·.code) = [.parseError]
    rw [violations, List.map_append, ofQuery.2, ofEmpty.2.1, List.nil_append]

end Config

end QueryCost
