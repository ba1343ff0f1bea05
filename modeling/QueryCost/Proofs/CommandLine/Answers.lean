/-
# QueryCost.Proofs.CommandLine.Answers -- one query, given as text or in a body

A query is answered as it stands, or wrapped in a request body that holds nothing else.
The two answers are worked out apart: the plain one by a single analysis, the other by
reading the body, judging a batch and concluding under the settings.  They say the same
(`answer_body_agrees_with_query`): whatever the query is, even if it is no document, its
body holds just that query (`ofBody_of_text`), so the batch has one answer, and that is
the plain one.

A plain query that is refused always blocks, a body only if the settings say so; under
settings that block there is no difference left.
-/
import QueryCost.CommandLine.Run
import QueryCost.Proofs.Request.Batch

namespace QueryCost

open QueryCost.Json (Written Token TokenText IsBlanks)

set_option autoImplicit false

/-! ## The body that holds a query -/

namespace Request

/-- A text of the object whose only member is the query. -/
def IsQueryText (query text : String) : Prop :=
  (Written.object [(some "query", .string (some query))]).Text text.toList

/-- The query as the writer quotes it, with or without blanks behind the colon. -/
theorem isQueryText_quote (query : String) {blanks : String} (blank : IsBlanks blanks.toList) :
    IsQueryText query ("\x7b\"query\":" ++ blanks ++ Json.quote query ++ "\x7d") := by
  have member := (TokenText.single .colon).append ((Json.text_quote query).blank_append blank)
  have whole := (TokenText.single .braceLeft).append ((Json.text_quote "query").append
    (member.append (.single .braceRight)))
  simp only [IsQueryText, String.toList_append, List.append_assoc] at whole ⊢
  exact whole

/-- However it is written, it holds that query and nothing else. -/
theorem ofBody_of_text {query text : String} (written : IsQueryText query text) :
    ofBody text.toUTF8 = .ok [⟨query, none, none⟩] := by
  have writes := writesRequest_query query
  have isBody : (Written.object [(some "query", .string (some query))]).IsBody nestingCeiling
      text.toUTF8 :=
    ⟨⟨text.toList, String.utf8Encode_toList.symm, written⟩, (by decide : 1 ≤ 127), writes.inRange⟩
  exact ofBody_eq_ok_iff_shape.2 ⟨_, isBody, .single (.inl writes.isObject)⟩

end Request

namespace CommandLine

open QueryCost.Config

/-! ## Answers -/

theorem findings_of_query {c : Config} {query text : String}
    (written : Request.IsQueryText query text)
    (fits : text.toUTF8.size ≤ c.settings.maxBodySize) :
    c.findings text.toUTF8 = (passed [c.analyze query], refused [c.analyze query]) :=
  findings_eq_of_requests fits (Request.ofBody_of_text written)

theorem answerRequest_of_query {c : Config} {query text : String}
    (block : c.settings.enforcement = .block) (written : Request.IsQueryText query text)
    (fits : text.toUTF8.size ≤ c.settings.maxBodySize) :
    answerRequest c text.toUTF8 =
      match c.analyze query with
      | .ok report => (.array [report.toJson], false)
      | .error refusal => (Violation.errorResponse [refusal.toViolation], true) := by
  rw [answerRequest, judge_eq_conclude, findings_of_query written fits]
  cases c.analyze query with
  | ok report => rfl
  | error refusal =>
      simp [passed, refused, conclude, Verdict.errorResponse?, Verdict.hasViolations, block]

/-- **A query and its body are answered alike.**  Under settings that block, a body that holds a
query, as the writer quotes it or otherwise spelled, is blocked if the query is.  What is printed
then is the same response; otherwise the list of the one report that is printed for the query. -/
theorem answer_body_agrees_with_query {c : Config} (block : c.settings.enforcement = .block)
    (query : String) :
    (∀ blanks : String, IsBlanks blanks.toList → Request.IsQueryText query
      ("\x7b\"query\":" ++ blanks ++ Json.quote query ++ "\x7d")) ∧
    ∀ text, Request.IsQueryText query text → text.toUTF8.size ≤ c.settings.maxBodySize →
      (answer c true text).2 = (answer c false query).2 ∧
      ((answer c false query).2 = true → (answer c true text).1 = (answer c false query).1) ∧
      ((answer c false query).2 = false →
        (answer c true text).1 = .array [(answer c false query).1]) := by
  refine ⟨fun blanks blank => Request.isQueryText_quote query blank, fun text written fits => ?_⟩
  have request : answer c true text = answerRequest c text.toUTF8 := rfl
  have plain : answer c false query = answerQuery c query := rfl
  rw [request, plain, answerRequest_of_query block written fits, answerQuery]
  cases c.analyze query with
  | ok report => exact ⟨rfl, nofun, fun _ => rfl⟩
  | error refusal => exact ⟨rfl, fun _ => rfl, nofun⟩

/-- A query that passes, and a text that has to be escaped and is no query. -/
theorem answer_body_agrees_with_samples :
    (answer .default true "\x7b\"query\": \"\x7ba\x7d\"\x7d").1 =
        .array [(answer .default false "\x7ba\x7d").1] ∧
      (answer .default true "\x7b\"query\":\"\\n\"\x7d").1 =
        (answer .default false "\n").1 := by
  have blank : IsBlanks " ".toList := by simp [IsBlanks]
  have none : IsBlanks "".toList := by simp [IsBlanks]
  obtain ⟨quoted, agree⟩ := answer_body_agrees_with_query (c := .default) rfl "\x7ba\x7d"
  obtain ⟨escaped, alike⟩ := answer_body_agrees_with_query (c := .default) rfl "\n"
  constructor
  · exact (agree _ (quoted " " blank) (by decide +kernel)).2.2 (by decide +kernel)
  · exact (alike _ (escaped "" none) (by decide +kernel)).2.1 (by decide +kernel)

end CommandLine

end QueryCost
