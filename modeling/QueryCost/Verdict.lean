/-
# QueryCost.Verdict -- judging request bodies

A body that is too long or holds no requests is one violation, and none of it is
analyzed.  Otherwise each query is analyzed on its own: the reports of those that
pass and the violations of those that do not are both kept in the order of the
body.  A violation blocks the request only if the settings say so.
-/
import QueryCost.Analysis.Report
import QueryCost.Config
import QueryCost.Refusal
import QueryCost.Request

namespace QueryCost

open QueryCost.Analysis

set_option autoImplicit false

structure Verdict where
  reports : List (Report Float)
  violations : List Violation
  blocked : Bool

namespace Verdict

def hasViolations (v : Verdict) : Bool :=
  !v.violations.isEmpty

/-- The response to answer with, if there is any violation. -/
def errorResponse? (v : Verdict) : Option Json :=
  if v.hasViolations then some (Violation.errorResponse v.violations) else none

end Verdict

namespace Config

def bodyTooLong (size limit : Nat) : Violation :=
  ⟨.invalidRequest,
    "Request body too large: " ++ Text.decimal size ++ " bytes (max: " ++ Text.decimal limit ++ ")",
    none⟩

/-- Reports and violations become a verdict under the settings. -/
def conclude (s : Settings) (reports : List (Report Float)) (violations : List Violation) :
    Verdict :=
  ⟨reports, violations, !violations.isEmpty && s.enforcement = .block⟩

def analyze (c : Config) (query : String) : Except Refusal (Report Float) :=
  analyzeText c.rules query

/-- The results of those that pass. -/
def passed (answers : List (Except Refusal (Report Float))) : List (Report Float) :=
  answers.filterMap fun
    | .ok report => some report
    | .error _ => none

/-- The violations of those that are refused. -/
def refused (answers : List (Except Refusal (Report Float))) : List Violation :=
  answers.filterMap fun
    | .ok _ => none
    | .error refusal => some refusal.toViolation

/-- Judge a body. -/
def judge (c : Config) (body : ByteArray) : Verdict :=
  if c.settings.maxBodySize < body.size then
    conclude c.settings [] [bodyTooLong body.size c.settings.maxBodySize]
  else
    match Request.ofBody body with
    | .error fault => conclude c.settings [] [⟨.invalidRequest, fault.message, none⟩]
    | .ok requests =>
        let answers := requests.map fun r => c.analyze r.query
        conclude c.settings (passed answers) (refused answers)

end Config

end QueryCost
