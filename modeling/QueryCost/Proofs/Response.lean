/-
# QueryCost.Proofs.Response -- what an error response tells

The response has an error for every violation, in their order, with its code and its
message (`Tells`).  What a violation carries besides depends on what it is of: a body or a
query that was not read carries no figures (`Bare`), and a ceiling that was passed stands
beside the greater value that was measured (`Measured`).

A depth is measured exactly.  Depths become doubles, but no query that was read is deeper
than `nestingLimit`, so one that passes a ceiling is one of few hundred numbers that
doubles tell apart.  A cost need not be a number: a total may be infinite under valid
rules.  It is then greater than every ceiling, and written as `null`.
-/
import QueryCost.Proofs.Analysis.Total
import QueryCost.Proofs.Double.Units
import QueryCost.Proofs.GraphQL.Nesting
import QueryCost.Proofs.Json.Numbers
import QueryCost.Proofs.Verdict

namespace QueryCost

open QueryCost.Analysis
open QueryCost.GraphQL
open QueryCost.Json (IsNumber isNumber_double_iff)

set_option autoImplicit false

/-! ## Looking into values -/

/-- The member of an object under a name. -/
def Json.member? (name : String) : Json → Option Json
  | .object members => members.lookup name
  | _ => none

/-- What stands at the end of a path of names. -/
def Json.at? : List String → Json → Option Json
  | [], j => some j
  | name :: path, j => (j.member? name).bind (at? path)

/-! ## Errors -/

/-- An error has the code and the message of a violation. -/
structure Tells (v : Violation) (e : Json) : Prop where
  code : e.at? ["extensions", "code"] = some (.string v.code.text)
  message : e.at? ["message"] = some (.string v.message)

/-- An error has no figures. -/
structure Bare (e : Json) : Prop where
  actual : e.at? ["extensions", "actual"] = none
  max : e.at? ["extensions", "max"] = none

/-- An error has a measured value and a ceiling, both as numbers, and the value is the greater. -/
structure Measured (actual max : Float) (e : Json) : Prop where
  hasActual : e.at? ["extensions", "actual"] = some (.double actual)
  actualIsNumber : IsNumber (.double actual)
  hasMax : e.at? ["extensions", "max"] = some (.double max)
  maxIsNumber : IsNumber (.double max)
  greater : max < actual

namespace Violation

theorem tells_toError (v : Violation) : Tells v v.toError := by
  obtain ⟨code, message, figures⟩ := v
  constructor
  · rcases figures with _ | ⟨_ | actual, max⟩ <;> rfl
  · rfl

theorem bare_toError {v : Violation} (none : v.figures = none) : Bare v.toError := by
  obtain ⟨code, message, figures⟩ := v
  subst none
  exact ⟨rfl, rfl⟩

theorem measured_toError {v : Violation} {actual max : Float}
    (figures : v.figures = some ⟨some actual, some max⟩) (finite : actual.isFinite = true)
    (finite' : max.isFinite = true) (greater : max < actual) :
    Measured actual max v.toError := by
  obtain ⟨code, message, _⟩ := v
  subst figures
  exact ⟨rfl, (isNumber_double_iff actual).2 finite, rfl, (isNumber_double_iff max).2 finite',
    greater⟩

end Violation

/-- The code that an error has. -/
def HasCode (e : Json) (code : Violation.Code) : Prop :=
  e.at? ["extensions", "code"] = some (.string code.text)

theorem hasCode_toError_iff (v : Violation) (code : Violation.Code) :
    HasCode v.toError code ↔ v.code = code := by
  rw [HasCode, v.tells_toError.code, Option.some.injEq, Json.string.injEq]
  cases v.code <;> cases code <;> decide

/-! ## Refusals -/

theorem analyzeText_eq_excess_iff {rules : Rules Float} {text : String} {e : Excess Float} :
    analyzeText rules text = .error (.excess e) ↔ ∃ d, Document.ofText text = .ok d ∧
      (Report.ofDocument rules.tariff d).heldTo rules.ceilings = .error e := by
  unfold analyzeText
  cases Document.ofText text with
  | error fault => simp
  | ok d =>
      simp only [← analyze_eq_heldTo, Except.ok.injEq, exists_eq_left']
      cases analyze rules d <;> simp

/-- What a refusal of a query is told as. -/
theorem refusal_cases {rules : Rules Float} {text : String} {refusal : Refusal}
    (refused : analyzeText rules text = .error refusal) :
    (refusal.toViolation.code = .parseError ∧ refusal.toViolation.figures = none) ∨
      (∃ n, refusal = .excess (.depth (n + 1) n) ∧ rules.ceilings.depth = some n ∧
        n < nestingLimit) ∨
      ∃ d limit, refusal = .excess (.cost (Report.ofDocument rules.tariff d).cost limit) ∧
        Document.ofText text = .ok d ∧ rules.ceilings.cost = some limit ∧
        (Report.ofDocument rules.tariff d).KeepsDepth rules.ceilings ∧
        limit < (Report.ofDocument rules.tariff d).cost := by
  cases refusal with
  | unreadable diagnostics => exact .inl ⟨rfl, rfl⟩
  | excess e =>
      right
      obtain ⟨d, read, held⟩ := analyzeText_eq_excess_iff.1 refused
      cases e with
      | depth reached limit =>
          obtain ⟨set, passed, rfl⟩ := (heldTo_eq_depth_iff _ _ _ _).1 held
          have height := Document.documentHeight_le_nestingLimit read
          exact .inl ⟨limit, rfl, set, Nat.lt_of_lt_of_le passed height⟩
      | cost reached limit =>
          obtain ⟨keeps, set, passed, rfl⟩ := (heldTo_eq_cost_iff _ _ _ _).1 held
          exact .inr ⟨d, limit, rfl, read, set, keeps, passed⟩

/-! ## Violations of a body -/

namespace Config

variable {c : Config} {body : ByteArray} {v : Violation}

/-- A violation is of the body, or of one of the queries in it. -/
theorem violation_cases (told : v ∈ (c.judge body).violations) :
    (v.code = .invalidRequest ∧ v.figures = none) ∨
      ∃ requests, body.size ≤ c.settings.maxBodySize ∧ Request.ofBody body = .ok requests ∧
        ∃ r ∈ requests, ∃ refusal, c.analyze r.query = .error refusal ∧
          refusal.toViolation = v := by
  by_cases rejected : c.settings.maxBodySize < body.size ∨
      ∃ fault, Request.ofBody body = .error fault
  · obtain ⟨message, found⟩ := findings_of_rejected rejected
    rw [judge_eq_conclude, found] at told
    have only : v = ⟨.invalidRequest, message, none⟩ := List.mem_singleton.1 told
    exact .inl ⟨congrArg (·.code) only, congrArg (·.figures) only⟩
  · obtain ⟨fits, readable⟩ := not_or.1 rejected
    cases read : Request.ofBody body with
    | error fault => exact absurd ⟨fault, read⟩ readable
    | ok requests =>
        exact .inr ⟨requests, Nat.not_lt.1 fits, rfl,
          (mem_violations_iff (Nat.not_lt.1 fits) read).1 told⟩

/-- A query in the body is refused for its total, and the total is infinite. -/
def Overflows (c : Config) (body : ByteArray) : Prop :=
  body.size ≤ c.settings.maxBodySize ∧ c.rules.ceilings.cost.isSome ∧
    ∃ requests, Request.ofBody body = .ok requests ∧ ∃ r ∈ requests, ∃ d,
      Document.ofText r.query = .ok d ∧
        (Report.ofDocument c.rules.tariff d).KeepsDepth c.rules.ceilings ∧
        (Report.ofDocument c.rules.tariff d).cost.isInf = true

end Config

/-- What a violation is of: something that was not read, a depth that passes its ceiling, or a cost
that does. -/
theorem violation_kinds {c : Config} {body : ByteArray} {v : Violation}
    (told : v ∈ (c.judge body).violations) :
    ((v.code = .parseError ∨ v.code = .invalidRequest) ∧ v.figures = none) ∨
      (∃ n, v = (Excess.depth (n + 1) n).toViolation ∧ c.rules.ceilings.depth = some n ∧
        n < nestingLimit) ∨
      ∃ d limit, v = (Excess.cost (Report.ofDocument c.rules.tariff d).cost limit).toViolation ∧
        c.rules.ceilings.cost = some limit ∧ limit < (Report.ofDocument c.rules.tariff d).cost ∧
        ((Report.ofDocument c.rules.tariff d).cost.isInf = true → c.Overflows body) := by
  rcases Config.violation_cases told with ⟨code, figures⟩ |
    ⟨requests, fits, read, r, among, refusal, refused, rfl⟩
  · exact .inl ⟨.inr code, figures⟩
  · rcases refusal_cases refused with ⟨code, figures⟩ | ⟨n, rfl, set, small⟩ |
      ⟨d, limit, rfl, document, set, keeps, passed⟩
    · exact .inl ⟨.inl code, figures⟩
    · exact .inr (.inl ⟨n, rfl, set, small⟩)
    · have given : c.rules.ceilings.cost.isSome := by rw [set]; rfl
      exact .inr (.inr ⟨d, limit, rfl, set, passed, fun infinite =>
        ⟨fits, given, requests, read, r, among, d, document, keeps, infinite⟩⟩)

/-! ## Figures -/

section Figures

variable {c : Config} (valid : c.problem? = none)

include valid

theorem rulesProblem?_eq_none : Config.rulesProblem? c.rules = none := by
  unfold Config.problem? at valid
  split at valid
  · cases valid
  · exact valid

theorem amount_ceiling {limit : Float} (set : c.rules.ceilings.cost = some limit) :
    Amount limit := by
  have member : (.costCeiling, limit) ∈ Config.amounts c.rules := by simp [Config.amounts, set]
  exact amount_of_mem (rulesProblem?_eq_none valid) member

/-- A total that is a number is at least zero. -/
theorem zero_le_total {d : Document}
    (number : (Report.ofDocument c.rules.tariff d).cost.isNaN = false) :
    0.0 ≤ (Report.ofDocument c.rules.tariff d).cost := by
  rcases total_cases (rulesProblem?_eq_none valid) d with ⟨-, nonneg⟩ | ⟨-, none⟩
  · exact nonneg
  · rw [none] at number
    cases number

/-- An infinite total is greater than the ceiling. -/
theorem lt_of_total_isInf {d : Document} {limit : Float}
    (set : c.rules.ceilings.cost = some limit)
    (infinite : (Report.ofDocument c.rules.tariff d).cost.isInf = true) :
    limit < (Report.ofDocument c.rules.tariff d).cost := by
  have amount := amount_ceiling valid set
  obtain ⟨s, infinity⟩ := (Double.isInf_iff _).1 infinite
  have number : (Report.ofDocument c.rules.tariff d).cost.isNaN = false := by
    refine Bool.eq_false_iff.2 fun none => ?_
    rw [Double.isNaN_iff, infinity] at none
    cases none
  have top : Double.count (Report.ofDocument c.rules.tariff d).cost = ⊤ := by
    rw [Double.count, infinity, Double.units_infinity]
  rw [Double.lt_iff_count amount.nonneg (zero_le_total valid number), top, lt_top_iff_ne_top,
    ← Double.isFinite_iff_count]
  exact amount.isFinite

end Figures

/-- The figures of a depth are two neighbouring numbers, exact as doubles. -/
theorem measured_depth {n : Nat} (small : n < nestingLimit) :
    Measured (.ofNat (n + 1)) (.ofNat n) (Excess.depth (n + 1) n).toViolation.toError := by
  have below : n + 1 < 2 ^ 53 := by
    have limit : nestingLimit = 500 := rfl
    omega
  exact Violation.measured_toError rfl (Double.isFinite_ofNat below)
    (Double.isFinite_ofNat (Nat.lt_of_succ_lt below)) (Double.ofNat_lt_ofNat below n.lt_succ_self)

/-! ## The response -/

/-- The errors with a cost are measured unless a total is infinite. -/
theorem measured_cost_iff {c : Config} (valid : c.problem? = none) (body : ByteArray) :
    (∀ v ∈ (c.judge body).violations, v.code = .costExceeded →
      ∃ actual max, c.rules.ceilings.cost = some max ∧ Measured actual max v.toError) ↔
      ¬ c.Overflows body := by
  constructor
  · rintro measured ⟨fits, given, requests, read, r, among, d, document, keeps, infinite⟩
    obtain ⟨limit, set⟩ := Option.isSome_iff_exists.1 given
    have refused : c.analyze r.query =
        .error (.excess (.cost (Report.ofDocument c.rules.tariff d).cost limit)) :=
      analyzeText_eq_excess_iff.2 ⟨d, document, (heldTo_eq_cost_iff _ _ _ _).2
        ⟨keeps, set, lt_of_total_isInf valid set infinite, rfl⟩⟩
    have told := (Config.mem_violations_iff fits read).2 ⟨r, among, _, refused, rfl⟩
    obtain ⟨actual, max, -, figures⟩ := measured _ told rfl
    have total : actual = (Report.ofDocument c.rules.tariff d).cost := by
      have same : some (Json.double (Report.ofDocument c.rules.tariff d).cost) =
          some (.double actual) := figures.hasActual
      cases same
      rfl
    have finite := (isNumber_double_iff actual).1 figures.actualIsNumber
    rw [total, Double.isFinite_iff, infinite] at finite
    cases finite.2
  · intro bounded v told code
    rcases violation_kinds told with ⟨code' | code', -⟩ | ⟨n, rfl, -⟩ |
      ⟨d, limit, rfl, set, passed, overflows⟩
    · rw [code'] at code; cases code
    · rw [code'] at code; cases code
    · cases code
    · have number : (Report.ofDocument c.rules.tariff d).cost.isNaN = false :=
        Bool.eq_false_iff.2 fun none => Double.not_lt_of_isNaN limit none passed
      have limited : (Report.ofDocument c.rules.tariff d).cost.isInf = false :=
        Bool.eq_false_iff.2 fun infinite => bounded (overflows infinite)
      exact ⟨_, limit, set, Violation.measured_toError rfl
        ((Double.isFinite_iff _).2 ⟨number, limited⟩) (amount_ceiling valid set).isFinite passed⟩

/-- **What an error response tells.**  Under a valid configuration a response has one error for each
violation, in order, with its code and message.  An error about a body or a text that was not read
has no figures; one about a depth has the ceiling and the greater depth as numbers.  So has every
one about a cost, exactly if no query of the body is refused for an infinite total. -/
theorem errorResponse_tells_violations {c : Config} {body : ByteArray} {response : Json}
    (valid : c.problem? = none) (answered : (c.judge body).errorResponse? = some response) :
    ∃ errors, response.member? "errors" = some (.array errors) ∧
      List.Forall₂ Tells (c.judge body).violations errors ∧
      (∀ e ∈ errors, HasCode e .parseError ∨ HasCode e .invalidRequest → Bare e) ∧
      (∀ e ∈ errors, HasCode e .depthExceeded → ∃ n, c.rules.ceilings.depth = some n ∧
        n < nestingLimit ∧ Measured (.ofNat (n + 1)) (.ofNat n) e) ∧
      ((∀ e ∈ errors, HasCode e .costExceeded → ∃ actual max,
        c.rules.ceilings.cost = some max ∧ Measured actual max e) ↔ ¬ c.Overflows body) := by
  refine ⟨(c.judge body).violations.map Violation.toError, ?_, ?_, ?_, ?_, ?_⟩
  · unfold Verdict.errorResponse? at answered
    split at answered
    · cases answered
      rfl
    · cases answered
  · rw [List.forall₂_map_right_iff, List.forall₂_same]
    exact fun v _ => v.tells_toError
  · intro e among coded
    obtain ⟨v, told, rfl⟩ := List.mem_map.1 among
    rw [hasCode_toError_iff, hasCode_toError_iff] at coded
    rcases violation_kinds told with ⟨-, figures⟩ | ⟨n, rfl, -⟩ | ⟨d, limit, rfl, -⟩
    · exact Violation.bare_toError figures
    · rcases coded with code | code <;> cases code
    · rcases coded with code | code <;> cases code
  · intro e among coded
    obtain ⟨v, told, rfl⟩ := List.mem_map.1 among
    rw [hasCode_toError_iff] at coded
    rcases violation_kinds told with ⟨code | code, -⟩ | ⟨n, rfl, set, small⟩ | ⟨d, limit, rfl, -⟩
    · rw [code] at coded; cases coded
    · rw [code] at coded; cases coded
    · exact ⟨n, set, small, measured_depth small⟩
    · cases coded
  · rw [← measured_cost_iff valid]
    simp only [List.forall_mem_map, hasCode_toError_iff]

/-- No costs above one and no depths above one. -/
def strictConfig : Config :=
  ⟨.default, ⟨defaultRules.tariff, ⟨some 1.0, some 1⟩⟩⟩

/-- A query that is too deep, a text that is none, and a query that costs too much. -/
def refusedBatch : ByteArray :=
  ("[\x7b\"query\":\"\x7ba\x7bb\x7d\x7d\"\x7d,\x7b\"query\":\"\x7ba\"\x7d," ++
    "\x7b\"query\":\"\x7ba b\x7d\"\x7d]").toUTF8

theorem errorResponse_tells_violations_batch :
    strictConfig.problem? = none ∧
      (strictConfig.judge refusedBatch).violations.map (·.code) =
        [.depthExceeded, .parseError, .costExceeded] ∧
      ∃ response errors, (strictConfig.judge refusedBatch).errorResponse? = some response ∧
        response.member? "errors" = some (.array errors) ∧
        List.Forall₂ Tells (strictConfig.judge refusedBatch).violations errors ∧
        ∀ e ∈ errors, HasCode e .depthExceeded → Measured (.ofNat 2) (.ofNat 1) e := by
  have valid : strictConfig.problem? = none := by decide +kernel
  have some : (strictConfig.judge refusedBatch).errorResponse?.isSome = true := by decide +kernel
  obtain ⟨response, answered⟩ := Option.isSome_iff_exists.1 some
  obtain ⟨errors, listed, tells, -, measured, -⟩ := errorResponse_tells_violations valid answered
  refine ⟨valid, by decide +kernel, response, errors, answered, listed, tells, ?_⟩
  intro e among code
  obtain ⟨n, set, -, figures⟩ := measured e among code
  cases set
  exact figures

/-- The rules under which a second level costs an infinite amount, with a ceiling. -/
def soaringConfig : Config :=
  ⟨.default, ⟨⟨∅, 1.0, 1e200, 10.0⟩, ⟨some 1.0, none⟩⟩⟩

def nestedBody : ByteArray :=
  "\x7b\"query\":\"\x7ba\x7bb\x7d\x7d\"\x7d".toUTF8

theorem nested_error_without_number :
    soaringConfig.problem? = none ∧
      (soaringConfig.judge nestedBody).errorResponse?.map Json.compact =
        some ("\x7b\"errors\":[\x7b\"extensions\":" ++
          "\x7b\"actual\":null,\"code\":\"COST_EXCEEDED\",\"max\":1.0\x7d,\"message\":" ++
          "\"Query cost of inf exceeds maximum allowed cost of 1\"\x7d]\x7d") ∧
      ∃ response errors e actual,
        (soaringConfig.judge nestedBody).errorResponse? = some response ∧
        response.member? "errors" = some (.array errors) ∧ e ∈ errors ∧
        HasCode e .costExceeded ∧ e.at? ["extensions", "actual"] = some actual ∧
        ¬ IsNumber actual := by
  refine ⟨by decide +kernel, by decide +kernel, ?_⟩
  have infinite : (soaringConfig.judge nestedBody).violations.map
      (fun v => (v.code, (v.figures.bind (·.actual)).map (·.isInf))) =
        [(.costExceeded, some true)] := by decide +kernel
  obtain ⟨v, only, found⟩ := List.map_eq_singleton_iff.1 infinite
  obtain ⟨code, measured⟩ := Prod.mk.inj found
  obtain ⟨actual, given, infinite⟩ := Option.map_eq_some_iff.1 measured
  obtain ⟨figures, told, given⟩ := Option.bind_eq_some_iff.1 given
  refine ⟨Violation.errorResponse [v], [v.toError], v.toError, .double actual, ?_, rfl,
    List.mem_singleton_self _, (hasCode_toError_iff v _).2 code, ?_, ?_⟩
  · rw [Verdict.errorResponse?, Verdict.hasViolations, only]
    rfl
  · simp [Violation.toError, told, given, Json.at?, Json.member?, Violation.givenAmount]
  · rw [isNumber_double_iff, Double.isFinite_iff, infinite]
    exact fun finite => Bool.noConfusion finite.2

end QueryCost
