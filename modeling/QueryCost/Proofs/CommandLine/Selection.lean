/-
# QueryCost.Proofs.CommandLine.Selection -- what a run looks at, and all that it tells

A run looks at the file of the configuration and at one source of input: the query if one
is given, else the file if one is named, else standard input (`Selected`).  Each of its
two readers is the same function of environments that agree there (`SameView`), and so is
the run.  The configuration comes first, so a failure of it is told without regard to
the input.

What a run tells is whole.  It either fails, with a message and nothing printed, or
prints the text of one value, which reads as that value and nothing else
(`run_fails_or_answers`).
-/
import QueryCost.Proofs.CommandLine.Configuration
import QueryCost.Proofs.Json.Rendering

namespace QueryCost.CommandLine

open QueryCost.Json (TokenText Written IsBlanks)

set_option autoImplicit false

/-- The text that the arguments select. -/
inductive Selected (arguments : List String) (e : Environment) : String → Prop
  | query {text : String} (given : Sets arguments .query text) : Selected arguments e text
  | file {path content : String} (noQuery : ∀ text, ¬ Sets arguments .query text)
      (named : Sets arguments .file path) (found : e.file path = .text content) :
      Selected arguments e content
  | input {text : String} (noQuery : ∀ text, ¬ Sets arguments .query text)
      (noFile : ∀ path, ¬ Sets arguments .file path) (found : e.input = some text) :
      Selected arguments e text

/-- The environments agree on the file of the configuration. -/
def SameConfigFile (arguments : List String) (e e' : Environment) : Prop :=
  ∀ path, ConfigPath arguments path → e.file path = e'.file path

/-- The environments agree on what the arguments select. -/
structure SameView (arguments : List String) (e e' : Environment) : Prop where
  config : SameConfigFile arguments e e'
  file : (∀ text, ¬ Sets arguments .query text) →
    ∀ path, Sets arguments .file path → e.file path = e'.file path
  input : (∀ text, ¬ Sets arguments .query text) →
    (∀ path, ¬ Sets arguments .file path) → e.input = e'.input

section Accepted

variable {arguments : List String} {o : Options}
  (accepted : Invocation.ofArguments arguments = .analyze o)

include accepted

theorem run_eq_analyze (e : Environment) : run e arguments = analyze e o := by
  rw [run, accepted]

theorem query_eq_none_iff : o.query = none ↔ ∀ text, ¬ Sets arguments .query text := by
  simp only [← query_eq_some_iff accepted, Option.eq_none_iff_forall_ne_some, ne_eq]

theorem file_eq_none_iff : o.file = none ↔ ∀ path, ¬ Sets arguments .file path := by
  simp only [← file_eq_some_iff accepted, Option.eq_none_iff_forall_ne_some, ne_eq]

/-! ## The readers -/

theorem readInput_eq_ok_iff {e : Environment} {text : String} :
    readInput e o = .ok text ↔ Selected arguments e text := by
  unfold readInput
  constructor
  · intro read
    split at read
    · rename_i query
      cases read
      exact .query ((query_eq_some_iff accepted _).1 query)
    · rename_i query file
      split at read
      · rename_i found
        cases read
        exact .file ((query_eq_none_iff accepted).1 query)
          ((file_eq_some_iff accepted _).1 file) found
      · cases read
    · rename_i query file
      split at read
      · rename_i found
        cases read
        exact .input ((query_eq_none_iff accepted).1 query) ((file_eq_none_iff accepted).1 file)
          found
      · cases read
  · rintro (given | ⟨noQuery, named, found⟩ | ⟨noQuery, noFile, found⟩)
    · rw [(query_eq_some_iff accepted _).2 given]
    · rw [(query_eq_none_iff accepted).2 noQuery, (file_eq_some_iff accepted _).2 named]
      dsimp only
      rw [found]
    · rw [(query_eq_none_iff accepted).2 noQuery, (file_eq_none_iff accepted).2 noFile]
      dsimp only
      rw [found]

theorem SameConfigFile.loadConfig_eq {e e' : Environment}
    (same : SameConfigFile arguments e e') : loadConfig e o = loadConfig e' o := by
  have file := same o.config ((configPath_iff accepted _).2 rfl)
  have held : configOfFile e o.config = configOfFile e' o.config := by
    rw [configOfFile, configOfFile, file]
  rw [loadConfig, loadConfig, held]

theorem SameView.readInput_eq {e e' : Environment} (same : SameView arguments e e') :
    readInput e o = readInput e' o := by
  unfold readInput
  cases query : o.query with
  | some given => rfl
  | none =>
      have noQuery := (query_eq_none_iff accepted).1 query
      cases file : o.file with
      | some path =>
          dsimp only
          rw [same.file noQuery path ((file_eq_some_iff accepted path).1 file)]
      | none =>
          dsimp only
          rw [same.input noQuery ((file_eq_none_iff accepted).1 file)]

/-! ## Runs -/

theorem run_of_loadConfig_error {e : Environment} {f : Failure}
    (failed : loadConfig e o = .error f) : run e arguments = .failed f := by
  rw [run_eq_analyze accepted, analyze, failed]

theorem SameView.run_eq {e e' : Environment} (same : SameView arguments e e') :
    run e arguments = run e' arguments := by
  rw [run_eq_analyze accepted, run_eq_analyze accepted, analyze, analyze,
    same.config.loadConfig_eq accepted, same.readInput_eq accepted]

/-- A run fails or answers the text that the arguments select under the configuration. -/
theorem run_fails_or_answers (e : Environment) :
    (∃ f, run e arguments = .failed f) ∨
      ∃ c input, loadConfig e o = .ok c ∧ Selected arguments e input ∧
        run e arguments =
          .answered (answer c o.request input).1 (answer c o.request input).2 := by
  rw [run_eq_analyze accepted, analyze]
  cases loaded : loadConfig e o with
  | error f => exact .inl ⟨f, rfl⟩
  | ok c =>
      cases read : readInput e o with
      | error f => exact .inl ⟨f, rfl⟩
      | ok input => exact .inr ⟨c, input, rfl, (readInput_eq_ok_iff accepted).1 read, rfl⟩

end Accepted

/-! ## What is told -/

/-- What is printed of an answer is a text of its value. -/
theorem Outcome.ofText?_output_answered (value : Json) (blocked : Bool) :
    Written.ofText? none (Outcome.answered value blocked).output.toList =
      some (Json.tree value) := by
  have lineBreak : TokenText [] "\n".toList := .done (by simp [IsBlanks])
  have whole := (Json.text_indented 0 value).append lineBreak
  refine Written.ofText?_of_text ?_
  simpa [Outcome.output, Json.pretty, Written.Text] using whole

theorem Outcome.exitCode_answered_iff (value : Json) (blocked : Bool) :
    (Outcome.answered value blocked).exitCode = 1 ↔ blocked = true := by
  cases blocked <;> simp [Outcome.exitCode]

/-- **What a run tells, and of what.**  A run is the same in environments that agree on what the
arguments select, and a failure to load the configuration is told whatever the input is.  If a
failure is told, the run exits with one and prints nothing; otherwise it prints the text of one
value and a line break, and exits with one exactly if the input is blocked. -/
theorem run_tells_of_selection {arguments : List String} {o : Options}
    (accepted : Invocation.ofArguments arguments = .analyze o) :
    (∀ e e', SameView arguments e e' → run e arguments = run e' arguments) ∧
    (∀ e f, loadConfig e o = .error f → (f = .configFile ∨ f = .invalidConfig) ∧
      ∀ e', SameConfigFile arguments e e' → run e' arguments = .failed f) ∧
    (∀ e message, (run e arguments).context? = some message →
      (run e arguments).exitCode = 1 ∧ (run e arguments).output = "") ∧
    ∀ e, (run e arguments).context? = none → ∃ c input value blocked,
      loadConfig e o = .ok c ∧ Selected arguments e input ∧
      answer c o.request input = (value, blocked) ∧
      (run e arguments).output = value.pretty ++ "\n" ∧
      Written.ofText? none (run e arguments).output.toList = some (Json.tree value) ∧
      ((run e arguments).exitCode = 1 ↔ blocked = true) := by
  refine ⟨fun e e' same => same.run_eq accepted, ?_, ?_, ?_⟩
  · intro e f failed
    refine ⟨loadConfig_error_cases failed, fun e' same => ?_⟩
    rw [same.loadConfig_eq accepted] at failed
    exact run_of_loadConfig_error accepted failed
  · intro e message told
    rcases run_fails_or_answers accepted e with ⟨f, failed⟩ | ⟨c, input, -, -, answered⟩
    · rw [failed]
      exact ⟨rfl, rfl⟩
    · rw [answered] at told
      cases told
  · intro e quiet
    rcases run_fails_or_answers accepted e with ⟨f, failed⟩ |
      ⟨c, input, loaded, selected, answered⟩
    · rw [failed] at quiet
      cases quiet
    · rw [answered]
      exact ⟨c, input, _, _, loaded, selected, rfl, rfl, Outcome.ofText?_output_answered _ _,
        Outcome.exitCode_answered_iff _ _⟩

def fileArguments : List String :=
  ["--file", "query.graphql"]

def fileOptions : Options :=
  ⟨"config.yaml", none, some "query.graphql", false, none, none⟩

/-- A file that is no configuration, with and without the file to analyze. -/
def badConfig (files : List (String × String)) : Environment :=
  .ofFiles (("config.yaml", "cost: 1") :: files) ""

/-- Another file and standard input do not matter, and a missing file does not if the
configuration is bad. -/
theorem run_tells_of_selection_file :
    Invocation.ofArguments fileArguments = .analyze fileOptions ∧
      run (.ofFiles [("query.graphql", "\x7ba\x7d")] "") fileArguments =
        run (.ofFiles [("query.graphql", "\x7ba\x7d"), ("other.graphql", "b")] "b")
          fileArguments ∧
      run (badConfig []) fileArguments = .failed .configFile := by
  have accepted : Invocation.ofArguments fileArguments = .analyze fileOptions := rfl
  obtain ⟨alike, failures, -⟩ := run_tells_of_selection accepted
  refine ⟨accepted, alike _ _ ?_, ?_⟩
  · refine ⟨fun path place => ?_, fun _ path named => ?_, fun _ noFile => ?_⟩
    · cases (configPath_iff accepted path).1 place
      decide +kernel
    · cases (file_eq_some_iff accepted path).2 named
      decide +kernel
    · exact absurd ((file_eq_some_iff accepted _).1 rfl) (noFile "query.graphql")
  · have refused : (loadConfig (badConfig [("query.graphql", "\x7ba\x7d")]) fileOptions).map
        (fun _ => ()) = .error .configFile := by decide +kernel
    cases loaded : loadConfig (badConfig [("query.graphql", "\x7ba\x7d")]) fileOptions with
    | ok c =>
        rw [loaded] at refused
        cases refused
    | error f =>
        rw [loaded] at refused
        cases refused
        refine (failures _ _ loaded).2 _ fun path place => ?_
        cases (configPath_iff accepted path).1 place
        decide +kernel

end QueryCost.CommandLine
