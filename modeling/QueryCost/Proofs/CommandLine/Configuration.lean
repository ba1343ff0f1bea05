/-
# QueryCost.Proofs.CommandLine.Configuration -- the configuration of a run

A run has the configuration that its file holds, the default one if there is no file
(`FileHolds`), with the ceilings that the command line sets in place of its own
(`Overridden`).  It is checked twice, as it stands in the file and as it is in the end,
so a run has a configuration exactly if both are valid (`loadConfig_eq_ok_iff`).

The first check comes before the ceilings are put in place.  So no ceiling on the command
line mends a file, and what is wrong with the file is reported as such.
-/
import QueryCost.CommandLine.Run
import QueryCost.Proofs.CommandLine.Arguments
import QueryCost.Proofs.Config.Validity

namespace QueryCost.CommandLine

set_option autoImplicit false

/-- What a path holds as a configuration; a configuration that is not valid is none. -/
inductive FileHolds (e : Environment) (path : String) : Config → Prop
  | absent (missing : e.file path = .absent) : FileHolds e path .default
  | text {content : String} {c : Config} (found : e.file path = .text content)
      (read : Config.ofFileText? path content = some c) (valid : c.Valid) : FileHolds e path c

/-- The one configuration is the other with the ceilings that the arguments set. -/
structure Overridden (arguments : List String) (base c : Config) : Prop where
  settings : c.settings = base.settings
  tariff : c.rules.tariff = base.rules.tariff
  cost : ∀ text, Sets arguments .maxCost text →
    ∃ x, Decimal.ofText? text = some x ∧ c.rules.ceilings.cost = some x
  costKept : (∀ text, ¬ Sets arguments .maxCost text) →
    c.rules.ceilings.cost = base.rules.ceilings.cost
  depth : ∀ text, Sets arguments .maxDepth text →
    ∃ n, Given.sizeOfText? text = some n ∧ c.rules.ceilings.depth = some n
  depthKept : (∀ text, ¬ Sets arguments .maxDepth text) →
    c.rules.ceilings.depth = base.rules.ceilings.depth

/-! ## Files -/

theorem configOfFile_eq_ok_iff {e : Environment} {path : String} {c : Config} :
    configOfFile e path = .ok c ↔ FileHolds e path c := by
  unfold configOfFile
  constructor
  · intro loaded
    split at loaded
    · rename_i missing
      cases loaded
      exact .absent missing
    · cases loaded
    · rename_i found
      split at loaded
      · rename_i read
        cases loaded
        obtain ⟨read, valid⟩ := Config.ofFileText_eq_ok_iff.1 read
        exact .text found read valid
      · cases loaded
  · rintro (missing | ⟨found, read, valid⟩)
    · rw [missing]
    · rw [found]
      dsimp only
      rw [Config.ofFileText_eq_ok_iff.2 ⟨read, valid⟩]

/-- All that a file can fail with. -/
theorem configOfFile_cases (e : Environment) (path : String) :
    (∃ c, configOfFile e path = .ok c) ∨ configOfFile e path = .error .configFile := by
  unfold configOfFile
  split
  · exact .inl ⟨_, rfl⟩
  · exact .inr rfl
  · split
    · exact .inl ⟨_, rfl⟩
    · exact .inr rfl

theorem configOfFile_of_not_holds {e : Environment} {path : String}
    (none : ∀ c, ¬ FileHolds e path c) : configOfFile e path = .error .configFile :=
  (configOfFile_cases e path).resolve_left fun ⟨c, loaded⟩ =>
    none c (configOfFile_eq_ok_iff.1 loaded)

/-! ## Ceilings of the command line -/

variable {arguments : List String} {o : Options}

/-- What stands in place of a ceiling: the value that is set, and the old one if none is. -/
theorem or_eq_iff {α : Type} {sets : String → Prop} {read : String → Option α}
    {chosen : Option α} (said : (∀ text, sets text → ∃ a, read text = some a ∧ chosen = some a) ∧
      ((∀ text, ¬ sets text) → chosen = none)) (old new : Option α) :
    new = chosen.or old ↔
      (∀ text, sets text → ∃ a, read text = some a ∧ new = some a) ∧
      ((∀ text, ¬ sets text) → new = old) := by
  obtain ⟨given, absent⟩ := said
  constructor
  · rintro rfl
    constructor
    · intro text set
      obtain ⟨a, value, some⟩ := given text set
      exact ⟨a, value, by rw [some, Option.some_or]⟩
    · intro unset
      rw [absent unset, Option.none_or]
  · rintro ⟨replaced, kept⟩
    by_cases any : ∃ text, sets text
    · obtain ⟨text, set⟩ := any
      obtain ⟨a, value, some⟩ := given text set
      obtain ⟨b, value', same⟩ := replaced text set
      cases value.symm.trans value'
      rw [some, same, Option.some_or]
    · rw [absent (not_exists.1 any), kept (not_exists.1 any), Option.none_or]

theorem overridden_iff (accepted : Invocation.ofArguments arguments = .analyze o)
    {base c : Config} : Overridden arguments base c ↔ c = overridden o base := by
  have cost := or_eq_iff (costCeiling_said accepted) base.rules.ceilings.cost c.rules.ceilings.cost
  have depth :=
    or_eq_iff (depthCeiling_said accepted) base.rules.ceilings.depth c.rules.ceilings.depth
  constructor
  · rintro ⟨settings, tariff, replaced, kept, replaced', kept'⟩
    obtain ⟨_, _, _, _⟩ := c
    cases settings
    cases tariff
    cases cost.2 ⟨replaced, kept⟩
    cases depth.2 ⟨replaced', kept'⟩
    rfl
  · rintro rfl
    obtain ⟨replaced, kept⟩ := cost.1 rfl
    obtain ⟨replaced', kept'⟩ := depth.1 rfl
    exact ⟨rfl, rfl, replaced, kept, replaced', kept'⟩

/-! ## Loading -/

theorem loadConfig_eq_ok_iff {e : Environment} {c : Config} :
    loadConfig e o = .ok c ↔
      ∃ base, configOfFile e o.config = .ok base ∧ c = overridden o base ∧ c.Valid := by
  unfold loadConfig
  cases configOfFile e o.config with
  | error f =>
      constructor
      · nofun
      · rintro ⟨_, ⟨⟩, -⟩
  | ok base =>
      simp only [bind, Except.bind, Except.ok.injEq, exists_eq_left', ← Config.problem?_eq_none_iff]
      split
      · rename_i problem
        constructor
        · nofun
        · rintro ⟨rfl, none⟩
          rw [none] at problem
          cases problem
      · rename_i none
        rw [Bool.not_eq_true, Option.isSome_eq_false_iff, Option.isNone_iff_eq_none] at none
        constructor
        · rintro ⟨⟩
          exact ⟨rfl, none⟩
        · rintro ⟨rfl, -⟩
          rfl

/-- A failure to load the configuration is told as one. -/
theorem loadConfig_error_cases {e : Environment} {f : Failure}
    (failed : loadConfig e o = .error f) : f = .configFile ∨ f = .invalidConfig := by
  unfold loadConfig at failed
  rcases configOfFile_cases e o.config with ⟨base, loaded⟩ | none
  · rw [loaded] at failed
    simp only [bind, Except.bind] at failed
    split at failed
    · cases failed
      exact .inr rfl
    · cases failed
  · rw [none] at failed
    cases failed
    exact .inl rfl

/-- **The configuration of a run.**  The arguments have it in one file.  The run has a
configuration exactly if that file holds one and it is valid with the given ceilings in place; it
has that one then, whatever they replace.  A file whose own configuration is not valid is refused
all the same. -/
theorem loadConfig_follows_file (accepted : Invocation.ofArguments arguments = .analyze o)
    (e : Environment) :
    ∃ path, (∀ p, ConfigPath arguments p ↔ p = path) ∧
      (∀ c, loadConfig e o = .ok c ↔
        ∃ base, FileHolds e path base ∧ Overridden arguments base c ∧ c.Valid) ∧
      ∀ content base, e.file path = .text content →
        Config.ofFileText? path content = some base → ¬ base.Valid →
          loadConfig e o = .error .configFile := by
  refine ⟨o.config, configPath_iff accepted, fun c => ?_, ?_⟩
  · rw [loadConfig_eq_ok_iff]
    simp only [configOfFile_eq_ok_iff, overridden_iff accepted]
  · intro content base found read invalid
    have none : ∀ c, ¬ FileHolds e o.config c := by
      rintro c (missing | ⟨found', read', valid⟩)
      · cases found.symm.trans missing
      · cases found.symm.trans found'
        cases read.symm.trans read'
        exact invalid valid
    unfold loadConfig
    rw [configOfFile_of_not_holds none]
    rfl

def raisedArguments : List String :=
  ["--config", "limits.json", "--max-cost", "100"]

def raisedOptions : Options :=
  ⟨"limits.json", none, none, false, some 100.0, none⟩

/-- A configuration of this ceiling and nothing else. -/
def limitText (limit : String) : String :=
  "\x7b\"cost\":\x7b\"max_cost\":" ++ limit ++ "\x7d\x7d"

def limitFile (limit : String) : Environment :=
  .ofFiles [("limits.json", limitText limit)] ""

/-- There is a result if something can be worked out of it. -/
theorem exists_ok_of_map {ε α β : Type} {result : Except ε α} {f : α → β} {b : β}
    (known : result.toOption.map f = some b) : ∃ a, result = .ok a ∧ f a = b := by
  cases result with
  | error _ => cases known
  | ok a => exact ⟨a, rfl, Option.some.inj known⟩

/-- A ceiling that is lower is replaced; one that is no amount is refused before that. -/
theorem loadConfig_follows_file_raised :
    Invocation.ofArguments raisedArguments = .analyze raisedOptions ∧
      (∃ c base, loadConfig (limitFile "5") raisedOptions = .ok c ∧
        FileHolds (limitFile "5") "limits.json" base ∧ Overridden raisedArguments base c ∧
        c.rules.ceilings.cost = some 100.0) ∧
      loadConfig (limitFile "-5") raisedOptions = .error .configFile := by
  have accepted : Invocation.ofArguments raisedArguments = .analyze raisedOptions := rfl
  have place : ConfigPath raisedArguments "limits.json" := (configPath_iff accepted _).2 rfl
  refine ⟨accepted, ?_, ?_⟩
  · obtain ⟨path, unique, held, -⟩ := loadConfig_follows_file accepted (limitFile "5")
    cases (unique _).1 place
    have raised : (loadConfig (limitFile "5") raisedOptions).toOption.map
        (·.rules.ceilings.cost) = some (some 100.0) := by decide +kernel
    obtain ⟨c, loaded, limit⟩ := exists_ok_of_map raised
    obtain ⟨base, holds, overridden, -⟩ := (held c).1 loaded
    exact ⟨c, base, loaded, holds, overridden, limit⟩
  · obtain ⟨path, unique, -, refused⟩ := loadConfig_follows_file accepted (limitFile "-5")
    cases (unique _).1 place
    have read : (Config.ofFileText? "limits.json" (limitText "-5")).map
        (fun c => c.problem?.isSome) = some true := by decide +kernel
    obtain ⟨base, read, problem⟩ := Option.map_eq_some_iff.1 read
    refine refused (limitText "-5") base (by decide +kernel) read fun valid => ?_
    rw [Config.problem?_eq_none_iff.2 valid] at problem
    cases problem

end QueryCost.CommandLine
