/-
# QueryCost.Proofs.CommandLine.Arguments -- what an accepted command line says

A command line is a list of choices, each spelled in one of a few ways, and two dashes
may end it (`Says`).  The reader takes the choices that a line says in their order
(`readFrom_of_line`), and a line that it accepts says some (`exists_choices`).

A setting is chosen at most once, because a second choice is refused.  So each part of
the options is what the line sets it to, read as that part is read, and what the line
does not set has its default (`Part.said`).
-/
import QueryCost.CommandLine.Arguments

namespace QueryCost.CommandLine

set_option autoImplicit false

/-! ## Spellings -/

/-- One thing that a command line says. -/
inductive Choice
  | setting (s : Setting) (value : String)
  /-- The input is a request body. -/
  | request

def Setting.longName : Setting → String
  | .config => "config"
  | .query => "query"
  | .file => "file"
  | .maxCost => "max-cost"
  | .maxDepth => "max-depth"
  | .logLevel => "log-level"

def Setting.letter? : Setting → Option Char
  | .config => some 'c'
  | .query => some 'q'
  | .file => some 'f'
  | .logLevel => some 'l'
  | _ => none

/-- The ways to spell a choice as arguments. -/
inductive Choice.Spelled : Choice → List String → Prop
  | apart (s : Setting) {value : String} (free : isValue value = true) :
      Spelled (.setting s value) ["--" ++ s.longName, value]
  | joined (s : Setting) (value : String) :
      Spelled (.setting s value) ["--" ++ s.longName ++ "=" ++ value]
  | letterApart {s : Setting} {c : Char} (letter : s.letter? = some c) {value : String}
      (free : isValue value = true) : Spelled (.setting s value) [String.ofList ['-', c], value]
  | letterJoined {s : Setting} {c : Char} (letter : s.letter? = some c) (value : List Char) :
      Spelled (.setting s (String.ofList value)) [String.ofList ('-' :: c :: '=' :: value)]
  | letterAttached {s : Setting} {c : Char} (letter : s.letter? = some c) {first : Char}
      (sign : first ≠ '=') (rest : List Char) :
      Spelled (.setting s (String.ofList (first :: rest)))
        [String.ofList ('-' :: c :: first :: rest)]
  | request : Spelled .request ["--request"]

/-- Arguments that say these choices and nothing else. -/
inductive Says : List Choice → List String → Prop
  | done : Says [] []
  | ended : Says [] ["--"]
  | next {choice : Choice} {choices : List Choice} {spelled rest : List String}
      (first : choice.Spelled spelled) (more : Says choices rest) :
      Says (choice :: choices) (spelled ++ rest)

/-! ## Single arguments -/

theorem equalsSign_notMem_longName (s : Setting) : '=' ∉ s.longName.toList := by
  cases s <;> decide

theorem ofLong?_eq_setting_iff {name : String} {s : Setting} :
    OptionName.ofLong? name = some (.setting s) ↔ name = s.longName := by
  constructor
  · intro named
    unfold OptionName.ofLong? at named
    split at named <;> cases named <;> rfl
  · rintro rfl
    cases s <;> rfl

theorem ofLong?_eq_request_iff {name : String} :
    OptionName.ofLong? name = some (.switch .request) ↔ name = "request" := by
  constructor
  · intro named
    unfold OptionName.ofLong? at named
    split at named <;> cases named
    rfl
  · rintro rfl
    rfl

theorem ofLetter?_eq_setting_iff {c : Char} {s : Setting} :
    OptionName.ofLetter? c = some (.setting s) ↔ s.letter? = some c := by
  constructor
  · intro lettered
    unfold OptionName.ofLetter? at lettered
    split at lettered <;> cases lettered <;> rfl
  · intro lettered
    cases s <;> cases lettered <;> rfl

theorem splitValue_joined {name : List Char} (without : '=' ∉ name) (value : List Char) :
    splitValue (name ++ '=' :: value) = (String.ofList name, some (String.ofList value)) := by
  have other : ∀ c ∈ name, (c != '=') = true := fun c among =>
    bne_iff_ne.2 fun same => without (same ▸ among)
  unfold splitValue
  rw [List.dropWhile_append_of_pos other, List.takeWhile_append_of_pos other]
  simp

theorem eq_of_splitValue {cs : List Char} {name : String} {value : Option String}
    (split : splitValue cs = (name, value)) :
    cs = name.toList ++ (value.elim [] fun v => '=' :: v.toList) := by
  unfold splitValue at split
  cases behind : cs.dropWhile (· != '=') with
  | nil =>
      rw [behind] at split
      cases split
      simp
  | cons c rest =>
      have whole := List.takeWhile_append_dropWhile (p := (· != '=')) (l := cs)
      have stop := List.head?_dropWhile_not (· != '=') cs
      rw [behind] at split whole stop
      cases split
      have sign : c = '=' := by simpa using stop
      subst sign
      simpa using whole.symm

theorem ofText_of_dashes {text : String} {rest : List Char}
    (whole : text.toList = '-' :: '-' :: rest) (more : rest ≠ []) :
    Argument.ofText text =
      match OptionName.ofLong? (splitValue rest).1 with
      | some name => .option name (splitValue rest).2
      | none => .other := by
  cases rest with
  | nil => exact absurd rfl more
  | cons c rest =>
      unfold Argument.ofText
      rw [whole]
      rfl

theorem ofText_of_dash {text : String} {c : Char} {rest : List Char}
    (whole : text.toList = '-' :: c :: rest) (letter : c ≠ '-') :
    Argument.ofText text =
      match OptionName.ofLetter? c with
      | some (.switch s) => .option (.switch s) none
      | some name => .option name (attachedValue rest)
      | none => .other := by
  unfold Argument.ofText
  rw [whole]
  split
  · rename_i same
    cases same
    exact absurd rfl letter
  · rename_i same
    cases same
    exact absurd rfl letter
  · rename_i same
    cases same
    rfl
  · rename_i other
    exact absurd rfl (other _ _)

theorem ofText_long (s : Setting) :
    Argument.ofText ("--" ++ s.longName) = .option (.setting s) none := by
  cases s <;> rfl

theorem ofText_joined (s : Setting) (value : String) :
    Argument.ofText ("--" ++ s.longName ++ "=" ++ value) = .option (.setting s) (some value) := by
  have whole : ("--" ++ s.longName ++ "=" ++ value).toList =
      '-' :: '-' :: (s.longName.toList ++ '=' :: value.toList) := by simp
  have split := splitValue_joined (equalsSign_notMem_longName s) value.toList
  rw [String.ofList_toList, String.ofList_toList] at split
  rw [ofText_of_dashes whole (by simp), split, ofLong?_eq_setting_iff.2 rfl]

theorem ofText_letter {s : Setting} {c : Char} (letter : s.letter? = some c) (rest : List Char) :
    Argument.ofText (String.ofList ('-' :: c :: rest)) =
      .option (.setting s) (attachedValue rest) := by
  have noDash : c ≠ '-' := by
    rintro rfl
    cases s <;> cases letter
  rw [ofText_of_dash String.toList_ofList noDash, ofLetter?_eq_setting_iff.2 letter]

/-- What an argument that chooses a setting looks like. -/
theorem ofText_eq_setting {text : String} {s : Setting} {attached : Option String}
    (read : Argument.ofText text = .option (.setting s) attached) :
    (attached = none ∧ text = "--" ++ s.longName) ∨
      (∃ value, attached = some value ∧ text = "--" ++ s.longName ++ "=" ++ value) ∨
      ∃ c rest, s.letter? = some c ∧ attached = attachedValue rest ∧
        text = String.ofList ('-' :: c :: rest) := by
  revert read
  fun_cases Argument.ofText text with
  | case2 rest more whole name value split option named =>
      rintro ⟨⟩
      have tail := eq_of_splitValue split
      rw [ofLong?_eq_setting_iff] at named
      subst named tail
      cases attached with
      | none => exact .inl ⟨rfl, String.toList_inj.1 (by simpa using whole)⟩
      | some value => exact .inr (.inl ⟨value, rfl, String.toList_inj.1 (by simpa using whole)⟩)
  | case5 c rest _ _ whole name other lettered =>
      rintro ⟨⟩
      exact .inr (.inr ⟨c, rest, ofLetter?_eq_setting_iff.1 lettered, rfl,
        String.toList_inj.1 (by simpa using whole)⟩)
  | _ => nofun

theorem eq_request_of_ofText {text : String}
    (read : Argument.ofText text = .option (.switch .request) none) : text = "--request" := by
  revert read
  fun_cases Argument.ofText text with
  | case2 rest more whole name value split option named =>
      rintro ⟨⟩
      have tail := eq_of_splitValue split
      rw [ofLong?_eq_request_iff] at named
      subst named tail
      exact String.toList_inj.1 (by simpa using whole)
  | case4 c rest _ _ whole switch lettered =>
      rintro ⟨⟩
      unfold OptionName.ofLetter? at lettered
      split at lettered <;> cases lettered
  | case5 c rest _ _ whole name other lettered =>
      intro same
      exact absurd (Argument.option.inj same).1 (other _)
  | _ => nofun

theorem eq_dashes_of_ofText {text : String} (read : Argument.ofText text = .endOfOptions) :
    text = "--" := by
  revert read
  fun_cases Argument.ofText text with
  | case1 whole => exact fun _ => String.toList_inj.1 whole
  | _ => nofun

/-! ## Reading choices -/

namespace Given

/-- Take one choice. -/
def take (g : Given) : Choice → Option Given
  | .setting s value => g.set s value
  | .request => if g.request then none else some { g with request := true }

def takeAll (g : Given) : List Choice → Option Given
  | [] => some g
  | choice :: rest => (g.take choice).bind (·.takeAll rest)

end Given

/-- What is read from the arguments behind a choice, if the choice could be taken. -/
def continued (arguments : List String) : Option Given → Invocation
  | some g => readFrom g arguments
  | none => .misused

theorem readFrom_option {g : Given} {text : String} {s : Setting} {value : String}
    (read : Argument.ofText text = .option (.setting s) (some value)) (rest : List String) :
    readFrom g (text :: rest) = continued rest (g.set s value) := by
  rw [readFrom, read]
  rfl

theorem readFrom_option_apart {g : Given} {text : String} {s : Setting} {value : String}
    (read : Argument.ofText text = .option (.setting s) none) (free : isValue value = true)
    (rest : List String) :
    readFrom g (text :: value :: rest) = continued rest (g.set s value) := by
  rw [readFrom, read]
  simp only [free]
  rfl

theorem readFrom_request {g : Given} {text : String}
    (read : Argument.ofText text = .option (.switch .request) none) (rest : List String) :
    readFrom g (text :: rest) = continued rest (g.take .request) := by
  rw [readFrom, read, Given.take]
  cases g.request <;> rfl

theorem readFrom_spelled {choice : Choice} {spelled : List String} (first : choice.Spelled spelled)
    (g : Given) (rest : List String) :
    readFrom g (spelled ++ rest) = continued rest (g.take choice) := by
  cases first with
  | apart s free => exact readFrom_option_apart (ofText_long s) free rest
  | joined s value => exact readFrom_option (ofText_joined s value) rest
  | letterApart letter free => exact readFrom_option_apart (ofText_letter letter []) free rest
  | letterJoined letter value => exact readFrom_option (ofText_letter letter ('=' :: value)) rest
  | @letterAttached s c letter first sign rest' =>
      have value : attachedValue (first :: rest') = some (String.ofList (first :: rest')) := by
        unfold attachedValue
        split
        · rename_i same; cases same
        · rename_i same; cases same; exact absurd rfl sign
        · rename_i same; rfl
      exact readFrom_option ((ofText_letter letter _).trans (by rw [value])) rest
  | request => exact readFrom_request rfl rest

/-- The choices that a line says are taken one after the other. -/
theorem readFrom_of_line {choices : List Choice} {arguments : List String}
    (line : Says choices arguments) (g : Given) :
    readFrom g arguments =
      match g.takeAll choices with
      | some g => g.invocation
      | none => .misused := by
  induction line generalizing g with
  | done => rfl
  | ended => rfl
  | @next choice choices spelled rest first more ih =>
      rw [readFrom_spelled first, Given.takeAll]
      cases g.take choice with
      | none => rfl
      | some g => exact ih g

theorem spelled_of_ofText {text value : String} {s : Setting}
    (read : Argument.ofText text = .option (.setting s) (some value)) :
    (Choice.setting s value).Spelled [text] := by
  rcases ofText_eq_setting read with ⟨none, -⟩ | ⟨value', same, rfl⟩ |
    ⟨c, rest, letter, same, rfl⟩
  · cases none
  · cases same
    exact .joined s value
  · unfold attachedValue at same
    split at same
    · cases same
    · cases same
      exact .letterJoined letter _
    · rename_i nonempty sign
      cases same
      cases rest with
      | nil => exact absurd rfl nonempty
      | cons first rest => exact .letterAttached letter (fun equal => sign rest (equal ▸ rfl)) rest

theorem spelled_of_ofText_apart {text value : String} {s : Setting}
    (read : Argument.ofText text = .option (.setting s) none) (free : isValue value = true) :
    (Choice.setting s value).Spelled [text, value] := by
  rcases ofText_eq_setting read with ⟨-, rfl⟩ | ⟨value', some, -⟩ | ⟨c, rest, letter, same, rfl⟩
  · exact .apart s free
  · cases some
  · unfold attachedValue at same
    split at same
    · exact .letterApart letter free
    · cases same
    · cases same

/-- A line that is accepted says something. -/
theorem exists_choices {g : Given} {arguments : List String} {o : Options}
    (accepted : readFrom g arguments = .analyze o) : ∃ choices, Says choices arguments := by
  fun_induction readFrom g arguments with
  | case1 => exact ⟨[], .done⟩
  | case3 g text rest read last =>
      rw [eq_dashes_of_ofText read, List.isEmpty_iff.1 last]
      exact ⟨[], .ended⟩
  | case9 g text rest read new ih =>
      obtain ⟨choices, line⟩ := ih accepted
      rw [eq_request_of_ofText read]
      exact ⟨_, .next .request line⟩
  | case10 g text rest s value read g' set ih =>
      obtain ⟨choices, line⟩ := ih accepted
      exact ⟨_, .next (spelled_of_ofText read) line⟩
  | case13 g text s read value rest free g' set ih =>
      obtain ⟨choices, line⟩ := ih accepted
      exact ⟨_, .next (spelled_of_ofText_apart read free) line⟩
  | _ => cases accepted

/-! ## Parts of the options -/

namespace Given

theorem once_map_eq_some {α : Type} {old new : Option α} {f : Option α → Given} {g : Given}
    (set : (once old new).map f = some g) : old = none ∧ g = f new ∧ new.isSome = true := by
  cases old with
  | some a => cases set
  | none =>
      cases new with
      | none => cases set
      | some a => exact ⟨rfl, (Option.some.inj set).symm, rfl⟩

/-- What is set once is there afterwards. -/
theorem once_map_given {α : Type} {old new : Option α} {f : Option α → Given} {g : Given}
    (given : Given → Option α) (puts : ∀ a, given (f a) = a)
    (set : (once old new).map f = some g) :
    old = none ∧ given g = new ∧ new.isSome = true := by
  obtain ⟨none, rfl, some⟩ := once_map_eq_some set
  exact ⟨none, puts new, some⟩

/-- A choice changes nothing but what it chooses. -/
theorem take_frame {g g' : Given} {choice : Choice} (taken : g.take choice = some g') :
    ((∀ text, choice ≠ .setting .config text) → g'.config = g.config) ∧
    ((∀ text, choice ≠ .setting .query text) → g'.query = g.query) ∧
    ((∀ text, choice ≠ .setting .file text) → g'.file = g.file) ∧
    ((∀ text, choice ≠ .setting .maxCost text) → g'.costCeiling = g.costCeiling) ∧
    ((∀ text, choice ≠ .setting .maxDepth text) → g'.depthCeiling = g.depthCeiling) := by
  cases choice with
  | request =>
      simp only [take] at taken
      split at taken
      · cases taken
      · cases taken
        exact ⟨fun _ => rfl, fun _ => rfl, fun _ => rfl, fun _ => rfl, fun _ => rfl⟩
  | setting s value =>
      cases s <;> obtain ⟨-, rfl, -⟩ := once_map_eq_some taken <;>
        refine ⟨?_, ?_, ?_, ?_, ?_⟩ <;> intro other <;> first | rfl | exact absurd rfl (other value)

end Given

/-- A part of what was given, with the setting that sets it and the reader of its values. -/
structure Part (α : Type) where
  setting : Setting
  given : Given → Option α
  read : String → Option α
  unset : given .nothing = none := by rfl
  set : ∀ {g g' : Given} {text : String}, g.set setting text = some g' →
    given g = none ∧ given g' = read text ∧ (read text).isSome = true
  frame : ∀ {g g' : Given} {choice : Choice}, g.take choice = some g' →
    (∀ text, choice ≠ .setting setting text) → given g' = given g

namespace Part

def config : Part String where
  setting := .config
  given := Given.config
  read := Given.path?
  set := Given.once_map_given _ fun _ => rfl
  frame taken := (Given.take_frame taken).1

def query : Part String where
  setting := .query
  given := Given.query
  read := some
  set := Given.once_map_given _ fun _ => rfl
  frame taken := (Given.take_frame taken).2.1

def file : Part String where
  setting := .file
  given := Given.file
  read := Given.path?
  set := Given.once_map_given _ fun _ => rfl
  frame taken := (Given.take_frame taken).2.2.1

def costCeiling : Part Float where
  setting := .maxCost
  given := Given.costCeiling
  read := Decimal.ofText?
  set := Given.once_map_given _ fun _ => rfl
  frame taken := (Given.take_frame taken).2.2.2.1

def depthCeiling : Part Nat where
  setting := .maxDepth
  given := Given.depthCeiling
  read := Given.sizeOfText?
  set := Given.once_map_given _ fun _ => rfl
  frame taken := (Given.take_frame taken).2.2.2.2

variable {α : Type} (part : Part α) {g g' : Given} {choices : List Choice}

/-- What is set cannot be set again. -/
theorem given_of_isSome (taken : g.takeAll choices = some g')
    (isSet : (part.given g).isSome = true) : part.given g' = part.given g := by
  induction choices generalizing g with
  | nil => cases taken; rfl
  | cons choice rest ih =>
      obtain ⟨g₁, first, more⟩ := Option.bind_eq_some_iff.1 taken
      have other : ∀ text, choice ≠ .setting part.setting text := by
        rintro text rfl
        rw [(part.set first).1] at isSet
        cases isSet
      have kept := part.frame first other
      rw [ih more (kept ▸ isSet), kept]

theorem given_of_mem (taken : g.takeAll choices = some g') {text : String}
    (among : .setting part.setting text ∈ choices) :
    part.given g' = part.read text ∧ (part.read text).isSome = true := by
  induction choices generalizing g with
  | nil => cases among
  | cons choice rest ih =>
      obtain ⟨g₁, first, more⟩ := Option.bind_eq_some_iff.1 taken
      rcases List.mem_cons.1 among with rfl | later
      · obtain ⟨-, set, readable⟩ := part.set first
        exact ⟨(part.given_of_isSome more (set ▸ readable)).trans set, readable⟩
      · exact ih more later

theorem given_of_notMem (taken : g.takeAll choices = some g')
    (none : ∀ text, .setting part.setting text ∉ choices) : part.given g' = part.given g := by
  induction choices generalizing g with
  | nil => cases taken; rfl
  | cons choice rest ih =>
      obtain ⟨g₁, first, more⟩ := Option.bind_eq_some_iff.1 taken
      have other : ∀ text, choice ≠ .setting part.setting text := fun text same =>
        none text (same ▸ List.mem_cons_self)
      rw [ih more fun text later => none text (List.mem_cons_of_mem _ later),
        part.frame first other]

end Part

/-! ## Accepted lines -/

/-- The arguments set this to that text. -/
def Sets (arguments : List String) (s : Setting) (text : String) : Prop :=
  ∃ choices, Says choices arguments ∧ .setting s text ∈ choices

/-- The place of the configuration, if nothing else is said. -/
def defaultPath : String := "config.yaml"

/-- The path at which the arguments have the configuration. -/
def ConfigPath (arguments : List String) (path : String) : Prop :=
  Sets arguments .config path ∨ (∀ text, ¬ Sets arguments .config text) ∧ path = defaultPath

theorem eq_of_path? {text path : String} (read : Given.path? text = some path) : path = text := by
  unfold Given.path? at read
  split at read
  · cases read
  · exact (Option.some.inj read).symm

theorem options_of_invocation {g : Given} {o : Options} (made : g.invocation = .analyze o) :
    o = ⟨g.config.getD defaultPath, g.query, g.file, g.request, g.costCeiling, g.depthCeiling⟩ := by
  unfold Given.invocation at made
  split at made
  · cases made
  · cases made
    rfl

section Accepted

variable {arguments : List String} {o : Options}
  (accepted : Invocation.ofArguments arguments = .analyze o)

include accepted

/-- Whatever list of choices the line says, they make the options. -/
theorem exists_given {choices : List Choice} (line : Says choices arguments) :
    ∃ g : Given, Given.nothing.takeAll choices = some g ∧ g.invocation = .analyze o := by
  have read := (readFrom_of_line line .nothing).symm.trans accepted
  cases taken : Given.nothing.takeAll choices with
  | none => rw [taken] at read; cases read
  | some g => rw [taken] at read; exact ⟨g, rfl, read⟩

theorem Part.given_of_sets {α : Type} (part : Part α) {text : String}
    (sets : Sets arguments part.setting text) :
    ∃ g : Given, g.invocation = .analyze o ∧
      ∃ a, part.read text = some a ∧ part.given g = some a := by
  obtain ⟨choices, line, among⟩ := sets
  obtain ⟨g, taken, made⟩ := exists_given accepted line
  obtain ⟨set, readable⟩ := part.given_of_mem taken among
  obtain ⟨a, value⟩ := Option.isSome_iff_exists.1 readable
  exact ⟨g, made, a, value, set.trans value⟩

theorem Part.given_of_not_sets {α : Type} (part : Part α)
    (unset : ∀ text, ¬ Sets arguments part.setting text) :
    ∃ g : Given, g.invocation = .analyze o ∧ part.given g = none := by
  obtain ⟨choices, line⟩ := exists_choices accepted
  obtain ⟨g, taken, made⟩ := exists_given accepted line
  have kept := part.given_of_notMem taken fun text among => unset text ⟨choices, line, among⟩
  exact ⟨g, made, kept.trans part.unset⟩

/-- A part of the options is what the line sets it to, and nothing if the line does not set it. -/
theorem Part.said {α : Type} (part : Part α) {chosen : Option α}
    (same : ∀ g : Given, g.invocation = .analyze o → chosen = part.given g) :
    (∀ text, Sets arguments part.setting text →
      ∃ a, part.read text = some a ∧ chosen = some a) ∧
    ((∀ text, ¬ Sets arguments part.setting text) → chosen = none) := by
  constructor
  · intro text sets
    obtain ⟨g, made, a, value, set⟩ := part.given_of_sets accepted sets
    exact ⟨a, value, (same g made).trans set⟩
  · intro unset
    obtain ⟨g, made, none⟩ := part.given_of_not_sets accepted unset
    exact (same g made).trans none

theorem costCeiling_said :
    (∀ text, Sets arguments .maxCost text →
      ∃ x, Decimal.ofText? text = some x ∧ o.costCeiling = some x) ∧
    ((∀ text, ¬ Sets arguments .maxCost text) → o.costCeiling = none) :=
  Part.costCeiling.said accepted fun g made => by rw [options_of_invocation made]; rfl

theorem depthCeiling_said :
    (∀ text, Sets arguments .maxDepth text →
      ∃ n, Given.sizeOfText? text = some n ∧ o.depthCeiling = some n) ∧
    ((∀ text, ¬ Sets arguments .maxDepth text) → o.depthCeiling = none) :=
  Part.depthCeiling.said accepted fun g made => by rw [options_of_invocation made]; rfl

/-- A part that is read as it stands is some text exactly if the line sets it to that text. -/
theorem Part.eq_some_iff {part : Part String} {chosen : Option String}
    (plain : ∀ {text value}, part.read text = some value → value = text)
    (same : ∀ g : Given, g.invocation = .analyze o → chosen = part.given g) (text : String) :
    chosen = some text ↔ Sets arguments part.setting text := by
  obtain ⟨given, absent⟩ := part.said accepted same
  constructor
  · intro some
    by_cases any : ∃ other, Sets arguments part.setting other
    · obtain ⟨other, sets⟩ := any
      obtain ⟨value, read, set⟩ := given other sets
      cases set.symm.trans some
      cases plain read
      exact sets
    · cases (absent (not_exists.1 any)).symm.trans some
  · intro sets
    obtain ⟨value, read, set⟩ := given text sets
    cases plain read
    exact set

theorem query_eq_some_iff (text : String) : o.query = some text ↔ Sets arguments .query text :=
  Part.query.eq_some_iff accepted (fun read => (Option.some.inj read).symm)
    (fun g made => by rw [options_of_invocation made]; rfl) text

theorem file_eq_some_iff (path : String) : o.file = some path ↔ Sets arguments .file path :=
  Part.file.eq_some_iff accepted eq_of_path?
    (fun g made => by rw [options_of_invocation made]; rfl) path

theorem configPath_iff (path : String) : ConfigPath arguments path ↔ path = o.config := by
  have of_sets : ∀ {text}, Sets arguments .config text → o.config = text := by
    intro text sets
    obtain ⟨g, made, value, read, set⟩ := Part.config.given_of_sets accepted sets
    have given : g.config = some value := set
    rw [options_of_invocation made, given, eq_of_path? read]
    rfl
  constructor
  · rintro (sets | ⟨unset, rfl⟩)
    · exact (of_sets sets).symm
    · obtain ⟨g, made, none⟩ := Part.config.given_of_not_sets accepted unset
      have absent : g.config = Option.none := none
      rw [options_of_invocation made, absent]
      rfl
  · rintro rfl
    by_cases any : ∃ text, Sets arguments .config text
    · obtain ⟨text, sets⟩ := any
      rw [of_sets sets]
      exact .inl sets
    · obtain ⟨g, made, none⟩ := Part.config.given_of_not_sets accepted (not_exists.1 any)
      have absent : g.config = Option.none := none
      refine .inr ⟨not_exists.1 any, ?_⟩
      rw [options_of_invocation made, absent]
      rfl

end Accepted

end QueryCost.CommandLine
