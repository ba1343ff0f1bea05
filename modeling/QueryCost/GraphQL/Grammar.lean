/-
# QueryCost.GraphQL.Grammar -- readers of lexemes

A reader takes lexemes from the front of a list and answers what they denote, or
a fault at the first lexeme that does not fit.  Readers are composed in the order
of the grammar; which one comes next is decided by the next lexeme, in a few
places by the one after it.  A look at the one after it passes over stray lexemes,
as over blanks; the reader that comes to them faults there.

Repetition goes on only while lexemes are taken, so it ends; their number is kept
with them, so that this is seen without counting them again.  Nesting is bounded:
a reader of nested text is given the number of levels that are left, and where
none is left it faults at the lexeme where the next level would begin.
-/
import QueryCost.GraphQL.Lexeme

namespace QueryCost.GraphQL

set_option autoImplicit false

inductive Cause
  /-- A lexeme that does not fit the grammar, or none where one is needed. -/
  | unexpected
  | tooDeep
  deriving DecidableEq, Repr

/-- Why and where a text stops fitting the grammar; no place means the end of the text. -/
structure Fault where
  cause : Cause
  place : Option Nat
  deriving DecidableEq, Repr

/-- The lexemes that are left, and how many there are. -/
structure Lexemes where
  toList : List Lexeme
  size : Nat
  size_eq : size = toList.length

namespace Lexemes

def ofList (ls : List Lexeme) : Lexemes :=
  ⟨ls, ls.length, rfl⟩

def head? (s : Lexemes) : Option Lexeme :=
  s.toList.head?

def tail (s : Lexemes) : Lexemes :=
  ⟨s.toList.tail, s.size - 1, by rw [List.length_tail, s.size_eq]⟩

/-- The first token that is not stray, unless a comma stands in front of it or on the way to it. -/
def firstSound? : List Lexeme → Option Token
  | [] => none
  | l :: rest =>
      if l.afterComma then none
      else if l.token = .stray then firstSound? rest
      else some l.token

end Lexemes

abbrev Grammar (α : Type) : Type :=
  StateT Lexemes (Except Fault) α

/-- The levels of nesting that a text may have. -/
def nestingLimit : Nat := 500

namespace Grammar

variable {α : Type}

/-! ## One lexeme -/

def faultHere (cause : Cause) : Grammar α := fun s =>
  .error ⟨cause, s.head?.map (·.offset)⟩

/-- The next lexeme does not fit. -/
def unexpected : Grammar α :=
  faultHere .unexpected

def next? : Grammar (Option Token) := fun s =>
  .ok (s.head?.map (·.token), s)

/-- The token after the next one, past stray ones, unless a comma comes first. -/
def second? : Grammar (Option Token) := fun s =>
  .ok (Lexemes.firstSound? s.tail.toList, s)

def advance : Grammar Unit := fun s =>
  .ok ((), s.tail)

def sees (p : Punctuator) : Grammar Bool := do
  return (← next?) == some (.punctuator p)

def seesName (text : String) : Grammar Bool := do
  return (← next?) == some (.name text)

def expect (p : Punctuator) : Grammar Unit := do
  if ← sees p then advance else unexpected

def expectName (text : String) : Grammar Unit := do
  if ← seesName text then advance else unexpected

def name : Grammar String := do
  match ← next? with
  | some (.name text) => do
      advance
      return text
  | _ => unexpected

/-! ## Choice and repetition -/

/-- Read an item if the next token starts one. -/
def optionally (starts : Token → Bool) (item : Grammar α) : Grammar (Option α) := do
  if (← next?).any starts then some <$> item else return none

/-- Read items for as long as the next token starts one. -/
def many (starts : Token → Bool) (item : Grammar α) : Grammar (List α)
  | s =>
      if s.head?.any (starts ·.token) then
        match item s with
        | .error fault => .error fault
        | .ok (a, rest) =>
            if rest.size < s.size then
              match many starts item rest with
              | .error fault => .error fault
              | .ok (as, rest) => .ok (a :: as, rest)
            else .ok ([a], rest)
      else .ok ([], s)
termination_by s => s.size
decreasing_by assumption

def many1 (starts : Token → Bool) (item : Grammar α) : Grammar (List α) := do
  let first ← item
  let others ← many starts item
  return first :: others

/-- Items between two punctuators, at least one. -/
def enclosed (left : Punctuator) (starts : Token → Bool) (item : Grammar α)
    (right : Punctuator) : Grammar (List α) := do
  expect left
  let items ← many1 starts item
  expect right
  return items

/-! ## Starts -/

def isPunctuator (p : Punctuator) (t : Token) : Bool :=
  t == .punctuator p

def isName : Token → Bool
  | .name _ => true
  | _ => false

def isString : Token → Bool
  | .string _ => true
  | _ => false

def isNamed (text : String) (t : Token) : Bool :=
  t == .name text

end Grammar

end QueryCost.GraphQL
