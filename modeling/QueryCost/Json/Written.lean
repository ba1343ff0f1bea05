/-
# QueryCost.Json.Written -- a JSON value as it is written

The tree of a JSON text before its leaves are decoded: numerals as they are
spelled, strings that may denote no text, the members of an object with all
repetitions.  What a reader of records does not look at it need not decode.

The tree is built in one pass over the tokens.  The arrays and objects that are
open form a stack; each token either fits the state or ends the reading, and the
first token that completes the outermost value hands it over with the tokens that
are left.  A ceiling on the height of the stack bounds nesting.
-/
import QueryCost.Json.Token

namespace QueryCost.Json

set_option autoImplicit false

inductive Written
  | null
  | boolean (b : Bool)
  | number (numeral : Decimal.Numeral)
  | string (text : Option String)
  | array (items : List Written)
  | object (members : List (Option String × Written))

namespace Written

/-- An open array or object with what it holds so far, last first. -/
inductive Frame
  | array (items : List Written)
  | object (members : List (Option String × Written)) (name : Option String)

/-- What may come next. -/
inductive Place
  /-- A value. -/
  | value
  /-- The first item of an array, or its end. -/
  | firstItem
  /-- The first member of an object, or its end. -/
  | firstMember (members : List (Option String × Written))
  /-- Another member of an object. -/
  | member (members : List (Option String × Written))
  | colon (members : List (Option String × Written)) (name : Option String)
  /-- What follows a completed item or member. -/
  | afterItem

/-- The place, and the frames around it, innermost first. -/
structure State where
  place : Place
  frames : List Frame

inductive Step
  | done (value : Written)
  | more (state : State)

/-- Put a completed value into the innermost frame. -/
def complete (v : Written) : List Frame → Step
  | [] => .done v
  | .array items :: frames => .more ⟨.afterItem, .array (v :: items) :: frames⟩
  | .object members name :: frames =>
      .more ⟨.afterItem, .object ((name, v) :: members) none :: frames⟩

/-- Open an array or an object, if the ceiling allows one more. -/
def opened (ceiling : Option Nat) (frames : List Frame) (state : State) : Option Step :=
  if ceiling.any (· ≤ frames.length) then none else some (.more state)

/-- Take the token that starts a value. -/
def startValue (ceiling : Option Nat) (frames : List Frame) : Token → Option Step
  | .null => some (complete .null frames)
  | .boolean b => some (complete (.boolean b) frames)
  | .number numeral => some (complete (.number numeral) frames)
  | .string text => some (complete (.string text) frames)
  | .bracketLeft => opened ceiling frames ⟨.firstItem, .array [] :: frames⟩
  | .braceLeft => opened ceiling frames ⟨.firstMember [], frames⟩
  | _ => none

def step (ceiling : Option Nat) (s : State) (t : Token) : Option Step :=
  match s.place, s.frames, t with
  | .value, frames, t => startValue ceiling frames t
  | .firstItem, .array _ :: frames, .bracketRight => some (complete (.array []) frames)
  | .firstItem, frames, t => startValue ceiling frames t
  | .firstMember _, frames, .braceRight => some (complete (.object []) frames)
  | .firstMember members, frames, .string name => some (.more ⟨.colon members name, frames⟩)
  | .member members, frames, .string name => some (.more ⟨.colon members name, frames⟩)
  | .colon members name, frames, .colon =>
      some (.more ⟨.value, .object members name :: frames⟩)
  | .afterItem, .array items :: frames, .comma => some (.more ⟨.value, .array items :: frames⟩)
  | .afterItem, .array items :: frames, .bracketRight =>
      some (complete (.array items.reverse) frames)
  | .afterItem, .object members _ :: frames, .comma => some (.more ⟨.member members, frames⟩)
  | .afterItem, .object members _ :: frames, .braceRight =>
      some (complete (.object members.reverse) frames)
  | _, _, _ => none

/-- Read the rest of a value from a state on. -/
def readFrom (ceiling : Option Nat) (s : State) : List Token → Option (Written × List Token)
  | [] => none
  | t :: ts =>
      match step ceiling s t with
      | some (.done v) => some (v, ts)
      | some (.more s) => readFrom ceiling s ts
      | none => none

/-- Read one value, and answer what follows it.  No more than `ceiling` arrays and objects may
stand in each other. -/
def read? (ceiling : Option Nat) (ts : List Token) : Option (Written × List Token) :=
  readFrom ceiling ⟨.value, []⟩ ts

/-- The value that a whole text is. -/
def ofText? (ceiling : Option Nat) (text : List Char) : Option Written :=
  match read? ceiling (Token.scan text) with
  | some (v, []) => some v
  | _ => none

end Written

end QueryCost.Json
