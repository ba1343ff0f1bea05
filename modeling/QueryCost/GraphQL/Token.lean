/-
# QueryCost.GraphQL.Token -- the tokens of GraphQL text

A token is a punctuator, a name, a number or a string; it keeps the text that it
was written with.  Text that starts no token is `stray`.  How far stray text goes
matters as well, because a look ahead passes over it: a number or a string that is
spoilt is stray as a whole, so its extent is told together with whether it is
well formed.
-/
namespace QueryCost.GraphQL

set_option autoImplicit false

inductive Punctuator
  | bang | dollar | ampersand | parenLeft | parenRight | spread | colon | equals | at
  | bracketLeft | bracketRight | braceLeft | braceRight | pipe
  deriving DecidableEq, Repr

def Punctuator.text : Punctuator → String
  | .bang => "!"
  | .dollar => "$"
  | .ampersand => "&"
  | .parenLeft => "("
  | .parenRight => ")"
  | .spread => "..."
  | .colon => ":"
  | .equals => "="
  | .at => "@"
  | .bracketLeft => "["
  | .bracketRight => "]"
  | .braceLeft => "\x7b"
  | .braceRight => "\x7d"
  | .pipe => "|"

inductive Token
  | punctuator (p : Punctuator)
  | name (text : String)
  | number (text : String)
  | string (text : String)
  | stray
  deriving DecidableEq, Repr

namespace Token

/-- The token as it is written; stray text is not kept. -/
def text : Token → String
  | .punctuator p => p.text
  | .name text => text
  | .number text => text
  | .string text => text
  | .stray => ""

/-! ## Character classes -/

def isNameStart (c : Char) : Bool :=
  c.isAlpha || c = '_'

def isNameChar (c : Char) : Bool :=
  c.isAlphanum || c = '_'

/-- Skipped between tokens, as is a comma. -/
def isBlank (c : Char) : Bool :=
  c = ' ' || c = '\t' || c = '\n' || c = '\r' || c = '\ufeff'

def isLineBreak (c : Char) : Bool :=
  c = '\n' || c = '\r'

end Token

/-- How far a part of a text goes, and whether it is well formed. -/
structure Extent where
  wellFormed : Bool
  length : Nat
  deriving DecidableEq, Repr

end QueryCost.GraphQL
