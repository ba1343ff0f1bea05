/-
# QueryCost.GraphQL.Lexeme -- tokens where they stand in a text

A text is cut into lexemes from its start to its end.  Blanks, line breaks, byte
order marks, comments and commas stand between tokens and are skipped, but a lexeme
remembers whether a comma stood in front of it, because a look at the token after
the next one stops at a comma.

Every token is the longest one that starts where it stands.  Where none starts a
`stray` lexeme takes at least one character, so each lexeme leaves less text.
-/
import QueryCost.GraphQL.Token.Number
import QueryCost.GraphQL.Token.Quoted
import QueryCost.Text.Utf8

namespace QueryCost.GraphQL

open QueryCost.Text.Utf8 (byteLength)

set_option autoImplicit false

namespace Token

def punctuator? : Char → Option Punctuator
  | '!' => some .bang
  | '$' => some .dollar
  | '&' => some .ampersand
  | '(' => some .parenLeft
  | ')' => some .parenRight
  | ':' => some .colon
  | '=' => some .equals
  | '@' => some .at
  | '[' => some .bracketLeft
  | ']' => some .bracketRight
  | '\x7b' => some .braceLeft
  | '\x7d' => some .braceRight
  | '|' => some .pipe
  | _ => none

/-- The token that starts with a point and goes on behind it, and its length.  Two points are stray;
so is a single one, together with the character behind it. -/
def readPoints : List Char → Token × Nat
  | '.' :: '.' :: _ => (.punctuator .spread, 3)
  | _ => (.stray, 2)

/-- The token of a part of a text, and its length; a part that is spoilt is stray. -/
def ofExtent (make : String → Token) (e : Extent) (cs : List Char) : Token × Nat :=
  (if e.wellFormed then make (String.ofList (cs.take e.length)) else .stray, e.length)

/-- The token that a character and the text behind it start with, and its length. -/
def read (c : Char) (rest : List Char) : Token × Nat :=
  match punctuator? c with
  | some p => (.punctuator p, 1)
  | none =>
      if isNameStart c then
        let text := c :: rest.takeWhile isNameChar
        (.name (String.ofList text), text.length)
      else if c = '.' then readPoints rest
      else if c = '"' then ofExtent .string (stringExtent rest) (c :: rest)
      else if c.isDigit || c = '-' then ofExtent .number (numberExtent (c :: rest)) (c :: rest)
      else (.stray, 1)

end Token

/-- A token where it stands in a text. -/
structure Lexeme where
  token : Token
  /-- The bytes of the text in front of it. -/
  offset : Nat
  /-- Whether a comma stands between it and the token before. -/
  afterComma : Bool
  deriving DecidableEq, Repr

namespace Lexeme

/-- The lexemes of a text that starts at a byte offset. -/
def scan (offset : Nat) (afterComma : Bool) : List Char → List Lexeme
  | [] => []
  | c :: rest =>
      if c = ',' then scan (offset + 1) true rest
      else if Token.isBlank c then scan (offset + c.utf8Size) afterComma rest
      else if c = '#' then
        let comment := rest.takeWhile (fun c => !Token.isLineBreak c)
        scan (offset + 1 + byteLength comment) afterComma (rest.drop comment.length)
      else
        let (token, n) := Token.read c rest
        ⟨token, offset, afterComma⟩ ::
          scan (offset + byteLength ((c :: rest).take n)) false (rest.drop (n - 1))
termination_by cs => cs.length
decreasing_by
  · exact Nat.lt_succ_self _
  · exact Nat.lt_succ_self _
  · rw [List.length_drop]
    exact Nat.lt_succ_of_le (Nat.sub_le _ _)
  · rw [List.length_drop]
    exact Nat.lt_succ_of_le (Nat.sub_le _ _)

def ofText (text : String) : List Lexeme :=
  scan 0 false text.toList

end Lexeme

end QueryCost.GraphQL
