/-
# QueryCost.GraphQL.Token.Quoted -- how far a string goes

A string stands on one line between quotes, or as a block between three of them.
In a string of one line a line break spoils it, unless it is the first character,
and so does an escape that stands for no character.  A string that is spoilt goes to
its closing quote all the same; one that is never closed goes to the end of the
text.
-/
import QueryCost.GraphQL.Token
import QueryCost.Text.Utf16

namespace QueryCost.GraphQL.Token

open QueryCost.Text

set_option autoImplicit false

/-! ## Escapes -/

/-- The length of an escape after its backslash.  Surrogates come in pairs. -/
def escapeLength? : List Char → Option Nat
  | 'u' :: '\x7b' :: rest => do
      let digits := rest.takeWhile isHexDigit
      let value ← ofDigits? 16 digits
      if !digits.isEmpty && value.isValidChar && rest[digits.length]? = some '\x7d' then
        some (digits.length + 3)
      else none
  | 'u' :: rest => do
      let unit ← codeUnit? rest
      if isLeadSurrogate unit then
        match rest.drop 4 with
        | '\\' :: 'u' :: rest =>
            let unit ← codeUnit? rest
            if isTrailSurrogate unit then some 11 else none
        | _ => none
      else if isTrailSurrogate unit then none
      else some 5
  | c :: _ => if c ∈ ['"', '\\', '/', 'b', 'f', 'n', 'r', 't'] then some 1 else none
  | [] => none

/-- The length of an escape that stands for no character: four digits are taken whole, of anything
else the part that fits and the character that does not, except for a quote. -/
def brokenEscapeLength : List Char → Nat
  | 'u' :: rest =>
      let (opening, digits) := match rest with
        | '\x7b' :: rest => (2, rest.takeWhile isHexDigit)
        | rest => (1, (rest.take 4).takeWhile isHexDigit)
      let fitting := opening + digits.length
      if fitting = 5 && opening = 1 || rest[fitting - 1]? = some '"' then fitting else fitting + 1
  | _ => 1

def escapeExtent (cs : List Char) : Extent :=
  match escapeLength? cs with
  | some n => ⟨true, n⟩
  | none => ⟨false, brokenEscapeLength cs⟩

/-! ## Strings -/

/-- The extent of a string of one line, closing quote included, after `taken` of its characters. -/
def lineStringFrom (wellFormed : Bool) (taken : Nat) : List Char → Extent
  | [] => ⟨false, taken⟩
  | '"' :: _ => ⟨wellFormed, taken + 1⟩
  | '\\' :: rest =>
      let e := escapeExtent rest
      lineStringFrom (wellFormed && e.wellFormed) (taken + 1 + e.length) (rest.drop e.length)
  | c :: rest => lineStringFrom (wellFormed && !isLineBreak c) (taken + 1) rest
termination_by cs => cs.length
decreasing_by
  · rw [List.length_drop]
    exact Nat.lt_succ_of_le (Nat.sub_le _ _)
  · exact Nat.lt_succ_self _

/-- The extent of a string of one line, given what stands behind its opening quote. -/
def lineStringExtent : List Char → Extent
  | c :: rest =>
      if isLineBreak c then lineStringFrom true 2 rest else lineStringFrom true 1 (c :: rest)
  | [] => ⟨false, 1⟩

/-- The extent of a block string, closing quotes included, after `taken` of its characters. -/
def blockStringFrom (taken : Nat) : List Char → Extent
  | [] => ⟨false, taken⟩
  | '"' :: '"' :: '"' :: _ => ⟨true, taken + 3⟩
  | '\\' :: '"' :: '"' :: '"' :: rest => blockStringFrom (taken + 4) rest
  | _ :: rest => blockStringFrom (taken + 1) rest

/-- The extent of a string, given what stands behind its first quote. -/
def stringExtent : List Char → Extent
  | '"' :: '"' :: rest => blockStringFrom 3 rest
  | rest => lineStringExtent rest

end QueryCost.GraphQL.Token
