/-
# QueryCost.GraphQL.Token.Number -- how far a number goes

A number is a strict numeral that neither a name nor a point follows.  Text that
starts like one but is none goes as far as a number could still come of it, and one
character further: the one that spoils it.
-/
import QueryCost.Decimal.Numeral
import QueryCost.GraphQL.Token

namespace QueryCost.GraphQL.Token

set_option autoImplicit false

/-- The length of a number; what follows it must not be taken for a part of it. -/
def numberLength? (cs : List Char) : Option Nat := do
  let (numeral, rest) ← Decimal.Numeral.read? cs
  if rest.head?.any (fun c => isNameChar c || c = '.') then none else some numeral.text.length

/-! ## Unfinished numbers -/

def digitCount (cs : List Char) : Nat :=
  (cs.takeWhile Char.isDigit).length

/-- Of an exponent its mark, its sign and its digits, as far as they are there. -/
def unfinishedExponent : List Char → Nat
  | c :: rest =>
      if c = 'e' || c = 'E' then
        match rest with
        | '+' :: rest => 2 + digitCount rest
        | '-' :: rest => 2 + digitCount rest
        | rest => 1 + digitCount rest
      else 0
  | [] => 0

/-- Of what follows the digits in front of a point.  An exponent needs digits behind the point. -/
def unfinishedFraction : List Char → Nat
  | '.' :: rest =>
      match digitCount rest with
      | 0 => 1
      | n => 1 + n + unfinishedExponent (rest.drop n)
  | rest => unfinishedExponent rest

/-- Of a number behind its sign.  After a zero no digit may come. -/
def unfinishedMagnitude (cs : List Char) : Nat :=
  match if cs.head? = some '0' then 1 else digitCount cs with
  | 0 => 0
  | n => n + unfinishedFraction (cs.drop n)

/-- The length of the longest start of a text that some number starts with. -/
def unfinishedNumber : List Char → Nat
  | '-' :: rest => 1 + unfinishedMagnitude rest
  | rest => unfinishedMagnitude rest

/-! ## Both -/

/-- The extent of a text that starts with a digit or a minus sign. -/
def numberExtent (cs : List Char) : Extent :=
  match numberLength? cs with
  | some n => ⟨true, n⟩
  | none => ⟨false, unfinishedNumber cs + 1⟩

end QueryCost.GraphQL.Token
