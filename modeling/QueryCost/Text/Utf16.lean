/-
# QueryCost.Text.Utf16 -- code units written with four hexadecimal digits

A character beyond the first 65536 is written as a pair of surrogates, a lead and
a trail; a surrogate outside such a pair stands for no character.
-/
import QueryCost.Text.Digits

namespace QueryCost.Text

set_option autoImplicit false

def isLeadSurrogate (unit : Nat) : Bool :=
  0xD800 ≤ unit && unit < 0xDC00

def isTrailSurrogate (unit : Nat) : Bool :=
  0xDC00 ≤ unit && unit < 0xE000

/-- The character of a pair of surrogates. -/
def ofSurrogates (lead trail : Nat) : Char :=
  Char.ofNat (0x10000 + (lead - 0xD800) * 0x400 + (trail - 0xDC00))

/-- The code unit that four hexadecimal digits name. -/
def codeUnit? : List Char → Option Nat
  | a :: b :: c :: d :: _ => ofDigits? 16 [a, b, c, d]
  | _ => none

end QueryCost.Text
