/-
# QueryCost.Text.Digits -- digit strings and the numbers they name

Positional notation in a base of at most sixteen.  A digit string names a number
most significant digit first; the empty string names zero, so readers that need
a digit ask for one themselves.
-/
namespace QueryCost.Text

set_option autoImplicit false

/-- The value of a hexadecimal digit, in either case. -/
def hexDigit? (c : Char) : Option Nat :=
  if '0' ≤ c ∧ c ≤ '9' then some (c.toNat - '0'.toNat)
  else if 'a' ≤ c ∧ c ≤ 'f' then some (c.toNat - 'a'.toNat + 10)
  else if 'A' ≤ c ∧ c ≤ 'F' then some (c.toNat - 'A'.toNat + 10)
  else none

def isHexDigit (c : Char) : Bool :=
  (hexDigit? c).isSome

/-- The number a digit string names in the given base; nothing if a digit does not belong to it. -/
def ofDigits? (base : Nat) (digits : List Char) : Option Nat :=
  digits.foldl
    (fun acc c => acc.bind fun n =>
      (hexDigit? c).bind fun d => if d < base then some (n * base + d) else none)
    (some 0)

/-- The number a string of decimal digits names; characters that are no digits count as zero. -/
def ofDecimalDigits (digits : List Char) : Nat :=
  (ofDigits? 10 digits).getD 0

/-- The decimal digits of a number, most significant first, without leading zeros. -/
def decimalDigits (n : Nat) : List Char :=
  Nat.toDigits 10 n

def decimal (n : Nat) : String :=
  String.ofList (decimalDigits n)

end QueryCost.Text
