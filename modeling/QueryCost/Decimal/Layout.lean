/-
# QueryCost.Decimal.Layout -- how a double is spelled

The digits of a double are the shortest that read back (`Decimal.Shortest`); a
layout says how they are set down.  JSON text and messages each have one.  In JSON
an amount always shows a point or an exponent, and magnitudes outside a window are
written with an exponent; in messages an amount is always written out in full and a
whole amount shows no point.  They also differ in which of two equally near
decimals they take: `5 * 2 ^ -23` ends in 2 in JSON and in 3 in messages.
-/
import QueryCost.Decimal.Shortest

namespace QueryCost.Decimal

set_option autoImplicit false

/-- The decisions of a number format. -/
structure Layout where
  /-- Exponents of ten of the first digit that are written out in full. -/
  positional : Int → Bool
  /-- What stands after the digits of a whole amount. -/
  wholeSuffix : String
  /-- The digits of a double that lies halfway between two of the shortest decimals. -/
  tie : Tie
  nan : String
  infinity : String

namespace Layout

/-- Written out from 0.00001 up to below ten to the sixteenth. -/
def json : Layout where
  positional leading := -5 ≤ leading && leading < 16
  wholeSuffix := ".0"
  tie := .even
  nan := "null"
  infinity := "null"

/-- Always written out. -/
def message : Layout where
  positional _ := true
  wholeSuffix := ""
  tie := .greater
  nan := "NaN"
  infinity := "inf"

end Layout

/-- Digits without zeros at their end. -/
def trimZeros (digits : List Char) : List Char :=
  (digits.reverse.dropWhile (· = '0')).reverse

/-- The digits with a point set so that the first has the weight `10 ^ leading`. -/
def setPoint (layout : Layout) (digits : List Char) (leading : Int) : String :=
  if leading < 0 then
    "0." ++ String.ofList (List.replicate (-leading - 1).toNat '0' ++ digits)
  else
    let places := leading.toNat + 1
    if digits.length ≤ places then
      String.ofList (digits ++ List.replicate (places - digits.length) '0') ++ layout.wholeSuffix
    else
      String.ofList (digits.take places) ++ "." ++ String.ofList (digits.drop places)

/-- One digit, a point if more follow, and the exponent with its sign. -/
def setExponent (digits : List Char) (leading : Int) : String :=
  let fraction := digits.drop 1
  String.ofList (digits.take 1)
    ++ (if fraction.isEmpty then "" else "." ++ String.ofList fraction)
    ++ (if leading < 0 then "e-" else "e+")
    ++ String.ofList (Text.decimalDigits leading.natAbs)

/-- The text of a positive magnitude. -/
def spellMagnitude (layout : Layout) (d : Dyadic) : String :=
  let shortest := d.shortest layout.tie
  let written := Text.decimalDigits shortest.digits
  let leading := shortest.exponent + written.length - 1
  let digits := trimZeros written
  if layout.positional leading then setPoint layout digits leading
  else setExponent digits leading

/-- The text of a double. -/
def spell (layout : Layout) (x : Float) : String :=
  match Reading.ofFloat x with
  | .nan => layout.nan
  | .infinite negative =>
      if negative && layout.infinity != layout.nan then "-" ++ layout.infinity
      else layout.infinity
  | .finite negative d =>
      (if negative then "-" else "")
        ++ (if d.mantissa = 0 then "0" ++ layout.wholeSuffix else spellMagnitude layout d)

/-- The text of a double in JSON, where infinities and what is no number have none of their own. -/
def jsonText (x : Float) : String :=
  spell .json x

/-- The text of a double in a message. -/
def messageText (x : Float) : String :=
  spell .message x

end QueryCost.Decimal
