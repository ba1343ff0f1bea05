/-
# QueryCost.Json.Writer -- JSON text of a value

Two forms are written: one without any blanks, and one with an item or a member
on a line of its own, indented by two blanks a level.  In strings only the quote,
the backslash and control characters are escaped.  A double is written with the
fewest digits that read back, and one that is not finite as `null`.
-/
import QueryCost.Decimal.Layout
import QueryCost.Json

namespace QueryCost.Json

set_option autoImplicit false

/-! ## Strings -/

def hexCharacter (n : Nat) : Char :=
  if n < 10 then Char.ofNat ('0'.toNat + n) else Char.ofNat ('a'.toNat + (n - 10))

/-- A character as it stands in a string. -/
def escape (c : Char) : List Char :=
  if c = '"' then ['\\', '"']
  else if c = '\\' then ['\\', '\\']
  else if c = '\x08' then ['\\', 'b']
  else if c = '\t' then ['\\', 't']
  else if c = '\n' then ['\\', 'n']
  else if c = '\x0c' then ['\\', 'f']
  else if c = '\r' then ['\\', 'r']
  else if c < ' ' then
    ['\\', 'u', '0', '0', hexCharacter (c.toNat / 16), hexCharacter (c.toNat % 16)]
  else [c]

def quote (s : String) : String :=
  "\"" ++ String.ofList (s.toList.flatMap escape) ++ "\""

/-! ## Numbers -/

def integerText (n : Int) : String :=
  (if n < 0 then "-" else "") ++ Text.decimal n.natAbs

/-! ## Without blanks -/

mutual

def compact : Json → String
  | .null => "null"
  | .boolean b => if b then "true" else "false"
  | .integer n => integerText n
  | .double x => Decimal.jsonText x
  | .string s => quote s
  | .array items => "[" ++ compactItems items ++ "]"
  | .object members => "\x7b" ++ compactMembers members ++ "\x7d"

def compactItems : List Json → String
  | [] => ""
  | [item] => compact item
  | item :: rest => compact item ++ "," ++ compactItems rest

def compactMembers : List (String × Json) → String
  | [] => ""
  | [(name, value)] => quote name ++ ":" ++ compact value
  | (name, value) :: rest => quote name ++ ":" ++ compact value ++ "," ++ compactMembers rest

end

/-! ## Indented -/

def newLine (level : Nat) : String :=
  "\n" ++ String.ofList (List.replicate (2 * level) ' ')

mutual

def indented (level : Nat) : Json → String
  | .null => "null"
  | .boolean b => if b then "true" else "false"
  | .integer n => integerText n
  | .double x => Decimal.jsonText x
  | .string s => quote s
  | .array [] => "[]"
  | .array items => "[" ++ indentedItems (level + 1) items ++ newLine level ++ "]"
  | .object [] => "\x7b\x7d"
  | .object members => "\x7b" ++ indentedMembers (level + 1) members ++ newLine level ++ "\x7d"

def indentedItems (level : Nat) : List Json → String
  | [] => ""
  | [item] => newLine level ++ indented level item
  | item :: rest => newLine level ++ indented level item ++ "," ++ indentedItems level rest

def indentedMembers (level : Nat) : List (String × Json) → String
  | [] => ""
  | [(name, value)] => newLine level ++ quote name ++ ": " ++ indented level value
  | (name, value) :: rest =>
      newLine level ++ quote name ++ ": " ++ indented level value ++ ","
        ++ indentedMembers level rest

end

/-- The value on lines of its own. -/
def pretty (j : Json) : String :=
  indented 0 j

end QueryCost.Json
