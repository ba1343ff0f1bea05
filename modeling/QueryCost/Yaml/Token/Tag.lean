/-
# QueryCost.Yaml.Token.Tag -- reading tags, anchors and directives

A tag is written with a handle and a suffix, with a suffix alone, or in full
between angle brackets; the suffix of a tag may have characters escaped by their
octets.  The octets must come in groups as UTF-8 forms them, but a group need not
stand for a character.  An escaped NUL ends the tag, though not its reading.  A line that starts with a percent sign is a directive: it gives the
version of YAML or the expansion of a handle.
-/
import QueryCost.Text.Digits
import QueryCost.Yaml.Cursor
import QueryCost.Yaml.Token

namespace QueryCost.Yaml

open QueryCost.Text

set_option autoImplicit false

/-! ## Anchors -/

/-- The name of an anchor or an alias. -/
def readAnchorName (c : Cursor) : Option (String × Cursor) :=
  let (name, c) := c.takeWhile isWordChar
  if name.isEmpty then none
  else if c.spaceAt 0 || c.starts (· ∈ ['?', ':', ',', ']', '\x7d', '%', '@', '\x60']) then
    some (String.ofList name, c)
  else none

/-! ## Tags -/

/-- The value of an octet that is written with a percent sign. -/
def octet? : List Char → Option Nat
  | '%' :: a :: b :: _ => ofDigits? 16 [a, b]
  | _ => none

/-- The number of octets of a character that starts with this one, and the bits of it that count. -/
def octetLead? (n : Nat) : Option (Nat × Nat) :=
  if n < 0x80 then some (1, n)
  else if n / 32 = 6 then some (2, n % 32)
  else if n / 16 = 14 then some (3, n % 16)
  else if n / 8 = 30 then some (4, n % 8)
  else none

/-- Read so many further octets. -/
def readTrails (value : Nat) (cs : List Char) : Nat → Option Nat
  | 0 => some value
  | n + 1 => do
      let o ← octet? cs
      if o / 64 = 2 then readTrails (value * 64 + o % 64) (cs.drop 3) n else none

/-- The character that a group of octets stands for: there is one if the group is the shortest for
its value and the value is not that of a surrogate or too great. -/
def ofOctets? (width value : Nat) : Option Char :=
  if value.isValidChar && (Char.ofNat value).utf8Size = width then some (Char.ofNat value) else none

/-- The character, if there is one, that is written by a group of octets, and the length of that. -/
def octets? (cs : List Char) : Option (Option Char × Nat) := do
  let (width, value) ← octetLead? (← octet? cs)
  let value ← readTrails value (cs.drop 3) (width - 1)
  return (ofOctets? width value, 3 * width)

def isTagChar (full : Bool) (c : Char) : Bool :=
  isWordChar c
    || c ∈ [';', '/', '?', ':', '@', '&', '=', '+', '$', '.', '%', '!', '~', '*', '\'', '(', ')']
    || (full && c ∈ [',', '[', ']'])

/-- The characters of a tag from here on, last first; nothing stands for octets without one. -/
def readTagChars (full : Bool) (done : List (Option Char)) (c : Cursor) :
    Option (List (Option Char) × Cursor) :=
  match _h : c.rest with
  | [] => some (done, c)
  | ch :: rest =>
      if !isTagChar full ch then some (done, c)
      else if ch = '%' then
        match octets? (ch :: rest) with
        | some (e, n + 1) => readTagChars full (e :: done) (c.skip (n + 1))
        | _ => none
      else readTagChars full (some ch :: done) (c.skip 1)
termination_by c.left
decreasing_by all_goals exact Cursor.left_skip_lt _h _

/-- The tag of the characters that were read, in their order, up to a NUL. -/
def Tag.ofCharacters (cs : List (Option Char)) : Tag :=
  match (cs.takeWhile (· != some '\x00')).mapM id with
  | some cs => .text (String.ofList cs)
  | none => .unreadable

/-- A tag that is written with at least one character. -/
def readTagText (full : Bool) (c : Cursor) : Option (Tag × Cursor) := do
  let (chars, c) ← readTagChars full [] c
  if chars.isEmpty then none else some (.ofCharacters chars.reverse, c)

/-- An exclamation mark, with a name and a second mark if they are there. -/
def readHandle (c : Cursor) : Option (List Char × Cursor) :=
  if c.at? '!' then
    let (name, c) := (c.skip 1).takeWhile isWordChar
    if c.at? '!' then some ('!' :: name ++ ['!'], c.skip 1) else some ('!' :: name, c)
  else none

/-- A tag as it stands in front of a node.  Where nothing is left of the suffix that follows a mark,
the mark is the tag. -/
def readTag (c : Cursor) : Option (Token × Cursor) := do
  if (c.skip 1).at? '<' then
    let (suffix, c) ← readTagText true (c.skip 2)
    if c.at? '>' then some (.tag "" suffix, c.skip 1) else none
  else
    let (handle, c) ← readHandle c
    if 1 < handle.length && handle.getLast? == some '!' then
      let (suffix, c) ← readTagText false c
      some (.tag (String.ofList handle) suffix, c)
    else
      let (chars, c) ← readTagChars false ((handle.drop 1).reverse.map some) c
      let suffix := Tag.ofCharacters chars.reverse
      if suffix = .text "" then some (.tag "" (.text "!"), c) else some (.tag "!" suffix, c)

/-! ## Directives -/

/-- A number of at most nine digits. -/
def readVersionNumber (c : Cursor) : Option (Nat × Cursor) :=
  let (digits, c) := c.takeWhile Char.isDigit
  if digits.isEmpty || 9 < digits.length then none else some (ofDecimalDigits digits, c)

def readVersion (c : Cursor) : Option (Token × Cursor) := do
  let (major, c) ← readVersionNumber (c.skipWhile isBlank)
  if c.at? '.' then
    let (minor, c) ← readVersionNumber (c.skip 1)
    some (.versionDirective major minor, c)
  else none

def readTagExpansion (c : Cursor) : Option (Token × Cursor) := do
  let (handle, c) ← readHandle (c.skipWhile isBlank)
  if 1 < handle.length && handle.getLast? != some '!' then none
  else if !c.starts isBlank then none
  else
    let (expansion, c) ← readTagText true (c.skipWhile isBlank)
    if c.spaceAt 0 then some (.tagDirective (String.ofList handle) expansion, c) else none

/-- A directive behind its percent sign, to the end of its line. -/
def readDirective (c : Cursor) : Option (Token × Cursor) := do
  let (name, c) := c.takeWhile isWordChar
  if name.isEmpty || !c.spaceAt 0 then none
  else
    let (token, c) ←
      if name = "YAML".toList then readVersion c
      else if name = "TAG".toList then readTagExpansion c
      else none
    let c := (c.skipWhile isBlank).skipComment
    if c.atEnd then some (token, c)
    else if c.starts isBreak then some (token, c.skipBreak)
    else none

end QueryCost.Yaml
