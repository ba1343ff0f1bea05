/-
# QueryCost.Yaml.Cursor -- a place in YAML text

In YAML the column of a token carries meaning, so a reader goes through the text
with a cursor that knows its line and column, and how many bytes of the text are
behind it.  A line break is a line feed, a
carriage return, both together, or one of three further characters; of those the
line and paragraph separators are kept as they are, every other break counts as a
line feed.
-/
import QueryCost.Text.Utf8

namespace QueryCost.Yaml

open QueryCost.Text.Utf8 (byteLength)

set_option autoImplicit false

/-! ## Characters -/

/-- Characters that may stand in YAML text. -/
def isPrintable (c : Char) : Bool :=
  c = '\t' || c = '\n' || c = '\r' || (' ' ≤ c && c ≤ '~') || c = '\u0085'
    || ('\u00a0' ≤ c && c ≤ '\ufffd') || 0x10000 ≤ c.toNat

def isBlank (c : Char) : Bool :=
  c = ' ' || c = '\t'

def isBreak (c : Char) : Bool :=
  c = '\n' || c = '\r' || c = '\u0085' || c = '\u2028' || c = '\u2029'

def isSpace (c : Char) : Bool :=
  isBlank c || isBreak c

/-- Characters of anchors, of directive names and of tag handles. -/
def isWordChar (c : Char) : Bool :=
  c.isAlphanum || c = '_' || c = '-'

def isFlowIndicator (c : Char) : Bool :=
  c = ',' || c = '[' || c = ']' || c = '\x7b' || c = '\x7d'

/-! ## Cursors -/

structure Cursor where
  rest : List Char
  /-- The number of characters that are left. -/
  left : Nat
  /-- The bytes of the text in front of the cursor. -/
  offset : Nat
  line : Nat
  column : Nat
  left_eq : left = rest.length

namespace Cursor

def ofText (text : List Char) : Cursor :=
  ⟨text, text.length, 0, 0, 0, rfl⟩

def atEnd (c : Cursor) : Bool :=
  c.rest.isEmpty

/-- Whether the next character is this one. -/
def at? (c : Cursor) (ch : Char) : Bool :=
  c.rest.head? == some ch

/-- Whether the text goes on with a character of a class. -/
def starts (c : Cursor) (p : Char → Bool) : Bool :=
  c.rest.head?.any p

/-- Whether the character so many places on is a blank or a break, or there is none. -/
def spaceAt (c : Cursor) (n : Nat) : Bool :=
  (c.rest[n]?).all isSpace

/-- Go on over characters that are no breaks. -/
def skip (c : Cursor) (n : Nat) : Cursor :=
  { rest := c.rest.drop n
    left := c.left - n
    offset := c.offset + byteLength (c.rest.take n)
    line := c.line
    column := c.column + n
    left_eq := by rw [List.length_drop, c.left_eq] }

/-- Going on leaves less text. -/
theorem left_skip_lt {c : Cursor} {ch : Char} {rest : List Char} (h : c.rest = ch :: rest)
    (n : Nat) : (c.skip (n + 1)).left < c.left := by
  have left_eq := c.left_eq
  rw [h, List.length_cons] at left_eq
  simp only [skip]
  omega

/-- Go on to the line behind so many characters. -/
def nextLine (c : Cursor) (n : Nat) : Cursor :=
  { c.skip n with line := c.line + 1, column := 0 }

/-- Go on over characters of a class without breaks; answers those characters. -/
def takeWhile (c : Cursor) (p : Char → Bool) : List Char × Cursor :=
  let taken := c.rest.takeWhile p
  (taken, c.skip taken.length)

def skipWhile (c : Cursor) (p : Char → Bool) : Cursor :=
  (c.takeWhile p).2

/-- Go on over a break; answers what it counts as. -/
def takeBreak (c : Cursor) : List Char × Cursor :=
  match c.rest with
  | '\r' :: '\n' :: _ => (['\n'], c.nextLine 2)
  | ch :: _ => (if ch = '\u2028' || ch = '\u2029' then [ch] else ['\n'], c.nextLine 1)
  | [] => ([], c)

def skipBreak (c : Cursor) : Cursor :=
  c.takeBreak.2

/-- Go on over a comment, if there is one, up to the end of the line. -/
def skipComment (c : Cursor) : Cursor :=
  if c.at? '#' then c.skipWhile (fun ch => !isBreak ch) else c

/-- Whether a document begins or ends here: three dashes or dots that stand alone at the start of
a line. -/
def atDocumentMark (c : Cursor) : Bool :=
  c.column == 0 && (c.rest.take 3 == ['-', '-', '-'] || c.rest.take 3 == ['.', '.', '.'])
    && c.spaceAt 3

end Cursor

end QueryCost.Yaml
