/-
# QueryCost.Yaml.Scalar -- reading scalars

A plain or quoted scalar may go over several lines.  Blanks inside a line are
kept; the blanks around a break are dropped, one break counts as a blank, and of
several the first is dropped.  What stands between two pieces of text is held back
until the next piece comes, because at the end of a plain scalar it is dropped.

A block scalar consists of indented lines.  In a literal one the breaks are kept,
in a folded one a break between two lines that do not start with a blank counts as
a blank.  A sign behind the indicator says whether the breaks at the end are all
kept or all dropped; otherwise one is kept.
-/
import QueryCost.Text.Digits
import QueryCost.Yaml.Cursor

namespace QueryCost.Yaml

open QueryCost.Text

set_option autoImplicit false

/-! ## Text over several lines -/

/-- What has been read of a scalar; the characters of each part stand last first. -/
structure Piece where
  text : List Char
  /-- Blanks held back. -/
  blanks : List Char
  /-- Whether a break was met since the last text. -/
  broken : Bool
  /-- The first break held back. -/
  firstBreak : List Char
  /-- Further breaks held back. -/
  moreBreaks : List Char

namespace Piece

def empty : Piece :=
  ⟨[], [], false, [], []⟩

def addBlank (p : Piece) (c : Char) : Piece :=
  if p.broken then p else { p with blanks := c :: p.blanks }

def addBreak (p : Piece) (b : List Char) : Piece :=
  if p.broken then { p with moreBreaks := b.reverse ++ p.moreBreaks }
  else { p with blanks := [], broken := true, firstBreak := b.reverse }

/-- A break that counts for nothing itself. -/
def addEscapedBreak (p : Piece) : Piece :=
  { p with broken := true, firstBreak := [] }

/-- Put what was held back behind the text. -/
def join (p : Piece) : Piece :=
  let between :=
    if p.broken then
      if p.firstBreak = ['\n'] then if p.moreBreaks.isEmpty then [' '] else p.moreBreaks
      else p.moreBreaks ++ p.firstBreak
    else p.blanks
  ⟨between ++ p.text, [], false, [], []⟩

def addText (p : Piece) (c : Char) : Piece :=
  let p := p.join
  { p with text := c :: p.text }

def toString (p : Piece) : String :=
  String.ofList p.text.reverse

end Piece

/-! ## Quoted scalars -/

/-- What a backslash and one more character stand for. -/
def shortEscape? : Char → Option Char
  | '0' => some '\x00'
  | 'a' => some '\x07'
  | 'b' => some '\x08'
  | 't' => some '\t'
  | '\t' => some '\t'
  | 'n' => some '\n'
  | 'v' => some '\x0b'
  | 'f' => some '\x0c'
  | 'r' => some '\r'
  | 'e' => some '\x1b'
  | ' ' => some ' '
  | '"' => some '"'
  | '/' => some '/'
  | '\\' => some '\\'
  | 'N' => some '\u0085'
  | '_' => some '\u00a0'
  | 'L' => some '\u2028'
  | 'P' => some '\u2029'
  | _ => none

/-- The digits that an escape by number has. -/
def escapeDigits? : Char → Option Nat
  | 'x' => some 2
  | 'u' => some 4
  | 'U' => some 8
  | _ => none

/-- The character an escape names and the length of the escape behind its backslash. -/
def escape? : List Char → Option (Char × Nat)
  | [] => none
  | c :: rest =>
      match escapeDigits? c with
      | some n =>
          let digits := rest.take n
          if digits.length = n then do
            let value ← ofDigits? 16 digits
            if value.isValidChar then some (Char.ofNat value, n + 1) else none
          else none
      | none => (shortEscape? c).map (·, 1)

/-- Read a quoted scalar behind its opening quote. -/
def readQuoted (quote : Char) (p : Piece) (c : Cursor) : Option (String × Cursor) :=
  if c.atDocumentMark then none
  else
    match _h : c.rest with
    | [] => none
    | ch :: rest =>
        if isBlank ch then readQuoted quote (p.addBlank ch) (c.skip 1)
        else if isBreak ch then
          let (b, c') := c.takeBreak
          if c'.left < c.left then readQuoted quote (p.addBreak b) c' else none
        else if ch = '\'' && quote = '\'' && rest.head? = some '\'' then
          readQuoted quote (p.addText '\'') (c.skip 2)
        else if ch = quote then some (p.join.toString, c.skip 1)
        else if ch = '\\' && quote = '"' then
          if rest.head?.any isBreak then
            let c' := (c.skip 1).skipBreak
            if c'.left < c.left then readQuoted quote p.join.addEscapedBreak c'
            else none
          else
            match escape? rest with
            | some (e, n) => readQuoted quote (p.addText e) (c.skip (n + 1))
            | none => none
        else readQuoted quote (p.addText ch) (c.skip 1)
termination_by c.left
decreasing_by all_goals first | assumption | exact Cursor.left_skip_lt _h _

/-! ## Plain scalars -/

/-- Whether a plain scalar ends in front of the next character, which is no space. -/
def endsPlain (flow : Bool) (c : Cursor) : Bool :=
  (c.at? ':' && c.spaceAt 1) || (flow && c.starts isFlowIndicator)

/-- Read a plain scalar.  `fresh` says that a space or nothing was read last. -/
def readPlain (flow : Bool) (indent : Int) (fresh : Bool) (p : Piece) (c : Cursor) :
    Option (Piece × Cursor) :=
  match _h : c.rest with
  | [] => some (p, c)
  | ch :: rest =>
      if isBlank ch then
        if p.broken && (c.column : Int) < indent && ch = '\t' then none
        else readPlain flow indent true (p.addBlank ch) (c.skip 1)
      else if isBreak ch then
        let (b, c') := c.takeBreak
        if c'.left < c.left then readPlain flow indent true (p.addBreak b) c'
        else none
      else if fresh && p.broken && !flow && (c.column : Int) < indent then some (p, c)
      else if fresh && (c.atDocumentMark || ch = '#') then some (p, c)
      else if flow && ch = ':' && rest.head?.any (fun n => isFlowIndicator n || n = '?') then none
      else if endsPlain flow c then some (p, c)
      else readPlain flow indent false (p.addText ch) (c.skip 1)
termination_by c.left
decreasing_by all_goals first | assumption | exact Cursor.left_skip_lt _h _

/-! ## Block scalars -/

/-- What happens to the breaks at the end of a block scalar. -/
inductive Chomping
  | strip | clip | keep
  deriving DecidableEq

structure BlockHeader where
  chomping : Chomping
  /-- Indentation of the lines as the header gives it. -/
  increment : Option Nat

def chomping? : Char → Option Chomping
  | '+' => some .keep
  | '-' => some .strip
  | _ => none

/-- An indentation from one to nine. -/
def increment? (c : Char) : Option Nat :=
  if '1' ≤ c && c ≤ '9' then some (c.toNat - '0'.toNat) else none

/-- The header behind the indicator: a sign and a digit in either order, each may be missing. -/
def readBlockHeader (c : Cursor) : Option (BlockHeader × Cursor) :=
  let sign (c : Cursor) : Option Chomping × Cursor :=
    match c.rest.head?.bind chomping? with
    | some s => (some s, c.skip 1)
    | none => (none, c)
  let digit (c : Cursor) : Option Nat × Cursor :=
    match c.rest.head?.bind increment? with
    | some n => (some n, c.skip 1)
    | none => (none, c)
  match sign c with
  | (some s, c) =>
      let (n, c) := digit c
      if n.isNone && c.at? '0' then none else some (⟨s, n⟩, c)
  | (none, c) =>
      match digit c with
      | (some n, c) =>
          let (s, c) := sign c
          some (⟨s.getD .clip, some n⟩, c)
      | (none, c) => if c.at? '0' then none else some (⟨.clip, none⟩, c)

/-- Skip indentation and empty lines.  Without a known indentation all blanks count; answers the
breaks, last first, and the greatest column reached. -/
def readEmptyLines (indent : Option Nat) (breaks : List Char) (greatest : Nat) (c : Cursor) :
    Option (List Char × Nat × Cursor) :=
  let blanks := (c.rest.takeWhile (· = ' ')).length
  let c' := c.skip (match indent with
    | some n => min blanks (n - c.column)
    | none => blanks)
  let greatest := max greatest c'.column
  if indent.all (c'.column < ·) && c'.at? '\t' then none
  else if c'.starts isBreak then
    let (b, c'') := c'.takeBreak
    if c''.left < c.left then
      readEmptyLines indent (b.reverse ++ breaks) greatest c''
    else none
  else some (breaks, greatest, c')
termination_by c.left

/-- Read the lines of a block scalar.  `lead` is the break behind the last line and `breaks` are
the empty lines after it, all last first; `bare` says that the last line starts with no blank. -/
def readBlockLines (folded : Bool) (indent : Nat) (text lead breaks : List Char) (bare : Bool)
    (c : Cursor) : Option (List Char × List Char × List Char × Cursor) :=
  if c.column = indent && !c.atEnd then
    let blank := c.starts isBlank
    let text :=
      if folded && lead = ['\n'] && bare && !blank then
        if breaks.isEmpty then ' ' :: text else breaks ++ text
      else breaks ++ lead ++ text
    let (line, c') := c.takeWhile (fun ch => !isBreak ch)
    let (lead, c') := c'.takeBreak
    match readEmptyLines (some indent) [] 0 c' with
    | none => none
    | some (breaks, _, c') =>
        if c'.left < c.left then
          readBlockLines folded indent (line.reverse ++ text) lead.reverse breaks (!blank) c'
        else none
  else some (text, lead, breaks, c)
termination_by c.left

/-- Read a block scalar behind its indicator.  `parent` is the indentation around it. -/
def readBlock (folded : Bool) (parent : Int) (c : Cursor) : Option (String × Cursor) := do
  let (header, c) ← readBlockHeader c
  let c := (c.skipWhile isBlank).skipComment
  if !c.atEnd && !c.starts isBreak then none
  else
    let c := c.skipBreak
    let given := header.increment.map fun n => (max parent 0).toNat + n
    let (breaks, greatest, c) ← readEmptyLines given [] 0 c
    let indent := given.getD (max (max greatest (parent + 1).toNat) 1)
    let (text, lead, breaks, c) ← readBlockLines folded indent [] [] breaks false c
    let text := match header.chomping with
      | .strip => text
      | .clip => lead ++ text
      | .keep => breaks ++ lead ++ text
    return (String.ofList text.reverse, c)

end QueryCost.Yaml
