/-
# QueryCost.Yaml.Token.Reader -- from text to tokens

Going through the text, a reader keeps the columns of the block collections that
are open and, for each level of brackets, the last place where a key without
indicator may have started.  Tokens are only ever put behind those that are there
already.  Where such a key may start a numbered slot is put in the list, and when
a colon shows that a key did start there, the slot is noted as filled, together
with whether the key opens a mapping.  In the end filled slots turn into tokens and
empty ones vanish.

A key without indicator ends on the line where it starts and within 1024 bytes.  In a
block collection whose column it starts at it must turn out to be a key.
-/
import QueryCost.Yaml.Scalar
import QueryCost.Yaml.Token.Tag

namespace QueryCost.Yaml

set_option autoImplicit false

/-- A place where a key without indicator may have started. -/
structure Candidate where
  slot : Nat
  /-- The bytes of the text in front of it. -/
  offset : Nat
  line : Nat
  column : Nat
  /-- Whether nothing but a key may stand there. -/
  required : Bool

inductive Item
  | token (t : Token)
  | slot (n : Nat)

structure Reader where
  cursor : Cursor
  /-- What was read, last first. -/
  items : List Item
  /-- The number of slots. -/
  slots : Nat
  /-- The filled slots, and whether the key there opens a mapping. -/
  filled : List (Nat × Bool)
  /-- The column of the innermost block collection; outside of all it is -1. -/
  indent : Int
  /-- The columns of the block collections around the innermost one. -/
  outerIndents : List Int
  candidate : Option Candidate
  /-- The candidates around the brackets that are open, one for each. -/
  outerCandidates : List (Option Candidate)
  keyAllowed : Bool

namespace Reader

def start (text : List Char) : Reader :=
  ⟨.ofText text, [], 0, [], -1, [], none, [], true⟩

def inFlow (r : Reader) : Bool :=
  !r.outerCandidates.isEmpty

def emit (r : Reader) (t : Token) : Reader :=
  { r with items := .token t :: r.items }

/-- Put a token there that so many characters stand for. -/
def emitOver (r : Reader) (t : Token) (n : Nat) : Reader :=
  { r.emit t with cursor := r.cursor.skip n }

/-! ## Candidates -/

/-- Give up the candidate; one that must be a key cannot be given up. -/
def dropCandidate (r : Reader) : Option Reader :=
  if r.candidate.any (·.required) then none else some { r with candidate := none }

/-- Note that a key may start here. -/
def saveCandidate (r : Reader) : Option Reader :=
  if r.keyAllowed then do
    let r ← r.dropCandidate
    let c := r.cursor
    let required := !r.inFlow && r.indent == c.column
    return { r with
      candidate := some ⟨r.slots, c.offset, c.line, c.column, required⟩
      items := .slot r.slots :: r.items
      slots := r.slots + 1 }
  else some r

/-- A candidate that can still turn out to be a key, or none. -/
def fresh? (c : Cursor) : Option Candidate → Option (Option Candidate)
  | none => some none
  | some k =>
      if k.line < c.line || k.offset + 1024 < c.offset then
        if k.required then none else some none
      else some (some k)

def dropStale (r : Reader) : Option Reader := do
  let candidate ← fresh? r.cursor r.candidate
  let outerCandidates ← r.outerCandidates.mapM (fresh? r.cursor)
  return { r with candidate, outerCandidates }

/-! ## Indentation -/

/-- Open a block collection at a column, if it is right of the innermost one. -/
def indentTo (r : Reader) (column : Nat) : Option Reader :=
  if !r.inFlow && r.indent < column then
    some { r with indent := column, outerIndents := r.indent :: r.outerIndents }
  else none

def openBlock (r : Reader) (t : Token) : Reader :=
  match r.indentTo r.cursor.column with
  | some r => r.emit t
  | none => r

/-- Close the block collections right of a column. -/
def closeBlocks (column : Int) (items : List Item) (indent : Int) :
    List Int → List Item × Int × List Int
  | [] => (items, indent, [])
  | outer :: rest =>
      if column < indent then closeBlocks column (.token .blockEnd :: items) outer rest
      else (items, indent, outer :: rest)

def unindentTo (r : Reader) (column : Int) : Reader :=
  if r.inFlow then r
  else
    let (items, indent, outerIndents) := closeBlocks column r.items r.indent r.outerIndents
    { r with items, indent, outerIndents }

/-! ## Tokens -/

/-- What ends all blocks: a directive or a document mark. -/
def endBlocks (r : Reader) : Option Reader := do
  let r ← (r.unindentTo (-1)).dropCandidate
  return { r with keyAllowed := false }

def readDirectiveLine (r : Reader) : Option Reader := do
  let r ← r.endBlocks
  let (token, cursor) ← readDirective (r.cursor.skip 1)
  return { r.emit token with cursor }

def readDocumentMark (r : Reader) : Option Reader := do
  let r ← r.endBlocks
  return r.emitOver (if r.cursor.at? '-' then .documentStart else .documentEnd) 3

def openFlow (r : Reader) (t : Token) : Option Reader := do
  let r ← r.saveCandidate
  return { r.emitOver t 1 with
    candidate := none
    outerCandidates := r.candidate :: r.outerCandidates
    keyAllowed := true }

def closeFlow (r : Reader) (t : Token) : Option Reader := do
  let r ← r.dropCandidate
  return { r.emitOver t 1 with
    candidate := r.outerCandidates.head?.join
    outerCandidates := r.outerCandidates.tail
    keyAllowed := false }

def readFlowEntry (r : Reader) : Option Reader := do
  let r ← r.dropCandidate
  return { r.emitOver .flowEntry 1 with keyAllowed := true }

def readBlockEntry (r : Reader) : Option Reader := do
  if !r.inFlow && !r.keyAllowed then none
  else
    let r ← (r.openBlock .blockSequenceStart).dropCandidate
    return { r.emitOver .blockEntry 1 with keyAllowed := true }

/-- A key behind a question mark. -/
def readKey (r : Reader) : Option Reader := do
  if !r.inFlow && !r.keyAllowed then none
  else
    let r ← (r.openBlock .blockMappingStart).dropCandidate
    return { r.emitOver .key 1 with keyAllowed := !r.inFlow }

/-- A value behind a colon; if there is a candidate, it is the key. -/
def readValue (r : Reader) : Option Reader :=
  match r.candidate with
  | some k =>
      let (r, opens) := match r.indentTo k.column with
        | some r => (r, true)
        | none => (r, false)
      some { r.emitOver .value 1 with
        filled := (k.slot, opens) :: r.filled
        candidate := none
        keyAllowed := false }
  | none =>
      if !r.inFlow && !r.keyAllowed then none
      else
        let r := r.openBlock .blockMappingStart
        some { r.emitOver .value 1 with keyAllowed := !r.inFlow }

def readAnchor (r : Reader) (token : String → Token) : Option Reader := do
  let r ← r.saveCandidate
  let (name, cursor) ← readAnchorName (r.cursor.skip 1)
  return { r.emit (token name) with cursor, keyAllowed := false }

/-- A tag ends at a space, or in brackets at a comma. -/
def readTagToken (r : Reader) : Option Reader := do
  let r ← r.saveCandidate
  let (token, cursor) ← readTag r.cursor
  if cursor.spaceAt 0 || (r.inFlow && cursor.at? ',') then
    return { r.emit token with cursor, keyAllowed := false }
  else none

def readBlockScalar (r : Reader) (style : Style) : Option Reader := do
  let r ← r.dropCandidate
  let (text, cursor) ← readBlock (style == .folded) r.indent (r.cursor.skip 1)
  return { r.emit (.scalar text style) with cursor, keyAllowed := true }

def readQuotedScalar (r : Reader) (quote : Char) : Option Reader := do
  let r ← r.saveCandidate
  let (text, cursor) ← readQuoted quote .empty (r.cursor.skip 1)
  return { r.emit (.scalar text .quoted) with cursor, keyAllowed := false }

/-- A plain scalar that ended behind a break leaves room for a key. -/
def readPlainScalar (r : Reader) : Option Reader := do
  let r ← r.saveCandidate
  let (piece, cursor) ← readPlain r.inFlow (r.indent + 1) true .empty r.cursor
  return { r.emit (.scalar piece.toString .plain) with cursor, keyAllowed := piece.broken }

/-- Characters that no plain scalar starts with. -/
def isIndicator (c : Char) : Bool :=
  c ∈ ['-', '?', ':', ',', '[', ']', '\x7b', '\x7d', '#', '&', '*', '!', '|', '>', '\'', '"',
    '%', '@', '\x60']

def startsPlain (r : Reader) (ch : Char) : Bool :=
  !(isSpace ch || isIndicator ch)
    || (ch = '-' && !r.cursor.spaceAt 1)
    || (!r.inFlow && (ch = '?' || ch = ':') && !r.cursor.spaceAt 1)

/-- Read one token; `ch` is its first character. -/
def readToken (r : Reader) (ch : Char) : Option Reader :=
  let c := r.cursor
  if c.column = 0 && ch = '%' then r.readDirectiveLine
  else if c.atDocumentMark then r.readDocumentMark
  else
    match ch with
    | '[' => r.openFlow .flowSequenceStart
    | '\x7b' => r.openFlow .flowMappingStart
    | ']' => r.closeFlow .flowSequenceEnd
    | '\x7d' => r.closeFlow .flowMappingEnd
    | ',' => r.readFlowEntry
    | '*' => r.readAnchor .alias
    | '&' => r.readAnchor .anchor
    | '!' => r.readTagToken
    | '\'' => r.readQuotedScalar '\''
    | '"' => r.readQuotedScalar '"'
    | _ =>
        if ch = '-' && c.spaceAt 1 then r.readBlockEntry
        else if ch = '?' && (r.inFlow || c.spaceAt 1) then r.readKey
        else if ch = ':' && (r.inFlow || c.spaceAt 1) then r.readValue
        else if ch = '|' && !r.inFlow then r.readBlockScalar .literal
        else if ch = '>' && !r.inFlow then r.readBlockScalar .folded
        else if r.startsPlain ch then r.readPlainScalar
        else none

/-! ## The whole text -/

/-- Go on to the next token, over spaces, comments and breaks, and over a byte order mark that a
line starts with.  A break outside of brackets leaves room for a key.  Tabs do not indent. -/
def skipSpace (flow keyAllowed : Bool) (c : Cursor) : Cursor × Bool :=
  let start := if c.column = 0 && c.at? '\ufeff' then c.skip 1 else c
  let blanks := start.skipWhile fun ch => ch = ' ' || ((flow || !keyAllowed) && ch = '\t')
  let next := blanks.skipComment
  if next.starts isBreak then
    let next := next.skipBreak
    let keyAllowed := keyAllowed || !flow
    if next.left < c.left then skipSpace flow keyAllowed next else (next, keyAllowed)
  else (next, keyAllowed)
termination_by c.left
decreasing_by assumption

/-- Read all tokens that are left. -/
def run (r : Reader) : Option Reader :=
  let (cursor, keyAllowed) := skipSpace r.inFlow r.keyAllowed r.cursor
  match ({ r with cursor, keyAllowed } : Reader).dropStale with
  | none => none
  | some next =>
      let next := next.unindentTo next.cursor.column
      match next.cursor.rest with
      | [] => (next.unindentTo (-1)).dropCandidate
      | ch :: _ =>
          match next.readToken ch with
          | none => none
          | some next =>
              if next.cursor.left < r.cursor.left then next.run else none
termination_by r.cursor.left
decreasing_by assumption

/-- The tokens in their order, with filled slots turned into tokens. -/
def tokens (r : Reader) : List Token :=
  r.items.foldl (fun ts item =>
    match item with
    | .token t => t :: ts
    | .slot n =>
        match r.filled.lookup n with
        | some true => .blockMappingStart :: .key :: ts
        | some false => .key :: ts
        | none => ts) []

end Reader

def Token.scan? (text : List Char) : Option (List Token) :=
  if text.all isPrintable then (Reader.start text).run.map Reader.tokens else none

end QueryCost.Yaml
