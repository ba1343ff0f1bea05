/-
# QueryCost.Yaml.Node -- the nodes of a YAML document

A document is one node: a scalar, a sequence, a mapping, or an alias of a node
that carries an anchor.  Aliases stay as they are and the nodes with anchors are
kept beside the root, because a node may be aliased from within itself.

Anchors have numbers: that of an anchor is the number of names that anchors in front
of it have.  An alias stands for the number of the last anchor in front of it that has
its name, and means the node that starts last of those under this number.  Where every
anchor has a name of its own that is the node with the anchor of the alias; a name that
is used again shares its number with the new name that follows.

Where a node may be missing an empty plain scalar stands for it, also where the
whole document is missing.
-/
import QueryCost.Yaml.Token.Reader

namespace QueryCost.Yaml

set_option autoImplicit false

structure Scalar where
  text : String
  style : Style
  tag : Option Tag
  deriving DecidableEq, Repr

inductive Node
  /-- The node that starts last of those whose anchors have this number. -/
  | alias (anchor : Nat)
  | scalar (s : Scalar)
  | sequence (tag : Option Tag) (items : List Node)
  | mapping (tag : Option Tag) (entries : List (Node × Node))

def Node.missing : Node :=
  .scalar ⟨"", .plain, none⟩

structure Document where
  root : Node
  /-- The nodes with anchors, under the numbers of these; the first one under a number counts. -/
  anchored : List (Nat × Node)

/-- What an alias means; other nodes mean themselves. -/
def Document.resolve (d : Document) : Node → Node
  | .alias anchor => (d.anchored.lookup anchor).getD .missing
  | node => node

/-! ## Reading nodes -/

structure NodeReader.State where
  tokens : List Token
  /-- Expansions of tag handles. -/
  handles : List (String × Tag)
  /-- The names of anchors, each with the number that it was given last. -/
  anchors : List (String × Nat)
  anchored : List (Nat × Node)

abbrev NodeReader (α : Type) : Type :=
  StateT NodeReader.State Option α

namespace NodeReader

def next? : NodeReader (Option Token) := fun s =>
  some (s.tokens.head?, s)

def advance : NodeReader Unit := fun s =>
  some ((), { s with tokens := s.tokens.drop 1 })

def refuse {α : Type} : NodeReader α := fun _ =>
  none

def sees (t : Token) : NodeReader Bool := do
  return (← next?) == some t

def expect (t : Token) : NodeReader Unit := do
  if ← sees t then advance else refuse

/-- Whether the next token is one of these, or there is none. -/
def seesAny (ts : List Token) : NodeReader Bool := do
  return (← next?).all (· ∈ ts)

/-! ### Properties of a node -/

def anchor? : NodeReader (Option String) := do
  match ← next? with
  | some (.anchor name) => do
      advance
      return some name
  | _ => return none

/-- A tag with its handle expanded; a handle without expansion is refused. -/
def expandTag (handle : String) (suffix : Tag) : NodeReader Tag := fun s =>
  if handle = "" then some (suffix, s)
  else (s.handles.lookup handle).map fun expansion => (expansion.append suffix, s)

def tag? : NodeReader (Option (String × Tag)) := do
  match ← next? with
  | some (.tag handle suffix) => do
      advance
      return some (handle, suffix)
  | _ => return none

structure Properties where
  anchor : Option String
  tag : Option Tag

/-- An anchor and a tag, in either order, each of which may be missing. -/
def properties : NodeReader Properties := do
  let first ← anchor?
  let tag ← tag?
  let anchor ← if first.isNone && tag.isSome then anchor? else pure first
  match tag with
  | some (handle, suffix) => return ⟨anchor, some (← expandTag handle suffix)⟩
  | none => return ⟨anchor, none⟩

/-- Give an anchor its number. -/
def declare (name : String) : NodeReader Nat := fun s =>
  let n := s.anchors.length
  some (n, { s with anchors := (name, n) :: s.anchors.filter (·.1 != name) })

/-- The number of nodes that are kept. -/
def keptCount : NodeReader Nat := fun s =>
  some (s.anchored.length, s)

/-- Keep a node under the number of its anchor, unless one of those inside it, which came after the
first `outside`, has the same number: it starts later. -/
def keep (outside n : Nat) (node : Node) : NodeReader Unit := fun s =>
  let inside := s.anchored.take (s.anchored.length - outside)
  some ((), if inside.any (·.1 == n) then s else { s with anchored := (n, node) :: s.anchored })

def aliased (name : String) : NodeReader Node := fun s =>
  (s.anchors.lookup name).map fun n => (.alias n, s)

/-- Read what an anchor, if there is one, stands in front of, and keep it under the anchor. -/
def anchoring (anchor : Option String) (content : NodeReader Node) : NodeReader Node := do
  match anchor with
  | none => content
  | some name => do
      let n ← declare name
      let outside ← keptCount
      let node ← content
      keep outside n node
      return node

/-! ### Nodes

Of four of these calls inside each other at least one takes a token, so four times as much fuel as
there are tokens is never used up.
-/

mutual

/-- Read a node.  Outside of brackets it may be a block collection; the entries of a sequence may
stand at the column of the mapping around it.  A tag that is a mark alone counts for nothing on a
scalar, unless the scalar is missing. -/
def node : (fuel : Nat) → (block unindented : Bool) → NodeReader Node
  | 0, _, _ => refuse
  | fuel + 1, block, unindented => do
      match ← next? with
      | some (.alias name) => do
          advance
          aliased name
      | _ => do
          let p ← properties
          match ← next? with
          | some .blockEntry =>
              if unindented then
                anchoring p.anchor (Node.sequence p.tag <$> unindentedEntries fuel)
              else absent p
          | some (.scalar text style) =>
              anchoring p.anchor do
                advance
                return .scalar ⟨text, style, p.tag.filter (· != .text "!")⟩
          | some .flowSequenceStart =>
              anchoring p.anchor do
                advance
                return .sequence p.tag (← flowItems fuel true)
          | some .flowMappingStart =>
              anchoring p.anchor do
                advance
                return .mapping p.tag (← flowEntries fuel true)
          | some .blockSequenceStart =>
              if block then
                anchoring p.anchor do
                  advance
                  return .sequence p.tag (← blockItems fuel)
              else absent p
          | some .blockMappingStart =>
              if block then
                anchoring p.anchor do
                  advance
                  return .mapping p.tag (← blockEntries fuel)
              else absent p
          | _ => absent p

/-- No content follows: with an anchor or a tag in front an empty scalar does. -/
def absent (p : Properties) : NodeReader Node :=
  if p.anchor.isSome || p.tag.isSome then
    anchoring p.anchor (return .scalar ⟨"", .plain, p.tag⟩)
  else refuse

/-- A node unless one of these tokens or nothing comes next. -/
def nodeUnless (ends : List Token) (fuel : Nat) (block unindented : Bool) : NodeReader Node := do
  match fuel with
  | 0 => refuse
  | fuel + 1 => if ← seesAny ends then return .missing else node fuel block unindented

/-- The items of a block sequence, with its end. -/
def blockItems : (fuel : Nat) → NodeReader (List Node)
  | 0 => refuse
  | fuel + 1 => do
      if ← sees .blockEntry then
        advance
        let item ← nodeUnless [.blockEntry, .blockEnd] fuel true false
        return item :: (← blockItems fuel)
      else do
        expect .blockEnd
        return []

/-- The items of a sequence that stands at the column of the mapping around it. -/
def unindentedEntries : (fuel : Nat) → NodeReader (List Node)
  | 0 => refuse
  | fuel + 1 => do
      if ← sees .blockEntry then
        advance
        let item ← nodeUnless [.blockEntry, .key, .value, .blockEnd] fuel true false
        return item :: (← unindentedEntries fuel)
      else return []

/-- The entries of a block mapping, with its end. -/
def blockEntries : (fuel : Nat) → NodeReader (List (Node × Node))
  | 0 => refuse
  | fuel + 1 => do
      if ← sees .key then
        advance
        let key ← nodeUnless [.key, .value, .blockEnd] fuel true true
        let value ← blockValue fuel
        return (key, value) :: (← blockEntries fuel)
      else if ← sees .value then refuse
      else do
        expect .blockEnd
        return []

def blockValue : (fuel : Nat) → NodeReader Node
  | 0 => refuse
  | fuel + 1 => do
      if ← sees .value then
        advance
        nodeUnless [.key, .value, .blockEnd] fuel true true
      else return .missing

/-- The items of a sequence in brackets, with its end.  An item with a key is a mapping of that one
entry. -/
def flowItems : (fuel : Nat) → (first : Bool) → NodeReader (List Node)
  | 0, _ => refuse
  | fuel + 1, first => do
      if ← sees .flowSequenceEnd then
        advance
        return []
      else do
        if !first then expect .flowEntry
        if ← sees .flowSequenceEnd then
          advance
          return []
        else if ← sees .key then
          advance
          let entry ← flowPair fuel
          return .mapping none [entry] :: (← flowItems fuel false)
        else do
          let item ← node fuel false false
          return item :: (← flowItems fuel false)

/-- The entry of an item with a key.  A missing key swallows the token behind it. -/
def flowPair : (fuel : Nat) → NodeReader (Node × Node)
  | 0 => refuse
  | fuel + 1 => do
      let key ←
        if ← seesAny [.value, .flowEntry, .flowSequenceEnd] then do
          advance
          pure Node.missing
        else node fuel false false
      if ← sees .value then
        advance
        return (key, ← nodeUnless [.flowEntry, .flowSequenceEnd] fuel false false)
      else return (key, .missing)

/-- The entries of a mapping in braces, with its end.  A node without a key in front of it is a key
with no value, whatever follows it. -/
def flowEntries : (fuel : Nat) → (first : Bool) → NodeReader (List (Node × Node))
  | 0, _ => refuse
  | fuel + 1, first => do
      if ← sees .flowMappingEnd then
        advance
        return []
      else do
        if !first then expect .flowEntry
        if ← sees .flowMappingEnd then
          advance
          return []
        else if ← sees .key then
          advance
          let key ← nodeUnless [.value, .flowEntry, .flowMappingEnd] fuel false false
          let value ← flowValue fuel
          return (key, value) :: (← flowEntries fuel false)
        else do
          let key ← node fuel false false
          return (key, .missing) :: (← flowEntries fuel false)

def flowValue : (fuel : Nat) → NodeReader Node
  | 0 => refuse
  | fuel + 1 => do
      if ← sees .value then
        advance
        nodeUnless [.flowEntry, .flowMappingEnd] fuel false false
      else return .missing

end

/-! ### Documents -/

/-- Expansions of handles that need no directive. -/
def defaultHandles : List (String × Tag) :=
  [("!", .text "!"), ("!!", .text "tag:yaml.org,2002:")]

/-- Take the directives in front of a document: at most one version, which is 1.1 or 1.2, and at
most one expansion for a handle. -/
def directives (versioned : Bool) (handles : List (String × Tag)) :
    List Token → Option (List (String × Tag) × List Token)
  | .versionDirective major minor :: ts =>
      if versioned || major != 1 || (minor != 1 && minor != 2) then none
      else directives true handles ts
  | .tagDirective handle expansion :: ts =>
      if handles.any (·.1 == handle) then none
      else directives versioned ((handle, expansion) :: handles) ts
  | ts => some (handles, ts)

/-- Whether a document that began with its mark has no content. -/
def endsDocument : List Token → Bool
  | [] => true
  | .documentStart :: _ => true
  | .documentEnd :: _ => true
  | .versionDirective _ _ :: _ => true
  | .tagDirective _ _ :: _ => true
  | _ => false

def rootNode (handles : List (String × Tag)) (ts : List Token) :
    Option (Node × State) :=
  (node (4 * ts.length + 4) true false).run ⟨ts, handles ++ defaultHandles, [], []⟩

end NodeReader

/-- The document that a list of tokens is; there may be no second one. -/
def Document.ofTokens? (ts : List Token) : Option Document :=
  let close (result : Node × NodeReader.State) : Option Document :=
    if (result.2.tokens.dropWhile (· == .documentEnd)).isEmpty then
      some ⟨result.1, result.2.anchored⟩
    else none
  match ts with
  | [] => some ⟨.missing, []⟩
  | _ =>
      match NodeReader.directives false [] ts with
      | none => none
      | some (handles, .documentStart :: rest) =>
          if NodeReader.endsDocument rest then close (.missing, ⟨rest, handles, [], []⟩)
          else (NodeReader.rootNode handles rest).bind close
      | some (handles, rest) =>
          if rest.length = ts.length then (NodeReader.rootNode handles rest).bind close else none

/-- The document that a YAML text is. -/
def Document.ofText? (text : List Char) : Option Document :=
  (Token.scan? text).bind Document.ofTokens?

end QueryCost.Yaml
