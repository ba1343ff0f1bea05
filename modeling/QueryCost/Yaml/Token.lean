/-
# QueryCost.Yaml.Token -- the tokens of YAML text

Block structure shows in the tokens: where indentation opens a sequence or a
mapping, a start token stands, and where it closes one, a `blockEnd`.
-/
namespace QueryCost.Yaml

set_option autoImplicit false

/-- A tag, or a part of one; escaped octets that are no text make it unreadable. -/
inductive Tag
  | text (t : String)
  | unreadable
  deriving DecidableEq, Repr

/-- A part and the part behind it. -/
def Tag.append : Tag → Tag → Tag
  | .text a, .text b => .text (a ++ b)
  | _, _ => .unreadable

inductive Style
  | plain | quoted | literal | folded
  deriving DecidableEq, Repr

inductive Token
  | versionDirective (major minor : Nat)
  | tagDirective (handle : String) (expansion : Tag)
  | documentStart | documentEnd
  | blockSequenceStart | blockMappingStart | blockEnd
  | flowSequenceStart | flowSequenceEnd | flowMappingStart | flowMappingEnd
  | blockEntry | flowEntry | key | value
  | alias (name : String)
  | anchor (name : String)
  | tag (handle : String) (suffix : Tag)
  | scalar (text : String) (style : Style)
  deriving DecidableEq, Repr

end QueryCost.Yaml
