/-
# QueryCost.Json.Token -- the tokens of JSON text

A string token carries the text that it denotes, or nothing if it holds a
surrogate outside a pair: such a string is well formed, but it denotes no text.
A number token carries the numeral as it is written.  Reading stops at the first
character that starts no token, which a `stray` token marks; NUL is such a
character, as are all control characters that are no blanks.
-/
import QueryCost.Decimal.Numeral
import QueryCost.Text.Utf16

namespace QueryCost.Json

open QueryCost.Text

set_option autoImplicit false

inductive Token
  | braceLeft | braceRight | bracketLeft | bracketRight | colon | comma
  | null
  | boolean (b : Bool)
  | number (numeral : Decimal.Numeral)
  | string (text : Option String)
  | stray

namespace Token

def isBlank (c : Char) : Bool :=
  c = ' ' || c = '\t' || c = '\n' || c = '\r'

/-- What a backslash and one more character stand for. -/
def shortEscape? : Char → Option Char
  | '"' => some '"'
  | '\\' => some '\\'
  | '/' => some '/'
  | 'b' => some '\x08'
  | 'f' => some '\x0c'
  | 'n' => some '\n'
  | 'r' => some '\r'
  | 't' => some '\t'
  | _ => none

/-- The character a `\u` escape starts, given what stands behind its `u`, and the number of
characters it takes there; nothing for the character if the escape is a lone surrogate. -/
def longEscape? (cs : List Char) : Option (Option Char × Nat) := do
  let unit ← codeUnit? cs
  if isLeadSurrogate unit then
    match cs.drop 4 with
    | '\\' :: 'u' :: rest =>
        match codeUnit? rest with
        | some trail =>
            if isTrailSurrogate trail then some (some (ofSurrogates unit trail), 10)
            else some (none, 4)
        | none => some (none, 4)
    | _ => some (none, 4)
  else if isTrailSurrogate unit then some (none, 4)
  else some (some (Char.ofNat unit), 4)

/-- Read a string behind its opening quote.  `done` is what it denotes so far, last character
first, or nothing once a lone surrogate was met. -/
def readString (done : Option (List Char)) : List Char → Option (Option String × List Char)
  | [] => none
  | '"' :: rest => some (done.map fun cs => String.ofList cs.reverse, rest)
  | '\\' :: 'u' :: rest =>
      match longEscape? rest with
      | some (c, n) => readString (done.bind fun cs => c.map (· :: cs)) (rest.drop n)
      | none => none
  | '\\' :: c :: rest =>
      match shortEscape? c with
      | some c => readString (done.map (c :: ·)) rest
      | none => none
  | c :: rest => if c < ' ' then none else readString (done.map (c :: ·)) rest
termination_by cs => cs.length

theorem length_lt_of_readString {done : Option (List Char)} {text : Option String}
    {cs rest : List Char} (h : readString done cs = some (text, rest)) :
    rest.length < cs.length := by
  fun_induction readString done cs with
  | case1 => simp at h
  | case2 =>
    simp only [Option.some.injEq, Prod.mk.injEq] at h
    rw [← h.2]
    exact Nat.lt_succ_self _
  | case3 =>
    rename_i ih
    have := ih h
    rw [List.length_drop] at this
    simp only [List.length_cons]
    omega
  | case4 => simp at h
  | case5 | case8 =>
    rename_i ih
    have := ih h
    simp only [List.length_cons]
    omega
  | case6 => simp at h
  | case7 => simp at h

/-- The token that a text starts with, and what follows it. -/
def read? : List Char → Option (Token × List Char)
  | '\x7b' :: rest => some (.braceLeft, rest)
  | '\x7d' :: rest => some (.braceRight, rest)
  | '[' :: rest => some (.bracketLeft, rest)
  | ']' :: rest => some (.bracketRight, rest)
  | ':' :: rest => some (.colon, rest)
  | ',' :: rest => some (.comma, rest)
  | 'n' :: 'u' :: 'l' :: 'l' :: rest => some (.null, rest)
  | 't' :: 'r' :: 'u' :: 'e' :: rest => some (.boolean true, rest)
  | 'f' :: 'a' :: 'l' :: 's' :: 'e' :: rest => some (.boolean false, rest)
  | '"' :: rest => (readString (some []) rest).map fun (text, rest) => (.string text, rest)
  | cs => (Decimal.Numeral.read? cs).map fun (numeral, rest) => (.number numeral, rest)

theorem length_lt_of_read? {token : Token} {cs rest : List Char}
    (h : read? cs = some (token, rest)) : rest.length < cs.length := by
  unfold read? at h
  split at h
  case h_10 =>
    obtain ⟨⟨text, r⟩, hr, heq⟩ := Option.map_eq_some_iff.1 h
    obtain ⟨rfl, rfl⟩ := Prod.mk.inj heq
    exact Nat.lt_succ_of_lt (length_lt_of_readString hr)
  case h_11 =>
    obtain ⟨⟨numeral, r⟩, hr, heq⟩ := Option.map_eq_some_iff.1 h
    obtain ⟨rfl, rfl⟩ := Prod.mk.inj heq
    exact Decimal.Numeral.length_lt_of_read? hr
  all_goals
    simp only [Option.some.injEq, Prod.mk.injEq] at h
    rw [← h.2]
    simp only [List.length_cons]
    omega

/-- The tokens of a text, up to the first character that starts none. -/
def scan : List Char → List Token
  | [] => []
  | c :: cs =>
      if isBlank c then scan cs
      else
        match _h : read? (c :: cs) with
        | some (token, rest) => token :: scan rest
        | none => [.stray]
termination_by cs => cs.length
decreasing_by
  · exact Nat.lt_succ_self _
  · exact length_lt_of_read? _h

end Token

end QueryCost.Json
