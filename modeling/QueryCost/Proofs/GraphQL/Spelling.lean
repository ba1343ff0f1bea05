/-
# QueryCost.Proofs.GraphQL.Spelling -- how the tokens of GraphQL are written

A token keeps the text that it is written with.  Which texts those are is described
here by the grammar of names, numbers and strings, without the scanner.  Between tokens
stand gaps of blanks and comments; a gap may be empty except between two tokens that
would be read as one (`Token.Merges`).

The scanner finds the tokens of such a text again, and no comma in front of any of them
(`scan_of_text`).  Tokens that merge do need a gap: side by side the scanner does not
find them (`scan_pair_iff`).
-/
import QueryCost.GraphQL.Lexeme
import QueryCost.Proofs.Decimal.Strict

namespace QueryCost.GraphQL

open QueryCost.Decimal QueryCost.Text.Utf8

set_option autoImplicit false

/-! ## Texts of tokens -/

/-- A letter or an underscore, and after it digits as well. -/
def IsNameText (cs : List Char) : Prop :=
  ∃ c rest, cs = c :: rest ∧ Token.isNameStart c = true ∧
    ∀ d ∈ rest, Token.isNameChar d = true

def IsNumberText (cs : List Char) : Prop :=
  ∃ n : Numeral, n.Strict ∧ cs = n.text

/-- Strings without escapes: on one line between quotes, or as a block between three of them. -/
inductive IsStringText : List Char → Prop
  | line {body : List Char}
      (plain : ∀ c ∈ body, c ≠ '"' ∧ c ≠ '\\' ∧ c ≠ '\n' ∧ c ≠ '\r') :
      IsStringText ('"' :: (body ++ ['"']))
  | block {body : List Char} (quotes : ¬['"', '"', '"'] <:+: body ++ ['"', '"'])
      (backslash : body.getLast? ≠ some '\\') :
      IsStringText ('"' :: '"' :: '"' :: (body ++ ['"', '"', '"']))

namespace Token

/-- The text of a token is one that the grammar has for it. -/
def IsSpelled : Token → Prop
  | .punctuator _ => True
  | .name text => IsNameText text.toList
  | .number text => IsNumberText text.toList
  | .string text => IsStringText text.toList
  | .stray => False

/-- Two tokens that are not read as two if they are written side by side. -/
def Merges : Token → Token → Prop
  | .name _, .name _ => True
  | .name _, .number text => text.toList.head? ≠ some '-'
  | .number _, .name _ => True
  | .number _, .number text => text.toList.head? ≠ some '-'
  | .number _, .punctuator p => p = .spread
  | .string text, .string _ => text = "\"\""
  | _, _ => False

end Token

/-! ## Gaps and texts -/

/-- Blanks, line breaks, and comments up to the end of their line. -/
inductive Gap : List Char → Prop
  | empty : Gap []
  | blank {c : Char} {cs : List Char} (blank : c = ' ' ∨ c = '\t' ∨ c = '\n' ∨ c = '\r')
      (more : Gap cs) : Gap (c :: cs)
  | comment {body cs : List Char} {c : Char} (inside : ∀ d ∈ body, d ≠ '\n' ∧ d ≠ '\r')
      (lineBreak : c = '\n' ∨ c = '\r') (more : Gap cs) : Gap ('#' :: (body ++ c :: cs))

/-- The texts of a list of tokens behind a token, or at the start.  The last line may be a
comment. -/
inductive TextBehind : Option Token → List Token → List Char → Prop
  | done {previous : Option Token} {gap : List Char} (isGap : Gap gap) :
      TextBehind previous [] gap
  | comment {previous : Option Token} {gap body : List Char} (isGap : Gap gap)
      (inside : ∀ d ∈ body, d ≠ '\n' ∧ d ≠ '\r') :
      TextBehind previous [] (gap ++ '#' :: body)
  | token {previous : Option Token} {t : Token} {ts : List Token} {gap rest : List Char}
      (isGap : Gap gap) (apart : gap = [] → ∀ u, previous = some u → ¬u.Merges t)
      (spelled : t.IsSpelled) (more : TextBehind (some t) ts rest) :
      TextBehind previous (t :: ts) (gap ++ (t.text.toList ++ rest))

/-- The tokens, each behind a blank. -/
def spaced (ts : List Token) : List Char :=
  ts.flatMap fun t => ' ' :: t.text.toList

/-- With blanks everywhere tokens are written as long as each of them has a text. -/
theorem textBehind_spaced (previous : Option Token) {ts : List Token}
    (spelled : ∀ t ∈ ts, t.IsSpelled) : TextBehind previous ts (spaced ts) := by
  induction ts generalizing previous with
  | nil => exact .done .empty
  | cons t ts ih =>
      obtain ⟨here, spelled⟩ := List.forall_mem_cons.1 spelled
      have blank : Gap [' '] := .blank (.inl rfl) .empty
      exact .token blank nofun here (ih (some t) spelled)

/-! ## Classes of characters -/

namespace Token

theorem isNameChar_of_isNameStart {c : Char} (start : isNameStart c = true) :
    isNameChar c = true := by
  unfold isNameStart at start
  unfold isNameChar Char.isAlphanum
  rw [Bool.or_eq_true] at start ⊢
  rcases start with alpha | underscore
  · exact .inl (by rw [alpha, Bool.true_or])
  · exact .inr underscore

/-- A character with a property that no punctuator has is none of them. -/
theorem punctuator?_of {p : Char → Bool} {c : Char} (holds : p c = true)
    (other : ['!', '$', '&', '(', ')', ':', '=', '@', '[', ']', '\x7b', '|', '\x7d'].any p
      = false) :
    punctuator? c = none := by
  unfold punctuator?
  split
  all_goals first
    | rfl
    | exact absurd holds (List.any_eq_false.1 other _ (by decide))

theorem punctuator?_of_isNameStart {c : Char} (start : isNameStart c = true) :
    punctuator? c = none :=
  punctuator?_of start rfl

theorem isNameStart_of_isDigit {c : Char} (digit : c.isDigit = true) : isNameStart c = false := by
  rw [Bool.eq_false_iff]
  intro start
  change (decide (48 ≤ c.val) && decide (c.val ≤ 57)) = true at digit
  change (decide (65 ≤ c.val ∧ c.val ≤ 90) ||
    (decide (97 ≤ c.val) && decide (c.val ≤ 122)) || c == '_') = true at start
  simp only [Bool.and_eq_true, decide_eq_true_eq, UInt32.le_iff_toNat_le] at digit
  simp only [Bool.or_eq_true, Bool.and_eq_true, decide_eq_true_eq, beq_iff_eq,
    UInt32.le_iff_toNat_le] at start
  have nine : (57 : UInt32).toNat = 57 := rfl
  have capital : (65 : UInt32).toNat = 65 := rfl
  have small : (97 : UInt32).toNat = 97 := rfl
  rcases start with (upper | lower) | rfl
  · omega
  · omega
  · exact absurd digit (by decide)

theorem endsNumeral_of_stops {rest : List Char}
    (stops : ∀ c, rest.head? = some c → isNameChar c = false ∧ c ≠ '.') : EndsNumeral rest := by
  intro c head
  obtain ⟨notName, notPoint⟩ := stops c head
  have letter : ∀ d, isNameChar d = true → c ≠ d := by
    rintro d isChar rfl
    rw [isChar] at notName
    cases notName
  have notDigit : c.isDigit = false := by
    rw [Bool.eq_false_iff]
    intro digit
    simp [isNameChar, Char.isAlphanum, digit] at notName
  exact ⟨notDigit, notPoint, letter 'e' (by decide), letter 'E' (by decide)⟩

/-! ## One token -/

/-- What stands behind a token does not carry it on. -/
def Stops : Token → List Char → Prop
  | .name _, rest => ∀ c, rest.head? = some c → isNameChar c = false
  | .number _, rest => ∀ c, rest.head? = some c → isNameChar c = false ∧ c ≠ '.'
  | .string text, rest => text = "\"\"" → rest.head? ≠ some '"'
  | _, _ => True

theorem takeWhile_isNameChar_append {more rest : List Char}
    (all : ∀ d ∈ more, isNameChar d = true)
    (stop : ∀ c, rest.head? = some c → isNameChar c = false) :
    (more ++ rest).takeWhile isNameChar = more := by
  rw [List.takeWhile_append_of_pos all]
  cases rest with
  | nil => simp
  | cons c rest => rw [List.takeWhile_cons_of_neg (by simp [stop c rfl]), List.append_nil]

theorem read_name {c : Char} {more rest : List Char} (start : isNameStart c = true)
    (all : ∀ d ∈ more, isNameChar d = true)
    (stop : ∀ c, rest.head? = some c → isNameChar c = false) :
    Token.read c (more ++ rest) = (.name (String.ofList (c :: more)), (c :: more).length) := by
  unfold Token.read
  rw [punctuator?_of_isNameStart start, takeWhile_isNameChar_append all stop]
  simp [start]

/-- What a number starts with. -/
def isDigitOrMinus (c : Char) : Bool :=
  c = '-' || c.isDigit

theorem isDigitOrMinus_iff {c : Char} :
    isDigitOrMinus c = true ↔ c = '-' ∨ c.isDigit = true := by
  rw [isDigitOrMinus, Bool.or_eq_true, decide_eq_true_eq]

theorem punctuator?_of_digit_or_minus {c : Char} (first : c = '-' ∨ c.isDigit = true) :
    punctuator? c = none :=
  punctuator?_of (isDigitOrMinus_iff.2 first) rfl

theorem read_digit_or_minus {c : Char} (first : c = '-' ∨ c.isDigit = true) (rest : List Char) :
    Token.read c rest = ofExtent .number (numberExtent (c :: rest)) (c :: rest) := by
  have notPoint : c ≠ '.' := by
    rintro rfl
    exact absurd first (by decide)
  have notQuote : c ≠ '"' := by
    rintro rfl
    exact absurd first (by decide)
  have notStart : isNameStart c = false := by
    rcases first with rfl | digit
    · rfl
    · exact isNameStart_of_isDigit digit
  have starts : (c.isDigit || c = '-') = true := by
    rcases first with rfl | digit
    · rfl
    · rw [digit, Bool.true_or]
  unfold Token.read
  rw [punctuator?_of_digit_or_minus first]
  simp [notStart, notPoint, notQuote, starts]

theorem read_number {n : Numeral} (strict : n.Strict) {rest : List Char}
    (stops : ∀ c, rest.head? = some c → isNameChar c = false ∧ c ≠ '.') :
    ∃ c more, n.text = c :: more ∧ (c = '-' ∨ c.isDigit = true) ∧
      Token.read c (more ++ rest) = (.number (String.ofList (c :: more)), (c :: more).length) := by
  obtain ⟨c, more, same, first⟩ := strict.exists_head_text
  refine ⟨c, more, same, first, ?_⟩
  have found : Numeral.read? (c :: (more ++ rest)) = some (n, rest) := by
    have found := Numeral.read?_text_append strict (endsNumeral_of_stops stops)
    rwa [same] at found
  have free : rest.head?.any (fun c => isNameChar c || c = '.') = false := by
    cases rest with
    | nil => rfl
    | cons d rest =>
        obtain ⟨notName, notPoint⟩ := stops d rfl
        simp [notName, notPoint]
  have length : numberLength? (c :: (more ++ rest)) = some (c :: more).length := by
    simp [numberLength?, found, free, same]
  rw [read_digit_or_minus first]
  simp [numberExtent, length, ofExtent]

/-! ### Strings -/

theorem lineStringFrom_append {body : List Char} (plain : ∀ c ∈ body,
      c ≠ '"' ∧ c ≠ '\\' ∧ c ≠ '\n' ∧ c ≠ '\r') (taken : Nat) (rest : List Char) :
    lineStringFrom true taken (body ++ '"' :: rest) = ⟨true, taken + body.length + 1⟩ := by
  induction body generalizing taken with
  | nil => simp [lineStringFrom]
  | cons c body ih =>
      obtain ⟨⟨notQuote, notBackslash, notLineFeed, notReturn⟩, plain⟩ :=
        List.forall_mem_cons.1 plain
      rw [List.cons_append, lineStringFrom]
      · have notBreak : isLineBreak c = false := by simp [isLineBreak, notLineFeed, notReturn]
        rw [notBreak, Bool.not_false, Bool.and_true, ih plain]
        simp only [Extent.mk.injEq, true_and, List.length_cons]
        omega
      · exact notQuote
      · exact notBackslash

/-- A string of one line is one, unless it is empty and a quote stands behind it. -/
theorem stringExtent_line {body : List Char} (plain : ∀ c ∈ body,
      c ≠ '"' ∧ c ≠ '\\' ∧ c ≠ '\n' ∧ c ≠ '\r') {rest : List Char}
    (stops : body = [] → rest.head? ≠ some '"') :
    stringExtent (body ++ '"' :: rest) = ⟨true, 1 + body.length + 1⟩ := by
  have notBlock : ∀ tail, body ++ '"' :: rest ≠ '"' :: '"' :: tail := by
    intro tail same
    cases body with
    | nil =>
        injection same with _ same
        exact stops rfl (by rw [same]; rfl)
    | cons c body =>
        injection same with same
        exact (plain c List.mem_cons_self).1 same
  have onOneLine : stringExtent (body ++ '"' :: rest) = lineStringExtent (body ++ '"' :: rest) := by
    unfold stringExtent
    split
    · next tail same => exact absurd same (notBlock tail)
    · rfl
  have started : lineStringExtent (body ++ '"' :: rest) =
      lineStringFrom true 1 (body ++ '"' :: rest) := by
    cases body with
    | nil => rfl
    | cons c body =>
        obtain ⟨-, -, notLineFeed, notReturn⟩ := plain c List.mem_cons_self
        have notBreak : isLineBreak c = false := by simp [isLineBreak, notLineFeed, notReturn]
        rw [List.cons_append, lineStringExtent, notBreak]
        rfl
  rw [onOneLine, started, lineStringFrom_append plain]

/-- Quotes that start a text behind a body start it in front of the closing quotes as well. -/
theorem isPrefix_of_quotes {body rest tail : List Char} {n : Nat} (few : n ≤ body.length + 2)
    (same : body ++ '"' :: '"' :: '"' :: rest = List.replicate n '"' ++ tail) :
    List.replicate n '"' <+: body ++ ['"', '"'] := by
  have front : List.replicate n '"' <+: (body ++ ['"', '"']) ++ '"' :: rest := by
    rw [List.append_assoc]
    exact ⟨tail, same.symm⟩
  refine List.prefix_of_prefix_length_le front (List.prefix_append _ _) ?_
  simpa using few

theorem blockStringFrom_append {body : List Char}
    (quotes : ¬['"', '"', '"'] <:+: body ++ ['"', '"']) (backslash : body.getLast? ≠ some '\\')
    (taken : Nat) (rest : List Char) :
    blockStringFrom taken (body ++ '"' :: '"' :: '"' :: rest)
      = ⟨true, taken + body.length + 3⟩ := by
  induction body generalizing taken with
  | nil => rfl
  | cons c body ih =>
      have quotesLater : ¬['"', '"', '"'] <:+: body ++ ['"', '"'] :=
        fun inside => quotes (List.infix_cons inside)
      have backslashLater : body.getLast? ≠ some '\\' := by
        cases body with
        | nil => simp
        | cons d body => rwa [List.getLast?_cons_cons] at backslash
      rw [List.cons_append, blockStringFrom]
      · rw [ih quotesLater backslashLater]
        simp only [Extent.mk.injEq, true_and, List.length_cons]
        omega
      · -- three quotes here would stand in the body
        rintro tail rfl same
        obtain ⟨behind, same'⟩ := isPrefix_of_quotes (n := 2) (by omega) same
        exact quotes ⟨[], behind, by simpa using same'⟩
      · -- and a backslash in front of three quotes would end it
        rintro tail rfl same
        cases body with
        | nil => exact backslash rfl
        | cons d body =>
            have front := isPrefix_of_quotes (n := 3) (by simp) same
            exact quotesLater front.isInfix

theorem read_string {cs : List Char} (spelled : IsStringText cs) {rest : List Char}
    (stops : cs = ['"', '"'] → rest.head? ≠ some '"') :
    ∃ more, cs = '"' :: more ∧
      Token.read '"' (more ++ rest) = (.string (String.ofList cs), cs.length) := by
  have extent : ∀ {more : List Char} {n : Nat}, n = more.length + 1 →
      stringExtent (more ++ rest) = ⟨true, n⟩ →
      Token.read '"' (more ++ rest) = (.string (String.ofList ('"' :: more)), more.length + 1) := by
    rintro more n rfl extent
    have read : Token.read '"' (more ++ rest) =
        ofExtent .string (stringExtent (more ++ rest)) ('"' :: (more ++ rest)) := rfl
    rw [read, extent]
    simp [ofExtent]
  cases spelled with
  | @line body plain =>
      refine ⟨_, rfl, extent rfl ?_⟩
      rw [List.append_assoc, List.singleton_append, stringExtent_line plain fun empty => ?_]
      · simp only [List.length_append, List.length_singleton, Extent.mk.injEq, true_and]
        omega
      · exact stops (by rw [empty]; rfl)
  | @block body quotes backslash =>
      refine ⟨_, rfl, extent rfl ?_⟩
      have found := blockStringFrom_append quotes backslash 3 rest
      simp only [List.cons_append, List.append_assoc, List.nil_append, stringExtent, found,
        List.length_cons, List.length_append, List.length_nil, Extent.mk.injEq, true_and]
      omega

/-! ### Every token -/

/-- No gap starts with the character. -/
def IsSolid (c : Char) : Prop :=
  c ≠ ',' ∧ isBlank c = false ∧ c ≠ '#'

instance (c : Char) : Decidable (IsSolid c) :=
  inferInstanceAs (Decidable (_ ∧ _ ∧ _))

/-- A character with a property that no start of a gap has is solid. -/
theorem isSolid_of {p : Char → Bool} {c : Char} (holds : p c = true)
    (other : [',', ' ', '\t', '\n', '\r', '\ufeff', '#'].any p = false) : IsSolid c := by
  have ne : ∀ d ∈ [',', ' ', '\t', '\n', '\r', '\ufeff', '#'], c ≠ d := by
    rintro d among rfl
    exact List.any_eq_false.1 other c among holds
  refine ⟨ne ',' (by decide), ?_, ne '#' (by decide)⟩
  simp only [isBlank, Bool.or_eq_false_iff, decide_eq_false_iff_not]
  exact ⟨⟨⟨⟨ne _ (by decide), ne _ (by decide)⟩, ne _ (by decide)⟩, ne _ (by decide)⟩,
    ne _ (by decide)⟩

theorem isSolid_of_isNameStart {c : Char} (start : isNameStart c = true) : IsSolid c :=
  isSolid_of start rfl

theorem isSolid_of_digit_or_minus {c : Char} (first : c = '-' ∨ c.isDigit = true) :
    IsSolid c :=
  isSolid_of (isDigitOrMinus_iff.2 first) rfl

/-- A token is read from its text, if nothing behind it carries it on. -/
theorem IsSpelled.read {t : Token} (spelled : t.IsSpelled) {rest : List Char}
    (stops : t.Stops rest) :
    ∃ c more, t.text.toList = c :: more ∧ IsSolid c ∧
      Token.read c (more ++ rest) = (t, (c :: more).length) := by
  cases t with
  | punctuator p =>
      cases p
      all_goals exact ⟨_, _, rfl, by decide, rfl⟩
  | name text =>
      obtain ⟨c, more, same, start, all⟩ := spelled
      refine ⟨c, more, same, isSolid_of_isNameStart start, ?_⟩
      rw [read_name start all stops, ← same, String.ofList_toList]
  | number text =>
      obtain ⟨n, strict, same⟩ := spelled
      obtain ⟨c, more, shape, first, found⟩ := read_number strict stops
      refine ⟨c, more, same.trans shape, isSolid_of_digit_or_minus first, ?_⟩
      rw [found, ← shape, ← same, String.ofList_toList]
  | string text =>
      have stops : text.toList = ['"', '"'] → rest.head? ≠ some '"' := by
        intro empty
        exact stops (String.toList_inj.1 empty)
      obtain ⟨more, same, found⟩ := read_string spelled stops
      refine ⟨'"', more, same, by decide, ?_⟩
      rw [found, String.ofList_toList, same]
  | stray => cases spelled

end Token

/-! ## What stands behind a token -/

/-- Blanks and the mark of a comment carry no token on. -/
theorem Token.stops_of_blank_or_comment {c : Char}
    (between : c = ' ' ∨ c = '\t' ∨ c = '\n' ∨ c = '\r' ∨ c = '#') (t : Token)
    (rest : List Char) : t.Stops (c :: rest) := by
  have other : Token.isNameChar c = false ∧ c ≠ '.' ∧ c ≠ '"' := by
    rcases between with rfl | rfl | rfl | rfl | rfl <;> decide
  cases t with
  | name text =>
      rintro d head
      obtain rfl := Option.some.inj head
      exact other.1
  | number text =>
      rintro d head
      obtain rfl := Option.some.inj head
      exact ⟨other.1, other.2.1⟩
  | string text =>
      rintro - head
      exact other.2.2 (Option.some.inj head)
  | punctuator p => trivial
  | stray => trivial

theorem Token.stops_nil (t : Token) : t.Stops [] := by
  cases t with
  | name text => exact nofun
  | number text => exact nofun
  | string text => exact nofun
  | punctuator p => trivial
  | stray => trivial

theorem Token.IsSpelled.exists_head {t : Token} (spelled : t.IsSpelled) :
    ∃ c more, t.text.toList = c :: more ∧
      (isNameChar c = true → (∃ text, t = .name text) ∨
        ∃ text, t = .number text ∧ text.toList.head? ≠ some '-') ∧
      (c = '.' → t = .punctuator .spread) ∧ (c = '"' → ∃ text, t = .string text) := by
  cases t with
  | punctuator p =>
      cases p
      all_goals exact ⟨_, _, rfl, fun isChar => absurd isChar (by decide), by decide,
        fun quote => absurd quote (by decide)⟩
  | name text =>
      obtain ⟨c, more, same, start, -⟩ := spelled
      refine ⟨c, more, same, fun _ => .inl ⟨text, rfl⟩, ?_, ?_⟩
      · rintro rfl
        exact absurd start (by decide)
      · rintro rfl
        exact absurd start (by decide)
  | number text =>
      obtain ⟨n, strict, same⟩ := spelled
      obtain ⟨c, more, shape, first⟩ := strict.exists_head_text
      rw [shape] at same
      refine ⟨c, more, same, fun isChar => .inr ⟨text, rfl, ?_⟩, ?_, ?_⟩
      · rw [same]
        intro minus
        obtain rfl := Option.some.inj minus
        exact absurd isChar (by decide)
      · rintro rfl
        exact absurd first (by decide)
      · rintro rfl
        exact absurd first (by decide)
  | string text =>
      obtain ⟨more, same⟩ : ∃ more, text.toList = '"' :: more := by
        have spelled : IsStringText text.toList := spelled
        generalize text.toList = cs at spelled
        cases spelled with
        | line plain => exact ⟨_, rfl⟩
        | block quotes backslash => exact ⟨_, rfl⟩
      exact ⟨'"', more, same, fun isChar => absurd isChar (by decide),
        fun point => absurd point (by decide), fun _ => ⟨text, rfl⟩⟩
  | stray => cases spelled

/-- A token that does not merge with another does not carry it on. -/
theorem Token.stops_of_not_merges {t u : Token} (apart : ¬t.Merges u) (spelled : u.IsSpelled)
    (rest : List Char) : t.Stops (u.text.toList ++ rest) := by
  obtain ⟨c, more, same, nameChar, point, quote⟩ := spelled.exists_head
  rw [same]
  have notChar : (∀ text, ¬t.Merges (.name text) → False) →
      (∀ text, text.toList.head? ≠ some '-' → ¬t.Merges (.number text) → False) →
      isNameChar c = false := by
    intro nameMerges numberMerges
    rw [Bool.eq_false_iff]
    intro isChar
    rcases nameChar isChar with ⟨text, rfl⟩ | ⟨text, rfl, positive⟩
    · exact nameMerges text apart
    · exact numberMerges text positive apart
  cases t with
  | name text =>
      rintro d head
      obtain rfl := Option.some.inj head
      exact notChar (fun _ apart => apart trivial) fun _ positive apart => apart positive
  | number text =>
      rintro d head
      obtain rfl := Option.some.inj head
      refine ⟨notChar (fun _ apart => apart trivial) fun _ positive apart => apart positive, ?_⟩
      intro isPoint
      obtain rfl := point isPoint
      exact apart rfl
  | string text =>
      intro empty head
      obtain ⟨text', rfl⟩ := quote (Option.some.inj head)
      exact apart empty
  | punctuator p => trivial
  | stray => trivial

theorem Gap.stops_append {gap : List Char} (isGap : Gap gap) (nonempty : gap ≠ []) (t : Token)
    (rest : List Char) : t.Stops (gap ++ rest) := by
  cases isGap with
  | empty => exact absurd rfl nonempty
  | @blank c cs blank more =>
      apply Token.stops_of_blank_or_comment
      rcases blank with blank | blank | blank | blank <;> simp [blank]
  | comment inside lineBreak more =>
      apply Token.stops_of_blank_or_comment
      simp

theorem TextBehind.stops {t : Token} {ts : List Token} {cs : List Char}
    (text : TextBehind (some t) ts cs) : t.Stops cs := by
  cases text with
  | done isGap =>
      cases cs with
      | nil => exact t.stops_nil
      | cons c gap =>
          have stops := isGap.stops_append (List.cons_ne_nil c gap) t []
          rwa [List.append_nil] at stops
  | @comment _ gap body isGap inside =>
      cases gap with
      | nil => exact Token.stops_of_blank_or_comment (by simp) t body
      | cons c gap => exact isGap.stops_append (List.cons_ne_nil c gap) t _
  | @token _ u ts gap rest isGap apart spelled more =>
      cases gap with
      | nil => exact Token.stops_of_not_merges (apart rfl t rfl) spelled rest
      | cons c gap => exact isGap.stops_append (List.cons_ne_nil c gap) t _

/-! ## Spelled tokens are found -/

namespace Lexeme

theorem scan_blank {c : Char} (blank : c = ' ' ∨ c = '\t' ∨ c = '\n' ∨ c = '\r') (offset : Nat)
    (cs : List Char) : scan offset false (c :: cs) = scan (offset + c.utf8Size) false cs := by
  have notComma : c ≠ ',' := by
    rcases blank with rfl | rfl | rfl | rfl <;> decide
  have isBlank : Token.isBlank c = true := by
    rcases blank with rfl | rfl | rfl | rfl <;> decide
  rw [scan, if_neg notComma, if_pos isBlank]

/-- A comment goes to the end of its line. -/
theorem scan_comment {body rest : List Char} (inside : ∀ d ∈ body, d ≠ '\n' ∧ d ≠ '\r')
    (ends : ∀ c, rest.head? = some c → c = '\n' ∨ c = '\r') (offset : Nat) :
    scan offset false ('#' :: (body ++ rest)) =
      scan (offset + 1 + byteLength body) false rest := by
  have taken : (body ++ rest).takeWhile (fun c => !Token.isLineBreak c) = body := by
    have all : ∀ d ∈ body, (!Token.isLineBreak d) = true := by
      intro d among
      simp [Token.isLineBreak, inside d among]
    rw [List.takeWhile_append_of_pos all]
    cases rest with
    | nil => simp
    | cons c rest =>
        rw [List.takeWhile_cons_of_neg, List.append_nil]
        rcases ends c rfl with rfl | rfl <;> decide
  rw [scan, if_neg (by decide), if_neg (by decide), if_pos rfl, taken]
  show scan _ false ((body ++ rest).drop body.length) = _
  rw [List.drop_left]

theorem scan_gap_append {gap : List Char} (isGap : Gap gap) (offset : Nat) (cs : List Char) :
    ∃ start, scan offset false (gap ++ cs) = scan start false cs := by
  induction isGap generalizing offset with
  | empty => exact ⟨offset, rfl⟩
  | blank blank more ih =>
      rw [List.cons_append, scan_blank blank]
      exact ih _
  | @comment body more c inside lineBreak _ ih =>
      have lineEnd : c = ' ' ∨ c = '\t' ∨ c = '\n' ∨ c = '\r' := .inr (.inr lineBreak)
      rw [List.cons_append, List.append_assoc, scan_comment inside, List.cons_append,
        scan_blank lineEnd]
      · exact ih _
      · rintro d head
        obtain rfl := Option.some.inj head
        exact lineBreak

theorem scan_token {t : Token} (spelled : t.IsSpelled) {rest : List Char} (stops : t.Stops rest)
    (offset : Nat) :
    ∃ start, scan offset false (t.text.toList ++ rest) =
      ⟨t, offset, false⟩ :: scan start false rest := by
  obtain ⟨c, more, same, ⟨notComma, notBlank, notComment⟩, read⟩ := spelled.read stops
  rw [same, List.cons_append, scan, if_neg notComma, notBlank, if_neg Bool.false_ne_true,
    if_neg notComment, read]
  simp only [List.length_cons, Nat.add_sub_cancel, List.drop_left]
  exact ⟨_, rfl⟩

/-- The scanner finds the tokens that a text was written from, and no comma. -/
theorem scan_of_text {previous : Option Token} {ts : List Token} {cs : List Char}
    (text : TextBehind previous ts cs) (offset : Nat) :
    (scan offset false cs).map (·.token) = ts ∧
      ∀ l ∈ scan offset false cs, l.afterComma = false := by
  have nothing : ∀ start, scan start false [] = [] := fun start => by rw [scan]
  induction text generalizing offset with
  | @done _ gap isGap =>
      obtain ⟨start, skipped⟩ := scan_gap_append isGap offset []
      rw [List.append_nil, nothing] at skipped
      rw [skipped]
      exact ⟨rfl, List.forall_mem_nil _⟩
  | @comment _ gap body isGap inside =>
      obtain ⟨start, skipped⟩ := scan_gap_append isGap offset ('#' :: body)
      have atEnd : ∀ c, ([] : List Char).head? = some c → c = '\n' ∨ c = '\r' := by
        intro c head
        cases head
      have comment := scan_comment inside atEnd start
      rw [List.append_nil, nothing] at comment
      rw [skipped, comment]
      exact ⟨rfl, List.forall_mem_nil _⟩
  | @token _ t ts gap rest isGap apart spelled more ih =>
      obtain ⟨start, skipped⟩ := scan_gap_append isGap offset (t.text.toList ++ rest)
      obtain ⟨next, found⟩ := scan_token spelled more.stops start
      obtain ⟨tokens, plain⟩ := ih next
      rw [skipped, found]
      refine ⟨by rw [List.map_cons, tokens], ?_⟩
      exact List.forall_mem_cons.2 ⟨rfl, plain⟩

end Lexeme

/-! ## Where gaps are needed -/

namespace Token

theorem read_name_ne {text : String} (spelled : IsNameText text.toList) {c : Char}
    {more rest : List Char} (same : text.toList = c :: more)
    (goesOn : ∃ d, rest.head? = some d ∧ isNameChar d = true) :
    (Token.read c (more ++ rest)).1 ≠ .name text := by
  obtain ⟨c, more, same', start, all⟩ := spelled
  obtain ⟨rfl, rfl⟩ := List.cons.inj (same.symm.trans same')
  obtain ⟨d, head, isChar⟩ := goesOn
  intro read
  unfold Token.read at read
  rw [punctuator?_of_isNameStart start] at read
  simp only [start, if_true, Token.name.injEq] at read
  have taken : c :: (more ++ rest).takeWhile isNameChar = c :: more := by
    rw [← same, ← read, String.toList_ofList]
  rw [List.takeWhile_append_of_pos all] at taken
  cases rest with
  | nil => cases head
  | cons e rest =>
      obtain rfl := Option.some.inj head
      rw [List.takeWhile_cons_of_pos isChar] at taken
      simp at taken

theorem read_number_ne {text : String} (spelled : IsNumberText text.toList) {c : Char}
    {more rest : List Char} (same : text.toList = c :: more)
    (goesOn : ∃ d, rest.head? = some d ∧ (isNameChar d = true ∨ d = '.')) :
    (Token.read c (more ++ rest)).1 ≠ .number text := by
  obtain ⟨n, strict, shape⟩ := spelled
  obtain ⟨c, more, shape', first⟩ := strict.exists_head_text
  obtain ⟨rfl, rfl⟩ := List.cons.inj (same.symm.trans (shape.trans shape'))
  obtain ⟨d, head, carries⟩ := goesOn
  intro read
  rw [read_digit_or_minus first] at read
  unfold numberExtent at read
  cases length : numberLength? (c :: (more ++ rest)) with
  | none => simp [length, ofExtent] at read
  | some n =>
      simp only [length, ofExtent, if_true, Token.number.injEq] at read
      obtain ⟨⟨numeral, behind⟩, found, free⟩ := Option.bind_eq_some_iff.1 length
      simp only at free
      split at free
      · cases free
      · next ends =>
        -- the numeral that is found is the whole text, so the rest is what stands behind it
        obtain rfl := Option.some.inj free
        have whole := (Numeral.text_append_of_read? found).1
        have taken : numeral.text = c :: more := by
          rw [← same, ← read, String.toList_ofList, ← whole, List.take_left]
        rw [taken, List.cons_append] at whole
        have isRest : behind = rest := List.append_cancel_left (List.cons.inj whole).2
        rw [isRest, head] at ends
        rcases carries with isChar | rfl
        · simp [isChar] at ends
        · simp at ends

theorem le_length_blockStringFrom (taken : Nat) (cs : List Char) :
    taken ≤ (blockStringFrom taken cs).length := by
  fun_induction blockStringFrom taken cs with
  | case1 => exact Nat.le_refl _
  | case2 => exact Nat.le_add_right _ _
  | case3 _ _ ih => omega
  | case4 _ _ _ _ _ ih => omega

theorem read_empty_string_ne {rest : List Char} (goesOn : rest.head? = some '"') :
    (Token.read '"' ('"' :: rest)).1 ≠ .string "\"\"" := by
  obtain ⟨more, rfl⟩ : ∃ more, rest = '"' :: more := by
    cases rest with
    | nil => cases goesOn
    | cons c more => exact ⟨more, by rw [Option.some.inj goesOn]⟩
  intro read
  have long := le_length_blockStringFrom 3 more
  have shape : Token.read '"' ('"' :: '"' :: more) =
      ofExtent .string (blockStringFrom 3 more) ('"' :: '"' :: '"' :: more) := rfl
  rw [shape] at read
  unfold ofExtent at read
  split at read
  · have same := congrArg String.toList (Token.string.inj read)
    rw [String.toList_ofList] at same
    have length := congrArg List.length same
    rw [List.length_take] at length
    simp at length
    omega
  · cases read

theorem head?_of_name {cs : List Char} (spelled : IsNameText cs) :
    ∃ d, cs.head? = some d ∧ isNameChar d = true := by
  obtain ⟨d, rest, rfl, start, -⟩ := spelled
  exact ⟨d, rfl, isNameChar_of_isNameStart start⟩

theorem head?_of_number {cs : List Char} (spelled : IsNumberText cs)
    (positive : cs.head? ≠ some '-') : ∃ d, cs.head? = some d ∧ isNameChar d = true := by
  obtain ⟨n, strict, rfl⟩ := spelled
  obtain ⟨d, rest, same, first⟩ := strict.exists_head_text
  rw [same] at positive ⊢
  rcases first with rfl | digit
  · exact absurd rfl positive
  · exact ⟨d, rfl, by simp [isNameChar, Char.isAlphanum, digit]⟩

/-- Side by side with a token that it merges with, a token is not read. -/
theorem read_ne_of_merges {t u : Token} (spelled : t.IsSpelled) (next : u.IsSpelled)
    (merges : t.Merges u) {c : Char} {more : List Char} (same : t.text.toList = c :: more) :
    (Token.read c (more ++ u.text.toList)).1 ≠ t := by
  cases t with
  | name text =>
      apply read_name_ne spelled same
      cases u with
      | name text => exact head?_of_name next
      | number text => exact head?_of_number next merges
      | _ => cases merges
  | number text =>
      apply read_number_ne spelled same
      cases u with
      | name text =>
          obtain ⟨d, head, isChar⟩ := head?_of_name next
          exact ⟨d, head, .inl isChar⟩
      | number text =>
          obtain ⟨d, head, isChar⟩ := head?_of_number next merges
          exact ⟨d, head, .inl isChar⟩
      | punctuator p =>
          have spread : p = .spread := merges
          subst spread
          exact ⟨'.', rfl, .inr rfl⟩
      | _ => cases merges
  | string text =>
      cases u with
      | string text' =>
          have empty : text = "\"\"" := merges
          subst empty
          obtain ⟨rfl, rfl⟩ := List.cons.inj (same.symm.trans rfl)
          obtain ⟨more, shape, -⟩ := read_string next (fun _ => nofun : _ → [].head? ≠ some '"')
          apply read_empty_string_ne
          show text'.toList.head? = _
          rw [shape]
          rfl
      | _ => cases merges
  | _ => cases merges

end Token

/-- Two tokens may be written side by side exactly if they do not merge. -/
theorem Lexeme.scan_pair_iff {t u : Token} (spelled : t.IsSpelled) (next : u.IsSpelled)
    (offset : Nat) :
    (scan offset false (t.text.toList ++ u.text.toList)).map (·.token) = [t, u] ↔
      ¬t.Merges u := by
  constructor
  · intro tokens merges
    obtain ⟨c, more, same, ⟨notComma, notBlank, notComment⟩, -⟩ := spelled.read t.stops_nil
    have other := Token.read_ne_of_merges spelled next merges same
    rw [same, List.cons_append, scan, if_neg notComma, notBlank, if_neg Bool.false_ne_true,
      if_neg notComment] at tokens
    exact other (List.cons.inj tokens).1
  · intro apart
    have last : TextBehind (some t) [u] ([] ++ (u.text.toList ++ [])) :=
      .token .empty (fun _ v same => by rwa [← Option.some.inj same]) next (.done .empty)
    have text : TextBehind none [t, u]
        ([] ++ (t.text.toList ++ ([] ++ (u.text.toList ++ [])))) := by
      refine .token .empty ?_ spelled last
      intro _ v same
      cases same
    have found := (scan_of_text text offset).1
    rwa [List.nil_append, List.nil_append, List.append_nil] at found

end QueryCost.GraphQL
