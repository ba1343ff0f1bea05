/-
# QueryCost.Proofs.Json.Spelling -- how the tokens of JSON are written

The text of a list of tokens is described without the scanner: each token is written
in one of its spellings, and blanks stand between tokens and around them.  A string
may be spelled in many ways, since any of its characters may be escaped; a surrogate
stands for a character only in a pair.

Where no number follows a number the scanner finds the tokens again
(`scan_of_spelled`), and text in which it finds no stray token and no string without
a text is spelled that way (`spelled_of_scan`).
-/
import Mathlib.Data.List.Chain
import QueryCost.Json.Token
import QueryCost.Proofs.Decimal.Strict

namespace QueryCost.Json

open QueryCost.Decimal QueryCost.Text

set_option autoImplicit false

/-! ## Strings -/

/-- A text, and what may stand for it between the quotes of a string. -/
inductive StringBody : List Char → List Char → Prop
  | empty : StringBody [] []
  | plain {text body : List Char} {c : Char} (notQuote : c ≠ '"') (notBackslash : c ≠ '\\')
      (notControl : ¬c < ' ') (more : StringBody text body) :
      StringBody (c :: text) (c :: body)
  | short {text body : List Char} {mark c : Char} (escapes : Token.shortEscape? mark = some c)
      (more : StringBody text body) :
      StringBody (c :: text) ('\\' :: mark :: body)
  | unit {text body : List Char} {a b c d : Char} {unit : Nat}
      (digits : codeUnit? [a, b, c, d] = some unit) (notLead : isLeadSurrogate unit = false)
      (notTrail : isTrailSurrogate unit = false) (more : StringBody text body) :
      StringBody (Char.ofNat unit :: text) ('\\' :: 'u' :: a :: b :: c :: d :: body)
  | pair {text body : List Char} {a b c d e f g h : Char} {lead trail : Nat}
      (leadDigits : codeUnit? [a, b, c, d] = some lead) (isLead : isLeadSurrogate lead = true)
      (trailDigits : codeUnit? [e, f, g, h] = some trail) (isTrail : isTrailSurrogate trail = true)
      (more : StringBody text body) :
      StringBody (ofSurrogates lead trail :: text)
        ('\\' :: 'u' :: a :: b :: c :: d :: '\\' :: 'u' :: e :: f :: g :: h :: body)

namespace Token

theorem longEscape?_unit {a b c d : Char} {unit : Nat} (rest : List Char)
    (digits : codeUnit? [a, b, c, d] = some unit) (notLead : isLeadSurrogate unit = false)
    (notTrail : isTrailSurrogate unit = false) :
    longEscape? (a :: b :: c :: d :: rest) = some (some (Char.ofNat unit), 4) := by
  have digits : codeUnit? (a :: b :: c :: d :: rest) = some unit := digits
  simp [longEscape?, digits, notLead, notTrail]

theorem longEscape?_pair {a b c d e f g h : Char} {lead trail : Nat} (rest : List Char)
    (leadDigits : codeUnit? [a, b, c, d] = some lead) (isLead : isLeadSurrogate lead = true)
    (trailDigits : codeUnit? [e, f, g, h] = some trail)
    (isTrail : isTrailSurrogate trail = true) :
    longEscape? (a :: b :: c :: d :: '\\' :: 'u' :: e :: f :: g :: h :: rest)
      = some (some (ofSurrogates lead trail), 10) := by
  have leadDigits : codeUnit? (a :: b :: c :: d :: '\\' :: 'u' :: e :: f :: g :: h :: rest)
      = some lead := leadDigits
  have trailDigits : codeUnit? (e :: f :: g :: h :: rest) = some trail := trailDigits
  simp [longEscape?, leadDigits, isLead, trailDigits, isTrail]

theorem readString_of_body {text body : List Char} (spelled : StringBody text body)
    (done rest : List Char) :
    readString (some done) (body ++ '"' :: rest)
      = some (some (String.ofList (done.reverse ++ text)), rest) := by
  induction spelled generalizing done with
  | empty => simp [readString]
  | @plain text body c notQuote notBackslash notControl more ih =>
      have step : readString (some done) (c :: (body ++ '"' :: rest))
          = readString (some (c :: done)) (body ++ '"' :: rest) := by
        rw [readString]
        · simp [notControl]
        · exact notQuote
        · intro rest backslash
          exact absurd backslash notBackslash
        · intro mark rest backslash
          exact absurd backslash notBackslash
      rw [List.cons_append, step, ih]
      simp
  | @short text body mark c escapes more ih =>
      have notLong : mark ≠ 'u' := by
        rintro rfl
        cases escapes
      have step : readString (some done) ('\\' :: mark :: (body ++ '"' :: rest))
          = readString (some (c :: done)) (body ++ '"' :: rest) := by
        rw [readString]
        · simp [escapes]
        · exact notLong
      rw [List.cons_append, List.cons_append, step, ih]
      simp
  | unit digits notLead notTrail more ih =>
      simp only [List.cons_append]
      rw [readString, longEscape?_unit _ digits notLead notTrail]
      simp only [List.drop_succ_cons, List.drop_zero, Option.bind_some, Option.map_some]
      rw [ih]
      simp
  | pair leadDigits isLead trailDigits isTrail more ih =>
      simp only [List.cons_append]
      rw [readString, longEscape?_pair _ leadDigits isLead trailDigits isTrail]
      simp only [List.drop_succ_cons, List.drop_zero, Option.bind_some, Option.map_some]
      rw [ih]
      simp

theorem exists_digits_of_codeUnit? {cs : List Char} {unit : Nat}
    (digits : codeUnit? cs = some unit) :
    ∃ a b c d rest, cs = a :: b :: c :: d :: rest ∧ codeUnit? [a, b, c, d] = some unit := by
  unfold codeUnit? at digits
  split at digits
  · exact ⟨_, _, _, _, _, rfl, digits⟩
  · cases digits

/-- A long escape that stands for a character is a unit outside the surrogates or a pair. -/
theorem body_of_longEscape? {cs text body : List Char} {c : Char} {n : Nat}
    (escape : longEscape? cs = some (some c, n)) (more : StringBody text body)
    {rest : List Char} (behind : cs.drop n = body ++ '"' :: rest) :
    ∃ digits, cs = digits ++ body ++ '"' :: rest ∧
      StringBody (c :: text) ('\\' :: 'u' :: (digits ++ body)) := by
  obtain ⟨unit, lead, escape⟩ := Option.bind_eq_some_iff.1 escape
  obtain ⟨a, b, c', d, cs', rfl, leadDigits⟩ := exists_digits_of_codeUnit? lead
  simp only [List.drop_succ_cons, List.drop_zero] at escape
  split at escape
  · next isLead =>
    split at escape
    · next trailText =>
      split at escape
      · next trail trailRead =>
        split at escape
        · next isTrail =>
          simp only [Option.some.injEq, Prod.mk.injEq] at escape
          obtain ⟨rfl, rfl⟩ := escape
          obtain ⟨e, f, g, h, cs'', rfl, trailDigits⟩ := exists_digits_of_codeUnit? trailRead
          simp only [List.drop_succ_cons, List.drop_zero] at behind
          exact ⟨[a, b, c', d, '\\', 'u', e, f, g, h], by simp [behind],
            .pair leadDigits isLead trailDigits isTrail more⟩
        · simp at escape
      · simp at escape
    · simp at escape
  · next notLead =>
    split at escape
    · simp at escape
    · next notTrail =>
      simp only [Option.some.injEq, Prod.mk.injEq] at escape
      obtain ⟨rfl, rfl⟩ := escape
      simp only [List.drop_succ_cons, List.drop_zero] at behind
      exact ⟨[a, b, c', d], by simp [behind],
        .unit leadDigits (Bool.eq_false_iff.2 notLead) (Bool.eq_false_iff.2 notTrail) more⟩

/-- After a lone surrogate a string denotes no text any more. -/
theorem readString_none {cs rest : List Char} {text : Option String}
    (read : readString none cs = some (text, rest)) : text = none := by
  generalize lost : (none : Option (List Char)) = done at read
  fun_induction readString done cs with
  | case1 => cases read
  | case2 =>
    subst lost
    simp only [Option.map_none, Option.some.injEq, Prod.mk.injEq] at read
    exact read.1.symm
  | case3 _ _ _ _ _ ih =>
    subst lost
    exact ih rfl read
  | case4 => cases read
  | case5 _ _ _ _ _ _ ih =>
    subst lost
    exact ih rfl read
  | case6 => cases read
  | case7 => cases read
  | case8 _ _ _ _ _ _ _ ih =>
    subst lost
    exact ih rfl read

theorem body_of_readString {done cs rest : List Char} {t : String}
    (read : readString (some done) cs = some (some t, rest)) :
    ∃ text body, StringBody text body ∧ cs = body ++ '"' :: rest ∧
      t = String.ofList (done.reverse ++ text) := by
  generalize kept : some done = done' at read
  fun_induction readString done' cs generalizing done with
  | case1 => cases read
  | case2 =>
    subst kept
    simp only [Option.map_some, Option.some.injEq, Prod.mk.injEq] at read
    obtain ⟨rfl, rfl⟩ := read
    exact ⟨[], [], .empty, rfl, by simp⟩
  | case3 done' cs c n escape ih =>
    subst kept
    cases c with
    | none => cases readString_none read
    | some c =>
      obtain ⟨text, body, more, behind, rfl⟩ := ih rfl read
      obtain ⟨digits, same, spelled⟩ := body_of_longEscape? escape more behind
      exact ⟨c :: text, _, spelled, by simp [same], by simp⟩
  | case4 => cases read
  | case5 done' mark cs notLong c escapes ih =>
    subst kept
    obtain ⟨text, body, more, rfl, rfl⟩ := ih rfl read
    exact ⟨c :: text, _, .short escapes more, rfl, by simp⟩
  | case6 => cases read
  | case7 => cases read
  | case8 done' c cs notQuote notLong notShort notControl ih =>
    subst kept
    obtain ⟨text, body, more, rfl, rfl⟩ := ih rfl read
    refine ⟨c :: text, c :: body, .plain notQuote ?_ notControl more, rfl, by simp⟩
    -- a backslash is followed by something, the closing quote if nothing else
    rintro rfl
    cases body with
    | nil => exact notShort '"' rest rfl rfl
    | cons d body => exact notShort d (body ++ '"' :: rest) rfl rfl

end Token

/-! ## Tokens -/

/-- The ways to write a token. -/
inductive Token.Spelling : Token → List Char → Prop
  | braceLeft : Spelling .braceLeft ['\x7b']
  | braceRight : Spelling .braceRight ['\x7d']
  | bracketLeft : Spelling .bracketLeft ['[']
  | bracketRight : Spelling .bracketRight [']']
  | colon : Spelling .colon [':']
  | comma : Spelling .comma [',']
  | null : Spelling .null ['n', 'u', 'l', 'l']
  | yes : Spelling (.boolean true) ['t', 'r', 'u', 'e']
  | no : Spelling (.boolean false) ['f', 'a', 'l', 's', 'e']
  | number {n : Numeral} (strict : n.Strict) : Spelling (.number n) n.text
  | string {text body : List Char} (spelled : StringBody text body) :
      Spelling (.string (some (String.ofList text))) ('"' :: (body ++ ['"']))

/-- Blanks and line breaks. -/
def IsBlanks (cs : List Char) : Prop :=
  ∀ c ∈ cs, c = ' ' ∨ c = '\t' ∨ c = '\n' ∨ c = '\r'

theorem isBlanks_nil : IsBlanks [] :=
  List.forall_mem_nil _

/-- The texts of a list of tokens: blanks may stand around every token. -/
inductive TokenText : List Token → List Char → Prop
  | done {blanks : List Char} (blank : IsBlanks blanks) : TokenText [] blanks
  | token {t : Token} {ts : List Token} {blanks cs rest : List Char} (blank : IsBlanks blanks)
      (spelled : t.Spelling cs) (more : TokenText ts rest) :
      TokenText (t :: ts) (blanks ++ (cs ++ rest))

def Token.isNumber : Token → Bool
  | .number _ => true
  | _ => false

/-- Two tokens that may stand side by side without a blank. -/
def Token.Apart (t u : Token) : Prop :=
  t.isNumber = true → u.isNumber = false

namespace TokenText

theorem blank_append {ts : List Token} {blanks cs : List Char} (blank : IsBlanks blanks)
    (text : TokenText ts cs) : TokenText ts (blanks ++ cs) := by
  have both : ∀ {more : List Char}, IsBlanks more → IsBlanks (blanks ++ more) := by
    intro more blankMore c among
    rcases List.mem_append.1 among with among | among
    · exact blank c among
    · exact blankMore c among
  cases text with
  | done blankMore => exact .done (both blankMore)
  | token blankMore spelled more =>
      rw [← List.append_assoc]
      exact .token (both blankMore) spelled more

theorem append {ts us : List Token} {cs ds : List Char} (left : TokenText ts cs)
    (right : TokenText us ds) : TokenText (ts ++ us) (cs ++ ds) := by
  induction left with
  | done blank => exact right.blank_append blank
  | token blank spelled more ih =>
      rw [List.append_assoc, List.append_assoc]
      exact .token blank spelled ih

/-- The text of one token, written without blanks. -/
theorem single {t : Token} {cs : List Char} (spelled : t.Spelling cs) : TokenText [t] cs := by
  have text : TokenText [t] ([] ++ (cs ++ [])) :=
    .token isBlanks_nil spelled (.done isBlanks_nil)
  rwa [List.nil_append, List.append_nil] at text

end TokenText

/-! ## Spelled tokens are found -/

theorem isBlank_iff (c : Char) :
    Token.isBlank c = true ↔ c = ' ' ∨ c = '\t' ∨ c = '\n' ∨ c = '\r' := by
  simp only [Token.isBlank, Bool.or_eq_true, decide_eq_true_eq, or_assoc]

namespace Token

/-- The first character of a token, which is no blank and, but for a number, goes into none. -/
theorem Spelling.exists_head {t : Token} {cs : List Char} (spelled : t.Spelling cs) :
    ∃ c more, cs = c :: more ∧ isBlank c = false ∧
      (t.isNumber = false → c.isDigit = false ∧ c ≠ '.' ∧ c ≠ 'e' ∧ c ≠ 'E') := by
  cases spelled with
  | number strict =>
      obtain ⟨c, more, same, first⟩ := strict.exists_head_text
      refine ⟨c, more, same, ?_, fun other => nomatch other⟩
      rcases first with rfl | digit
      · rfl
      · rw [Bool.eq_false_iff, Ne, isBlank_iff]
        rintro (rfl | rfl | rfl | rfl) <;> exact absurd digit (by decide)
  | string => exact ⟨_, _, rfl, rfl, fun _ => by decide⟩
  | _ => exact ⟨_, _, rfl, rfl, fun _ => by decide⟩

theorem read?_number {n : Numeral} (strict : n.Strict) {rest : List Char}
    (ends : EndsNumeral rest) : read? (n.text ++ rest) = some (.number n, rest) := by
  have found := Numeral.read?_text_append strict ends
  obtain ⟨c, more, same, first⟩ := strict.exists_head_text
  rw [same, List.cons_append] at found ⊢
  unfold read?
  split
  all_goals first
    | rw [found, Option.map_some]
    | -- the other tokens start neither with a minus sign nor with a digit
      next shape =>
        injection shape with shape
        subst shape
        exact absurd first (by decide)

theorem Spelling.read? {t : Token} {cs : List Char} (spelled : t.Spelling cs) {rest : List Char}
    (ends : t.isNumber = true → EndsNumeral rest) :
    Token.read? (cs ++ rest) = some (t, rest) := by
  cases spelled with
  | number strict => exact read?_number strict (ends rfl)
  | @string text body spelled =>
      have found := readString_of_body spelled [] rest
      simp only [List.cons_append, List.append_assoc, List.nil_append, Token.read?, found,
        Option.map_some, List.reverse_nil]
  | _ => rfl

theorem scan_blanks_append {blanks : List Char} (blank : IsBlanks blanks) (cs : List Char) :
    scan (blanks ++ cs) = scan cs := by
  induction blanks with
  | nil => rfl
  | cons c blanks ih =>
      have isBlank : isBlank c = true := (isBlank_iff c).2 (blank c List.mem_cons_self)
      rw [List.cons_append, scan, if_pos isBlank]
      exact ih fun d among => blank d (List.mem_cons_of_mem c among)

theorem scan_of_read? {c : Char} {cs rest : List Char} {t : Token} (solid : isBlank c = false)
    (found : read? (c :: cs) = some (t, rest)) : scan (c :: cs) = t :: scan rest := by
  rw [scan, if_neg (by rw [solid]; decide)]
  split
  · next t' rest' found' =>
    rw [found] at found'
    obtain ⟨rfl, rfl⟩ := Prod.mk.inj (Option.some.inj found')
    rfl
  · next lost =>
    rw [found] at lost
    cases lost

end Token

theorem TokenText.endsNumeral {ts : List Token} {cs : List Char} (text : TokenText ts cs)
    (first : ∀ t, ts.head? = some t → t.isNumber = false) : EndsNumeral cs := by
  intro c head
  cases text with
  | done blank =>
      rcases blank c (List.mem_of_head? head) with rfl | rfl | rfl | rfl <;> decide
  | @token t ts blanks cs rest blank spelled more =>
      cases blanks with
      | nil =>
          obtain ⟨d, tail, rfl, -, outside⟩ := spelled.exists_head
          simp only [List.nil_append, List.cons_append, List.head?_cons,
            Option.some.injEq] at head
          rw [← head]
          exact outside (first t rfl)
      | cons d blanks =>
          simp only [List.cons_append, List.head?_cons, Option.some.injEq] at head
          rw [← head]
          rcases blank d List.mem_cons_self with rfl | rfl | rfl | rfl <;> decide

/-- The scanner finds the tokens that a text was written from. -/
theorem scan_of_spelled {ts : List Token} {cs : List Char} (text : TokenText ts cs)
    (apart : ts.IsChain Token.Apart) : Token.scan cs = ts := by
  induction text with
  | @done blanks blank =>
      have skipped := Token.scan_blanks_append blank []
      rw [List.append_nil] at skipped
      rw [skipped, Token.scan]
  | @token t ts blanks cs rest blank spelled more ih =>
      rw [List.isChain_cons] at apart
      have ends : t.isNumber = true → EndsNumeral rest := fun number =>
        more.endsNumeral fun u head => apart.1 u head number
      have found := spelled.read? ends
      obtain ⟨c, tail, rfl, solid, -⟩ := spelled.exists_head
      rw [List.cons_append] at found
      rw [Token.scan_blanks_append blank, List.cons_append, Token.scan_of_read? solid found,
        ih apart.2]

/-! ## Tokens that are found are spelled -/

namespace Token

theorem spelling_of_read? {t : Token} {cs rest : List Char} (read : read? cs = some (t, rest))
    (denotes : t ≠ .string none) : ∃ front, cs = front ++ rest ∧ t.Spelling front := by
  unfold read? at read
  split at read
  case h_10 =>
    obtain ⟨⟨text, r⟩, found, same⟩ := Option.map_eq_some_iff.1 read
    obtain ⟨rfl, rfl⟩ := Prod.mk.inj same
    cases text with
    | none => exact absurd rfl denotes
    | some text =>
        obtain ⟨text, body, spelled, rfl, rfl⟩ := body_of_readString found
        exact ⟨'"' :: (body ++ ['"']), by simp, .string spelled⟩
  case h_11 =>
    obtain ⟨⟨n, r⟩, found, same⟩ := Option.map_eq_some_iff.1 read
    obtain ⟨rfl, rfl⟩ := Prod.mk.inj same
    exact ⟨n.text, (Numeral.text_append_of_read? found).1.symm,
      .number (Numeral.strict_of_read? found)⟩
  all_goals
    simp only [Option.some.injEq, Prod.mk.injEq] at read
    obtain ⟨rfl, rfl⟩ := read
    exact ⟨_, rfl, by constructor⟩

/-- A token that is written in full: neither stray nor a string that denotes no text. -/
def Sound : Token → Prop
  | .string none => False
  | .stray => False
  | _ => True

end Token

theorem spelled_of_scan {ts : List Token} {cs : List Char} (scanned : Token.scan cs = ts)
    (sound : ∀ t ∈ ts, t.Sound) : TokenText ts cs := by
  fun_induction Token.scan cs generalizing ts with
  | case1 =>
      subst scanned
      exact .done isBlanks_nil
  | case2 c cs blank ih =>
      have text := ih scanned sound
      have blanks : IsBlanks [c] := by
        intro d among
        rw [List.mem_singleton.1 among]
        exact (isBlank_iff c).1 blank
      exact text.blank_append blanks
  | case3 c cs solid t rest found ih =>
      subst scanned
      have more := ih rfl fun u among => sound u (List.mem_cons_of_mem t among)
      have denotes : t ≠ .string none := by
        rintro rfl
        exact sound _ List.mem_cons_self
      obtain ⟨front, same, spelled⟩ := Token.spelling_of_read? found denotes
      rw [same]
      exact .token isBlanks_nil spelled more
  | case4 =>
      subst scanned
      exact (sound _ List.mem_cons_self).elim

/-! ## No text holds a NUL -/

theorem isSome_hexDigit?_of_foldl {base : Nat} {ds : List Char} {n : Nat} :
    ∀ {start : Option Nat},
      ds.foldl (fun acc c => acc.bind fun n =>
        (hexDigit? c).bind fun d => if d < base then some (n * base + d) else none) start = some n →
      ∀ c ∈ ds, (hexDigit? c).isSome = true := by
  induction ds with
  | nil => exact fun _ _ among => nomatch among
  | cons d ds ih =>
      intro start named c among
      rcases List.mem_cons.1 among with rfl | among
      · -- where a digit is missing nothing is named, whatever follows
        have lost : ∀ es : List Char, es.foldl (fun acc c => acc.bind fun n =>
            (hexDigit? c).bind fun d => if d < base then some (n * base + d) else none) none
              = none := by
          intro es
          induction es with
          | nil => rfl
          | cons e es ih => exact ih
        cases digit : hexDigit? c with
        | some d => rfl
        | none =>
            rw [List.foldl_cons, digit] at named
            simp only [Option.bind_none, Option.bind_fun_none, lost] at named
            cases named
      · exact ih named c among

theorem ne_nul_of_codeUnit? {ds : List Char} {unit : Nat} (digits : codeUnit? ds = some unit)
    (four : ds.length = 4) {c : Char} (among : c ∈ ds) : c ≠ '\x00' := by
  rintro rfl
  obtain ⟨a, b, d, e, rest, rfl, named⟩ := Token.exists_digits_of_codeUnit? digits
  obtain rfl : rest = [] := List.eq_nil_of_length_eq_zero (by simpa using four)
  exact absurd (isSome_hexDigit?_of_foldl named _ among) (by decide)

theorem nul_notMem_body {text body : List Char} (spelled : StringBody text body) :
    '\x00' ∉ body := by
  induction spelled with
  | empty => exact fun among => nomatch among
  | plain _ _ notControl more ih =>
      intro among
      rcases List.mem_cons.1 among with rfl | among
      · exact notControl (by decide)
      · exact ih among
  | @short _ _ mark c escapes more ih =>
      intro among
      rcases List.mem_cons.1 among with same | among
      · cases same
      · rcases List.mem_cons.1 among with rfl | among
        · cases escapes
        · exact ih among
  | @unit _ body a b c d _ digits _ _ more ih =>
      intro among
      have split : '\x00' ∈ ['\\', 'u'] ++ [a, b, c, d] ++ body := among
      simp only [List.mem_append, or_assoc] at split
      rcases split with escape | among | among
      · exact absurd escape (by decide)
      · exact ne_nul_of_codeUnit? digits rfl among rfl
      · exact ih among
  | @pair _ body a b c d e f g h _ _ leadDigits _ trailDigits _ more ih =>
      intro among
      have split :
          '\x00' ∈ ['\\', 'u'] ++ [a, b, c, d] ++ ['\\', 'u'] ++ [e, f, g, h] ++ body := among
      simp only [List.mem_append, or_assoc] at split
      rcases split with escape | among | escape | among | among
      · exact absurd escape (by decide)
      · exact ne_nul_of_codeUnit? leadDigits rfl among rfl
      · exact absurd escape (by decide)
      · exact ne_nul_of_codeUnit? trailDigits rfl among rfl
      · exact ih among

theorem nul_notMem_digits {cs : List Char} (digits : ∀ c ∈ cs, c.isDigit = true) :
    '\x00' ∉ cs :=
  fun among => absurd (digits _ among) (by decide)

theorem nul_notMem_text {n : Numeral} (strict : n.Strict) : '\x00' ∉ n.text := by
  obtain ⟨negative, whole, fraction, exponent⟩ := n
  obtain ⟨digits, -, fractional, exponential⟩ := strict
  simp only [Numeral.text, List.mem_append, not_or]
  refine ⟨⟨⟨?_, nul_notMem_digits digits.2⟩, ?_⟩, ?_⟩
  · cases negative <;> simp
  · rcases fractional with rfl | digits
    · exact List.not_mem_nil
    · simp only [digits.isEmpty, Bool.false_eq_true, if_false, List.mem_cons, not_or]
      exact ⟨by decide, nul_notMem_digits digits.2⟩
  · cases exponent with
    | none => exact List.not_mem_nil
    | some e =>
        obtain ⟨mark, sign, digits⟩ := exponential e rfl
        simp only [Option.map_some, Option.getD_some, Exponent.text, List.cons_append,
          List.mem_cons, List.mem_append, not_or]
        refine ⟨?_, ?_, nul_notMem_digits digits.2⟩
        · rcases mark with same | same <;> rw [same] <;> decide
        · rcases sign with same | same | same <;> rw [same] <;> decide

theorem Token.Spelling.nul_notMem {t : Token} {cs : List Char} (spelled : t.Spelling cs) :
    '\x00' ∉ cs := by
  cases spelled with
  | number strict => exact nul_notMem_text strict
  | string spelled =>
      simp only [List.mem_cons, List.mem_append, List.not_mem_nil, or_false, not_or]
      exact ⟨by decide, nul_notMem_body spelled, by decide⟩
  | _ => decide

theorem TokenText.nul_notMem {ts : List Token} {cs : List Char} (text : TokenText ts cs) :
    '\x00' ∉ cs := by
  have blankFree : ∀ {blanks : List Char}, IsBlanks blanks → '\x00' ∉ blanks := by
    intro blanks blank among
    rcases blank _ among with same | same | same | same <;> cases same
  induction text with
  | done blank => exact blankFree blank
  | token blank spelled more ih =>
      simp only [List.mem_append, not_or]
      exact ⟨blankFree blank, spelled.nul_notMem, ih⟩

end QueryCost.Json
