/-
# QueryCost.Proofs.Json.Reading -- the tokens of a written value

A written value has its tokens in one order only, and a nesting: the most arrays and
objects that stand in each other in it.  The reader takes one value from a list of
tokens if and only if the list starts with the tokens of that value and the ceiling
allows its nesting (`read?_eq_some_iff`).

Both directions follow the frames.  A value that is read inside open frames is put
into the innermost of them, and reading resumes there (`readFrom_tokens`); the other
way, whatever a run takes up to that point are the tokens of some value
(`takes`).
-/
import QueryCost.Json.Denotation
import QueryCost.Proofs.Json.Spelling

namespace QueryCost.Json.Written

set_option autoImplicit false

/-! ## Tokens and nesting -/

mutual

def tokens : Written → List Token
  | .null => [.null]
  | .boolean b => [.boolean b]
  | .number n => [.number n]
  | .string text => [.string text]
  | .array [] => [.bracketLeft, .bracketRight]
  | .array (item :: rest) =>
      .bracketLeft :: (tokens item ++ (moreItems rest ++ [.bracketRight]))
  | .object [] => [.braceLeft, .braceRight]
  | .object ((name, value) :: rest) =>
      .braceLeft :: .string name :: .colon ::
        (tokens value ++ (moreMembers rest ++ [.braceRight]))

/-- The tokens of further items of an array, each behind a comma. -/
def moreItems : List Written → List Token
  | [] => []
  | item :: rest => .comma :: (tokens item ++ moreItems rest)

/-- The tokens of further members of an object, each behind a comma. -/
def moreMembers : List (Option String × Written) → List Token
  | [] => []
  | (name, value) :: rest =>
      .comma :: .string name :: .colon :: (tokens value ++ moreMembers rest)

end

mutual

/-- The most arrays and objects that stand in each other in a value. -/
def nesting : Written → Nat
  | .array items => itemsNesting items + 1
  | .object members => membersNesting members + 1
  | .null | .boolean _ | .number _ | .string _ => 0

def itemsNesting : List Written → Nat
  | [] => 0
  | item :: rest => max (nesting item) (itemsNesting rest)

def membersNesting : List (Option String × Written) → Nat
  | [] => 0
  | (_, value) :: rest => max (nesting value) (membersNesting rest)

end

theorem exists_head_tokens (w : Written) :
    ∃ t ts, w.tokens = t :: ts ∧ t ≠ .bracketRight := by
  cases w with
  | array items =>
      cases items with
      | nil => exact ⟨_, _, rfl, nofun⟩
      | cons item rest => exact ⟨_, _, rfl, nofun⟩
  | object members =>
      cases members with
      | nil => exact ⟨_, _, rfl, nofun⟩
      | cons member rest => exact ⟨_, _, rfl, nofun⟩
  | _ => exact ⟨_, _, rfl, nofun⟩

/-! ## Ceilings -/

/-- Whether so many arrays and objects may stand in each other. -/
def allows (ceiling : Option Nat) (n : Nat) : Bool :=
  ceiling.all (n ≤ ·)

theorem allows_max (ceiling : Option Nat) (a b k : Nat) :
    allows ceiling (max a b + k) = (allows ceiling (a + k) && allows ceiling (b + k)) := by
  cases ceiling with
  | none => rfl
  | some limit =>
      rw [Bool.eq_iff_iff, Bool.and_eq_true]
      simp only [allows, Option.all_some, decide_eq_true_eq]
      omega

theorem allows_of_le {ceiling : Option Nat} {a b : Nat} (le : a ≤ b)
    (allowed : allows ceiling b = true) : allows ceiling a = true := by
  cases ceiling with
  | none => rfl
  | some limit =>
      simp only [allows, Option.all_some, decide_eq_true_eq] at allowed ⊢
      omega

theorem opened_eq (ceiling : Option Nat) (frames : List Frame) (s : State) :
    opened ceiling frames s =
      if allows ceiling (frames.length + 1) then some (.more s) else none := by
  cases ceiling with
  | none => rfl
  | some limit =>
      simp only [opened, allows, Option.any_some, Option.all_some, decide_eq_true_eq]
      by_cases le : limit ≤ frames.length
      · rw [if_pos le, if_neg (by omega)]
      · rw [if_neg le, if_pos (by omega)]

/-! ## Reading resumes -/

/-- What becomes of a run after a step. -/
def resume (ceiling : Option Nat) : Option Step → List Token → Option (Written × List Token)
  | none, _ => none
  | some (.done v), ts => some (v, ts)
  | some (.more s), ts => readFrom ceiling s ts

theorem readFrom_cons (ceiling : Option Nat) (s : State) (t : Token) (ts : List Token) :
    readFrom ceiling s (t :: ts) = resume ceiling (step ceiling s t) ts := by
  rw [readFrom]
  cases step ceiling s t with
  | none => rfl
  | some next => cases next <;> rfl

/-- In an array that is still empty all but its end is the start of a value. -/
theorem step_firstItem {t : Token} (notEnd : t ≠ .bracketRight) (ceiling : Option Nat)
    (frames : List Frame) :
    step ceiling ⟨.firstItem, frames⟩ t = step ceiling ⟨.value, frames⟩ t := by
  cases t with
  | bracketRight => exact absurd rfl notEnd
  | _ =>
      cases frames with
      | nil => rfl
      | cons frame frames => cases frame <;> rfl

theorem readFrom_firstItem (ceiling : Option Nat) (frames : List Frame) (w : Written)
    (ts : List Token) :
    readFrom ceiling ⟨.firstItem, frames⟩ (w.tokens ++ ts) =
      readFrom ceiling ⟨.value, frames⟩ (w.tokens ++ ts) := by
  obtain ⟨t, more, same, notEnd⟩ := exists_head_tokens w
  rw [same, List.cons_append, readFrom_cons, readFrom_cons, step_firstItem notEnd]

/-! ## The tokens of a value are read -/

mutual

theorem readFrom_tokens (ceiling : Option Nat) (frames : List Frame)
    (held : allows ceiling frames.length = true) :
    ∀ (w : Written) (ts : List Token),
      readFrom ceiling ⟨.value, frames⟩ (w.tokens ++ ts) =
        if allows ceiling (w.nesting + frames.length) then
          resume ceiling (some (complete w frames)) ts
        else none
  | .null, ts | .boolean b, ts | .number n, ts | .string text, ts => by
      rw [nesting, Nat.zero_add, if_pos held, tokens, List.cons_append, readFrom_cons]
      rfl
  | .array [], ts => by
      simp only [tokens, List.cons_append, List.nil_append, readFrom_cons, step, startValue,
        opened_eq, nesting, itemsNesting, Nat.zero_add, Nat.add_comm 1]
      split
      · simp only [resume, readFrom_cons, step]
      · rfl
  | .array (item :: rest), ts => by
      simp only [tokens, List.cons_append, List.append_assoc, List.nil_append, readFrom_cons,
        step, startValue, opened_eq]
      by_cases room : allows ceiling (frames.length + 1) = true
      · rw [if_pos room]
        simp only [resume, readFrom_firstItem, nesting, itemsNesting, Nat.add_assoc,
          Nat.add_comm 1, allows_max]
        rw [readFrom_tokens ceiling (.array [] :: frames) room item]
        simp only [List.length_cons, complete, resume,
          readFrom_moreItems ceiling frames room rest]
        by_cases allowed : allows ceiling (nesting item + (frames.length + 1)) = true
        · simp [allowed]
        · simp [allowed]
      · rw [if_neg room, if_neg fun allowed => room (allows_of_le (by rw [nesting]; omega) allowed)]
        rfl
  | .object [], ts => by
      simp only [tokens, List.cons_append, List.nil_append, readFrom_cons, step, startValue,
        opened_eq, nesting, membersNesting, Nat.zero_add, Nat.add_comm 1]
      split
      · simp only [resume, readFrom_cons, step]
      · rfl
  | .object ((name, value) :: rest), ts => by
      simp only [tokens, List.cons_append, List.append_assoc, List.nil_append, readFrom_cons,
        step, startValue, opened_eq]
      by_cases room : allows ceiling (frames.length + 1) = true
      · rw [if_pos room]
        simp only [resume, readFrom_cons, step, nesting, membersNesting, Nat.add_assoc,
          Nat.add_comm 1, allows_max]
        rw [readFrom_tokens ceiling (.object [] name :: frames) room value]
        simp only [List.length_cons, complete, resume,
          readFrom_moreMembers ceiling frames room rest]
        by_cases allowed : allows ceiling (nesting value + (frames.length + 1)) = true
        · simp [allowed]
        · simp [allowed]
      · rw [if_neg room, if_neg fun allowed => room (allows_of_le (by rw [nesting]; omega) allowed)]
        rfl

theorem readFrom_moreItems (ceiling : Option Nat) (frames : List Frame)
    (held : allows ceiling (frames.length + 1) = true) :
    ∀ (items done : List Written) (ts : List Token),
      readFrom ceiling ⟨.afterItem, .array done :: frames⟩
          (moreItems items ++ .bracketRight :: ts) =
        if allows ceiling (itemsNesting items + (frames.length + 1)) then
          resume ceiling (some (complete (.array (done.reverse ++ items)) frames)) ts
        else none
  | [], done, ts => by
      rw [itemsNesting, Nat.zero_add, if_pos held, List.append_nil, moreItems, List.nil_append,
        readFrom_cons]
      rfl
  | item :: rest, done, ts => by
      simp only [moreItems, List.cons_append, List.append_assoc, readFrom_cons, step, resume,
        itemsNesting, allows_max]
      rw [readFrom_tokens ceiling (.array done :: frames) held item]
      simp only [List.length_cons, complete, resume, readFrom_moreItems ceiling frames held rest]
      by_cases allowed : allows ceiling (nesting item + (frames.length + 1)) = true
      · simp [allowed]
      · simp [allowed]

theorem readFrom_moreMembers (ceiling : Option Nat) (frames : List Frame)
    (held : allows ceiling (frames.length + 1) = true) :
    ∀ (members done : List (Option String × Written)) (last : Option String) (ts : List Token),
      readFrom ceiling ⟨.afterItem, .object done last :: frames⟩
          (moreMembers members ++ .braceRight :: ts) =
        if allows ceiling (membersNesting members + (frames.length + 1)) then
          resume ceiling (some (complete (.object (done.reverse ++ members)) frames)) ts
        else none
  | [], done, last, ts => by
      rw [membersNesting, Nat.zero_add, if_pos held, List.append_nil, moreMembers,
        List.nil_append, readFrom_cons]
      rfl
  | (name, value) :: rest, done, last, ts => by
      simp only [moreMembers, List.cons_append, List.append_assoc, readFrom_cons, step, resume,
        membersNesting, allows_max]
      rw [readFrom_tokens ceiling (.object done name :: frames) held value]
      simp only [List.length_cons, complete, resume,
        readFrom_moreMembers ceiling frames held rest]
      by_cases allowed : allows ceiling (nesting value + (frames.length + 1)) = true
      · simp [allowed]
      · simp [allowed]

end

/-! ## What a run takes are the tokens of a value -/

section Runs

variable {ceiling : Option Nat}

/-- A run on at most `n` tokens that starts at a value takes one and resumes behind it. -/
def TakesValue (ceiling : Option Nat) (n : Nat) : Prop :=
  ∀ ts frames answer, ts.length ≤ n → readFrom ceiling ⟨.value, frames⟩ ts = some answer →
    ∃ w rest, ts = w.tokens ++ rest ∧
      resume ceiling (some (complete w frames)) rest = some answer

/-- A run behind an item takes further items up to the end of the array. -/
def TakesItems (ceiling : Option Nat) (n : Nat) : Prop :=
  ∀ ts done frames answer, ts.length ≤ n →
    readFrom ceiling ⟨.afterItem, .array done :: frames⟩ ts = some answer →
    ∃ items rest, ts = moreItems items ++ .bracketRight :: rest ∧
      resume ceiling (some (complete (.array (done.reverse ++ items)) frames)) rest
        = some answer

/-- A run behind a member takes further members up to the end of the object. -/
def TakesMembers (ceiling : Option Nat) (n : Nat) : Prop :=
  ∀ ts done last frames answer, ts.length ≤ n →
    readFrom ceiling ⟨.afterItem, .object done last :: frames⟩ ts = some answer →
    ∃ members rest, ts = moreMembers members ++ .braceRight :: rest ∧
      resume ceiling (some (complete (.object (done.reverse ++ members)) frames)) rest
        = some answer

theorem takes_array {n : Nat} (value : TakesValue ceiling n) (items : TakesItems ceiling n)
    {ts : List Token} {frames : List Frame} {answer : Written × List Token}
    (short : ts.length ≤ n)
    (read : readFrom ceiling ⟨.firstItem, .array [] :: frames⟩ ts = some answer) :
    ∃ all rest, .bracketLeft :: ts = (array all).tokens ++ rest ∧
      resume ceiling (some (complete (.array all) frames)) rest = some answer := by
  cases ts with
  | nil => cases read
  | cons t ts =>
      rw [readFrom_cons] at read
      by_cases atEnd : t = .bracketRight
      · subst atEnd
        exact ⟨[], ts, rfl, read⟩
      · rw [step_firstItem atEnd, ← readFrom_cons] at read
        obtain ⟨item, behind, taken, afterItem⟩ := value _ _ _ short read
        rw [taken, List.length_append] at short
        obtain ⟨more, rest, same, closed⟩ := items _ _ _ _ (by omega) afterItem
        exact ⟨item :: more, rest, by simp [tokens, taken, same], closed⟩

/-- A colon and a value behind the name of a member. -/
theorem takes_colon {n : Nat} (value : TakesValue ceiling n) {ts : List Token}
    {frames : List Frame} {done : List (Option String × Written)} {name : Option String}
    {answer : Written × List Token} (short : ts.length ≤ n + 1)
    (read : readFrom ceiling ⟨.colon done name, frames⟩ ts = some answer) :
    ∃ v rest, ts = .colon :: (v.tokens ++ rest) ∧
      readFrom ceiling ⟨.afterItem, .object ((name, v) :: done) none :: frames⟩ rest
        = some answer := by
  cases ts with
  | nil => cases read
  | cons t ts =>
      rw [readFrom_cons] at read
      cases t with
      | colon =>
          obtain ⟨v, rest, rfl, afterValue⟩ := value _ _ _ (Nat.le_of_succ_le_succ short) read
          exact ⟨v, rest, rfl, afterValue⟩
      | _ => cases read

theorem takes_object {n : Nat} (value : TakesValue ceiling n) (members : TakesMembers ceiling n)
    {ts : List Token} {frames : List Frame} {answer : Written × List Token}
    (short : ts.length ≤ n)
    (read : readFrom ceiling ⟨.firstMember [], frames⟩ ts = some answer) :
    ∃ all rest, .braceLeft :: ts = (object all).tokens ++ rest ∧
      resume ceiling (some (complete (.object all) frames)) rest = some answer := by
  cases ts with
  | nil => cases read
  | cons t ts =>
      rw [List.length_cons] at short
      rw [readFrom_cons] at read
      cases t with
      | braceRight => exact ⟨[], ts, rfl, read⟩
      | string name =>
          obtain ⟨v, behind, rfl, afterValue⟩ := takes_colon value (by omega) read
          rw [List.length_cons, List.length_append] at short
          obtain ⟨more, rest, rfl, closed⟩ := members _ _ _ _ _ (by omega) afterValue
          exact ⟨(name, v) :: more, rest, by simp [tokens], closed⟩
      | _ => cases read

theorem takesValue_succ {n : Nat} (value : TakesValue ceiling n)
    (items : TakesItems ceiling n) (members : TakesMembers ceiling n) :
    TakesValue ceiling (n + 1) := by
  intro ts frames answer short read
  cases ts with
  | nil => cases read
  | cons t ts =>
      replace short : ts.length ≤ n := Nat.le_of_succ_le_succ short
      rw [readFrom_cons] at read
      cases t with
      | null => exact ⟨.null, ts, rfl, read⟩
      | boolean b => exact ⟨.boolean b, ts, rfl, read⟩
      | number n => exact ⟨.number n, ts, rfl, read⟩
      | string text => exact ⟨.string text, ts, rfl, read⟩
      | bracketLeft =>
          simp only [step, startValue, opened_eq] at read
          split at read
          · obtain ⟨all, rest, same, closed⟩ := takes_array value items short read
            exact ⟨.array all, rest, same, closed⟩
          · cases read
      | braceLeft =>
          simp only [step, startValue, opened_eq] at read
          split at read
          · obtain ⟨all, rest, same, closed⟩ := takes_object value members short read
            exact ⟨.object all, rest, same, closed⟩
          · cases read
      | braceRight | bracketRight | colon | comma | stray => cases read

theorem takesItems_succ {n : Nat} (value : TakesValue ceiling n)
    (items : TakesItems ceiling n) : TakesItems ceiling (n + 1) := by
  intro ts done frames answer short read
  cases ts with
  | nil => cases read
  | cons t ts =>
      replace short : ts.length ≤ n := Nat.le_of_succ_le_succ short
      rw [readFrom_cons] at read
      cases t with
      | bracketRight => exact ⟨[], ts, rfl, by rwa [List.append_nil]⟩
      | comma =>
          obtain ⟨item, behind, rfl, afterItem⟩ := value _ _ _ short read
          rw [List.length_append] at short
          obtain ⟨more, rest, rfl, closed⟩ := items _ _ _ _ (by omega) afterItem
          refine ⟨item :: more, rest, by simp [moreItems], ?_⟩
          rwa [List.reverse_cons, List.append_assoc] at closed
      | _ => cases read

theorem takesMembers_succ {n : Nat} (value : TakesValue ceiling n)
    (members : TakesMembers ceiling n) : TakesMembers ceiling (n + 1) := by
  intro ts done last frames answer short read
  cases ts with
  | nil => cases read
  | cons t ts =>
      replace short : ts.length ≤ n := Nat.le_of_succ_le_succ short
      rw [readFrom_cons] at read
      cases t with
      | braceRight => exact ⟨[], ts, rfl, by rwa [List.append_nil]⟩
      | comma =>
          obtain ⟨name, behind, rfl, afterName⟩ : ∃ name behind, ts = .string name :: behind ∧
              readFrom ceiling ⟨.colon done name, frames⟩ behind = some answer := by
            cases ts with
            | nil => cases read
            | cons t ts =>
                simp only [step, resume, readFrom_cons] at read
                cases t with
                | string name => exact ⟨name, ts, rfl, read⟩
                | _ => cases read
          rw [List.length_cons] at short
          obtain ⟨v, behind, rfl, afterValue⟩ := takes_colon value (by omega) afterName
          rw [List.length_cons, List.length_append] at short
          obtain ⟨more, rest, rfl, closed⟩ := members _ _ _ _ _ (by omega) afterValue
          refine ⟨(name, v) :: more, rest, by simp [moreMembers], ?_⟩
          rwa [List.reverse_cons, List.append_assoc] at closed
      | _ => cases read

theorem takes (ceiling : Option Nat) (n : Nat) :
    TakesValue ceiling n ∧ TakesItems ceiling n ∧ TakesMembers ceiling n := by
  induction n with
  | zero =>
      have nothing {s : State} {ts : List Token} {answer : Written × List Token}
          (short : ts.length ≤ 0) : readFrom ceiling s ts ≠ some answer := by
        rw [List.eq_nil_of_length_eq_zero (Nat.le_zero.1 short)]
        exact nofun
      exact ⟨fun _ _ _ short read => absurd read (nothing short),
        fun _ _ _ _ short read => absurd read (nothing short),
        fun _ _ _ _ _ short read => absurd read (nothing short)⟩
  | succ n ih =>
      obtain ⟨value, items, members⟩ := ih
      exact ⟨takesValue_succ value items members, takesItems_succ value items,
        takesMembers_succ value members⟩

end Runs

/-- One value is read exactly if its tokens stand in front and the ceiling allows its nesting. -/
theorem read?_eq_some_iff {ceiling : Option Nat} {ts rest : List Token} {w : Written} :
    read? ceiling ts = some (w, rest) ↔
      ts = w.tokens ++ rest ∧ allows ceiling w.nesting = true := by
  have held : allows ceiling ([] : List Frame).length = true := by
    cases ceiling with
    | none => rfl
    | some limit => exact decide_eq_true (Nat.zero_le limit)
  constructor
  · intro read
    obtain ⟨v, behind, rfl, done⟩ := (takes ceiling ts.length).1 ts [] _ (Nat.le_refl _) read
    obtain ⟨rfl, rfl⟩ := Prod.mk.inj (Option.some.inj done)
    rw [read?, readFrom_tokens ceiling [] held] at read
    refine ⟨rfl, ?_⟩
    by_contra refused
    rw [List.length_nil, Nat.add_zero, if_neg refused] at read
    cases read
  · rintro ⟨rfl, allowed⟩
    rw [read?, readFrom_tokens ceiling [] held, List.length_nil, Nat.add_zero, if_pos allowed]
    rfl

/-! ## Texts of values -/

/-- The texts of a written value. -/
def Text (w : Written) (cs : List Char) : Prop :=
  TokenText w.tokens cs

/-- Tokens that may stand behind a number. -/
structure Joins (ts : List Token) : Prop where
  head : ∀ t, ts.head? = some t → t.isNumber = false
  chain : ts.IsChain Token.Apart

theorem Joins.cons {t : Token} {ts : List Token} (other : t.isNumber = false)
    (chain : ts.IsChain Token.Apart) : Joins (t :: ts) := by
  refine ⟨fun u head => ?_, List.isChain_cons.2 ⟨fun u _ number => ?_, chain⟩⟩
  · rw [← Option.some.inj head]
    exact other
  · rw [other] at number
    cases number

mutual

theorem isChain_tokens_append :
    ∀ (w : Written) {ts : List Token}, Joins ts → (w.tokens ++ ts).IsChain Token.Apart
  | .null, _, joins | .boolean _, _, joins | .string _, _, joins => by
      rw [tokens]
      exact (Joins.cons rfl joins.chain).chain
  | .number _, _, joins => by
      rw [tokens]
      exact List.isChain_cons.2 ⟨fun u head _ => joins.head u head, joins.chain⟩
  | .array [], _, joins | .object [], _, joins => by
      rw [tokens]
      exact (Joins.cons rfl (Joins.cons rfl joins.chain).chain).chain
  | .array (item :: rest), ts, joins => by
      have closed : Joins (.bracketRight :: ts) := .cons rfl joins.chain
      have inside := isChain_tokens_append item (joins_moreItems_append rest closed)
      rw [tokens]
      simp only [List.cons_append, List.append_assoc, List.nil_append]
      exact (Joins.cons rfl inside).chain
  | .object ((name, value) :: rest), ts, joins => by
      have closed : Joins (.braceRight :: ts) := .cons rfl joins.chain
      have inside := isChain_tokens_append value (joins_moreMembers_append rest closed)
      rw [tokens]
      simp only [List.cons_append, List.append_assoc, List.nil_append]
      exact (Joins.cons rfl (Joins.cons rfl (Joins.cons rfl inside).chain).chain).chain

theorem joins_moreItems_append :
    ∀ (items : List Written) {ts : List Token}, Joins ts → Joins (moreItems items ++ ts)
  | [], _, joins => joins
  | item :: rest, ts, joins => by
      have inside := isChain_tokens_append item (joins_moreItems_append rest joins)
      rw [moreItems, List.cons_append, List.append_assoc]
      exact .cons rfl inside

theorem joins_moreMembers_append :
    ∀ (members : List (Option String × Written)) {ts : List Token}, Joins ts →
      Joins (moreMembers members ++ ts)
  | [], _, joins => joins
  | (name, value) :: rest, ts, joins => by
      have inside := isChain_tokens_append value (joins_moreMembers_append rest joins)
      rw [moreMembers]
      simp only [List.cons_append, List.append_assoc]
      exact .cons rfl (Joins.cons rfl (Joins.cons rfl inside).chain).chain

end

theorem scan_of_text {w : Written} {cs : List Char} (text : w.Text cs) :
    Token.scan cs = w.tokens := by
  have chain : (w.tokens ++ []).IsChain Token.Apart := isChain_tokens_append w ⟨nofun, .nil⟩
  rw [List.append_nil] at chain
  exact scan_of_spelled text chain

/-! ## Values whose leaves denote something -/

end Written

/-- Whether a token, if it carries anything, stands for a value. -/
def Token.denotes : Token → Bool
  | .number n => (numberOf? n).isSome
  | .string text => text.isSome
  | .stray => false
  | _ => true

namespace Written

mutual

theorem isSome_denote? : ∀ w : Written, w.denote?.isSome = w.tokens.all Token.denotes
  | .null | .boolean _ => rfl
  | .number n => by
      rw [denote?, tokens, List.all_cons, List.all_nil, Bool.and_true]
      rfl
  | .string text => by
      rw [denote?, tokens, List.all_cons, List.all_nil, Bool.and_true, Option.isSome_map]
      rfl
  | .array [] | .object [] => rfl
  | .array (item :: rest) => by
      have first := isSome_denote? item
      have others := isSome_denoteItems? rest
      rw [denote?, tokens, Option.isSome_map, denoteItems?]
      simp only [List.all_cons, List.all_append, List.all_nil, ← first, ← others,
        Token.denotes, Bool.true_and, Bool.and_true]
      cases denote? item <;> cases denoteItems? rest <;> rfl
  | .object ((name, value) :: rest) => by
      have first := isSome_denote? value
      have others := isSome_denoteMembers? rest
      rw [denote?, tokens, Option.isSome_map, denoteMembers?]
      simp only [List.all_cons, List.all_append, List.all_nil, ← first, ← others,
        Token.denotes, Bool.true_and, Bool.and_true]
      cases name <;> cases denote? value <;> cases denoteMembers? rest <;> rfl

theorem isSome_denoteItems? :
    ∀ items : List Written, (denoteItems? items).isSome = (moreItems items).all Token.denotes
  | [] => rfl
  | item :: rest => by
      have first := isSome_denote? item
      have others := isSome_denoteItems? rest
      rw [denoteItems?, moreItems]
      simp only [List.all_cons, List.all_append, ← first, ← others, Token.denotes,
        Bool.true_and]
      cases denote? item <;> cases denoteItems? rest <;> rfl

theorem isSome_denoteMembers? :
    ∀ members : List (Option String × Written),
      (denoteMembers? members).isSome = (moreMembers members).all Token.denotes
  | [] => rfl
  | (name, value) :: rest => by
      have first := isSome_denote? value
      have others := isSome_denoteMembers? rest
      rw [denoteMembers?, moreMembers]
      simp only [List.all_cons, List.all_append, ← first, ← others, Token.denotes,
        Bool.true_and]
      cases name <;> cases denote? value <;> cases denoteMembers? rest <;> rfl

end

theorem text_of_scan {w : Written} {cs : List Char} (scanned : Token.scan cs = w.tokens)
    (denotes : w.denote?.isSome = true) : w.Text cs := by
  rw [isSome_denote?, List.all_eq_true] at denotes
  refine spelled_of_scan scanned fun t among => ?_
  have sound := denotes t among
  cases t with
  | string text =>
      cases text with
      | none => cases sound
      | some text => trivial
  | stray => cases sound
  | _ => trivial

end QueryCost.Json.Written
