/-
# QueryCost.Proofs.GraphQL.Reading -- what readers take from the tokens in front of them

A reader takes a list of tokens if it answers a given value wherever these tokens stand
in front of given others, and leaves those (`Grammar.Takes`).  What follows is part of
the statement, since most readers look at the token behind the last one that they take.

Readers that are composed take the tokens of their parts one after the other; there is
one lemma for each way to compose them.  Repetition takes the tokens of all items, if
each item starts as it should and what follows the last one does not.
-/
import QueryCost.GraphQL.Grammar

namespace QueryCost.GraphQL

set_option autoImplicit false

/-- The tokens that are left, with no comma between them. -/
structure Lexemes.Holds (s : Lexemes) (ts : List Token) : Prop where
  tokens : s.toList.map (·.token) = ts
  plain : ∀ l ∈ s.toList, l.afterComma = false

namespace Lexemes.Holds

variable {s : Lexemes} {t : Token} {ts : List Token}

theorem size (holds : s.Holds ts) : s.size = ts.length := by
  rw [s.size_eq, ← holds.tokens, List.length_map]

theorem head? (holds : s.Holds ts) : s.head?.map (·.token) = ts.head? := by
  rw [← holds.tokens, Lexemes.head?, List.head?_map]

theorem tail (holds : s.Holds (t :: ts)) : s.tail.Holds ts := by
  constructor
  · show s.toList.tail.map (·.token) = ts
    rw [List.map_tail, holds.tokens, List.tail_cons]
  · intro l among
    exact holds.plain l (List.mem_of_mem_tail among)

/-- The first token is sound if it is not stray. -/
theorem firstSound? (holds : s.Holds ts) (sound : ts.head? ≠ some .stray) :
    Lexemes.firstSound? s.toList = ts.head? := by
  obtain ⟨tokens, plain⟩ := holds
  subst tokens
  cases same : s.toList with
  | nil => rfl
  | cons l rest =>
      rw [same] at sound plain
      have noComma : l.afterComma = false := plain l List.mem_cons_self
      have notStray : l.token ≠ .stray := fun stray => sound (congrArg some stray)
      simp [Lexemes.firstSound?, noComma, notStray]

end Lexemes.Holds

namespace Grammar

variable {α β : Type}

/-- In front of the tokens `next`, the reader takes the tokens `ts` and answers `a`. -/
def Takes (g : Grammar α) (ts : List Token) (a : α) (next : List Token) : Prop :=
  ∀ s : Lexemes, s.Holds (ts ++ next) → ∃ rest : Lexemes, g s = .ok (a, rest) ∧ rest.Holds next

namespace Takes

variable {g : Grammar α} {f : α → Grammar β} {ts us next : List Token} {a : α} {b : β}

/-! ## One after the other -/

theorem pure (a : α) (next : List Token) : Takes (Pure.pure a) [] a next := by
  intro s holds
  exact ⟨s, rfl, holds⟩

theorem bind (first : Takes g ts a (us ++ next)) (second : Takes (f a) us b next) :
    Takes (g >>= f) (ts ++ us) b next := by
  intro s holds
  rw [List.append_assoc] at holds
  obtain ⟨between, read, holds⟩ := first s holds
  obtain ⟨rest, read', holds⟩ := second between holds
  refine ⟨rest, ?_, holds⟩
  show (g s >>= fun p => f p.1 p.2) = .ok (b, rest)
  rw [read]
  exact read'

/-- The last reader's answer is put into the result. -/
theorem bind_pure {h : α → β} (last : Takes g ts a next) :
    Takes (g >>= fun a => Pure.pure (h a)) ts (h a) next := by
  have both : Takes (g >>= fun a => Pure.pure (h a)) (ts ++ []) (h a) next :=
    bind last (pure (h a) next)
  rwa [List.append_nil] at both

theorem map {h : α → β} (only : Takes g ts a next) : Takes (h <$> g) ts (h a) next := by
  rw [map_eq_pure_bind]
  exact only.bind_pure

/-- A reader that only looks is followed by one that takes. -/
theorem look (looked : Takes g [] a (us ++ next)) (second : Takes (f a) us b next) :
    Takes (g >>= f) us b next :=
  looked.bind second

/-! ## One token -/

theorem next? (next : List Token) : Takes Grammar.next? [] next.head? next := by
  intro s holds
  refine ⟨s, ?_, holds⟩
  show Except.ok (s.head?.map (·.token), s) = _
  rw [holds.head?]
  rfl

theorem second? {t : Token} {next : List Token} (sound : next.head? ≠ some .stray) :
    Takes Grammar.second? [] next.head? (t :: next) := by
  intro s holds
  refine ⟨s, ?_, holds⟩
  show Except.ok (Lexemes.firstSound? s.tail.toList, s) = _
  rw [holds.tail.firstSound? sound]

theorem look_second {f : Option Token → Grammar β} {t : Token}
    (sound : (us ++ next).head? ≠ some .stray)
    (read : Takes (f (us ++ next).head?) (t :: us) b next) :
    Takes (Grammar.second? >>= f) (t :: us) b next :=
  (second? sound).bind read

theorem advance (t : Token) (next : List Token) : Takes Grammar.advance [t] () next := by
  intro s holds
  exact ⟨s.tail, rfl, holds.tail⟩

theorem sees (p : Punctuator) (next : List Token) :
    Takes (Grammar.sees p) [] (next.head? == some (.punctuator p)) next :=
  (Takes.next? next).bind_pure

theorem seesName (text : String) (next : List Token) :
    Takes (Grammar.seesName text) [] (next.head? == some (.name text)) next :=
  (Takes.next? next).bind_pure

theorem expect (p : Punctuator) (next : List Token) :
    Takes (Grammar.expect p) [.punctuator p] () next := by
  refine (sees p _).look ?_
  rw [List.singleton_append, List.head?_cons, beq_self_eq_true, if_pos rfl]
  exact advance _ next

theorem expectName (text : String) (next : List Token) :
    Takes (Grammar.expectName text) [.name text] () next := by
  refine (seesName text _).look ?_
  rw [List.singleton_append, List.head?_cons, beq_self_eq_true, if_pos rfl]
  exact advance _ next

theorem name (text : String) (next : List Token) :
    Takes Grammar.name [.name text] text next :=
  (Takes.next? _).look (advance _ next).bind_pure

/-! ## Choice and repetition -/

theorem optionally_some (starts : Token → Bool) (item : Takes g ts a next)
    (start : (ts ++ next).head?.any starts = true) :
    Takes (Grammar.optionally starts g) ts (some a) next := by
  refine (Takes.next? _).look ?_
  rw [if_pos start]
  exact item.map

theorem optionally_none {starts : Token → Bool} (stop : next.head?.any starts = false) :
    Takes (Grammar.optionally starts g) [] none next := by
  refine (Takes.next? _).look ?_
  rw [List.nil_append, stop, if_neg Bool.false_ne_true]
  exact pure none next

section Repetition

-- `write` gives the tokens of an item, and `behind` holds of what may follow one
variable {starts : Token → Bool} {write : α → List Token} {behind : List Token → Prop}

theorem behind_flatMap {as : List α} (another : ∀ a ∈ as, ∀ next, behind (write a ++ next))
    (last : behind next) : behind (as.flatMap write ++ next) := by
  cases as with
  | nil => exact last
  | cons a as =>
      rw [List.flatMap_cons, List.append_assoc]
      exact another a List.mem_cons_self _

theorem many {as : List α} (start : ∀ a ∈ as, (write a).head?.any starts = true)
    (item : ∀ a ∈ as, ∀ next, behind next → Takes g (write a) a next)
    (another : ∀ a ∈ as, ∀ next, behind (write a ++ next)) (last : behind next)
    (stop : next.head?.any starts = false) :
    Takes (Grammar.many starts g) (as.flatMap write) as next := by
  induction as with
  | nil =>
      intro s holds
      have notStart : s.head?.any (starts ·.token) = false := by
        rw [← Option.any_map, holds.head?]
        exact stop
      refine ⟨s, ?_, holds⟩
      rw [Grammar.many, notStart, if_neg Bool.false_ne_true]
  | cons a as ih =>
      obtain ⟨startHere, start⟩ := List.forall_mem_cons.1 start
      obtain ⟨itemHere, item⟩ := List.forall_mem_cons.1 item
      obtain ⟨-, another⟩ := List.forall_mem_cons.1 another
      have others := ih start item another
      have follows := behind_flatMap another last
      intro s holds
      rw [List.flatMap_cons, List.append_assoc] at holds
      obtain ⟨between, read, holdsBetween⟩ := itemHere _ follows s holds
      obtain ⟨rest, read', holdsRest⟩ := others between holdsBetween
      obtain ⟨t, ts, same⟩ : ∃ t ts, write a = t :: ts := by
        apply List.exists_cons_of_ne_nil
        intro empty
        simp [empty] at startHere
      have starting : s.head?.any (starts ·.token) = true := by
        rw [← Option.any_map, holds.head?, same]
        rwa [same] at startHere
      have fewer : between.size < s.size := by
        rw [holds.size, holdsBetween.size, same]
        simp only [List.length_append, List.length_cons]
        omega
      refine ⟨rest, ?_, holdsRest⟩
      rw [Grammar.many, starting, if_pos rfl, read]
      simp only [fewer, if_true, read']

theorem many1 {as : List α} (nonempty : as ≠ [])
    (start : ∀ a ∈ as, (write a).head?.any starts = true)
    (item : ∀ a ∈ as, ∀ next, behind next → Takes g (write a) a next)
    (another : ∀ a ∈ as, ∀ next, behind (write a ++ next)) (last : behind next)
    (stop : next.head?.any starts = false) :
    Takes (Grammar.many1 starts g) (as.flatMap write) as next := by
  cases as with
  | nil => exact absurd rfl nonempty
  | cons a as =>
      obtain ⟨-, start⟩ := List.forall_mem_cons.1 start
      obtain ⟨itemHere, item⟩ := List.forall_mem_cons.1 item
      obtain ⟨-, another⟩ := List.forall_mem_cons.1 another
      have follows := behind_flatMap another last
      have others := many start item another last stop
      exact (itemHere _ follows).bind others.bind_pure

/-- Items that are taken whatever follows them. -/
theorem many_anywhere {as : List α} (start : ∀ a ∈ as, (write a).head?.any starts = true)
    (item : ∀ a ∈ as, ∀ next, Takes g (write a) a next)
    (stop : next.head?.any starts = false) :
    Takes (Grammar.many starts g) (as.flatMap write) as next :=
  many start (fun a among next (_ : True) => item a among next) (fun _ _ _ => trivial) trivial stop

/-- Items between two punctuators, the second of which starts no item. -/
theorem enclosed (left : Punctuator) {right : Punctuator} {as : List α} (nonempty : as ≠ [])
    (start : ∀ a ∈ as, (write a).head?.any starts = true)
    (item : ∀ a ∈ as, ∀ next, behind next → Takes g (write a) a next)
    (another : ∀ a ∈ as, ∀ next, behind (write a ++ next))
    (last : ∀ next, behind (.punctuator right :: next))
    (stop : starts (.punctuator right) = false) (next : List Token) :
    Takes (Grammar.enclosed left starts g right)
      (.punctuator left :: (as.flatMap write ++ [.punctuator right])) as next := by
  have items : Takes (Grammar.many1 starts g) (as.flatMap write) as
      ([.punctuator right] ++ next) := many1 nonempty start item another (last next) stop
  exact (expect left _).bind (items.bind ((expect right next).bind_pure))

end Repetition

end Takes

end Grammar

end QueryCost.GraphQL
