/-
# QueryCost.Proofs.GraphQL.Nesting -- no document is deeper than its reader goes

A reader of selections is given the levels that are left, and what it answers stands
within them.  So a document that was read has at most `nestingLimit` selection sets that
stand in each other, however long its text is (`documentHeight_le_nestingLimit`).

What holds of everything that a reader answers is carried through the ways to compose
readers, one lemma for each (`Grammar.Yields`).
-/
import QueryCost.GraphQL.Grammar.Document
import QueryCost.Proofs.Analysis.Breakdown

namespace QueryCost.GraphQL

open QueryCost.Analysis

set_option autoImplicit false

namespace Grammar

variable {α β : Type}

/-- All that the reader answers has the property. -/
def Yields (g : Grammar α) (P : α → Prop) : Prop :=
  ∀ s a rest, g s = .ok (a, rest) → P a

namespace Yields

variable {g : Grammar α} {f : α → Grammar β} {P : α → Prop} {Q : β → Prop}

theorem trivial (g : Grammar α) : Yields g fun _ => True := fun _ _ _ _ => True.intro

theorem pure {a : α} (holds : P a) : Yields (Pure.pure a) P := by
  intro s b rest read
  cases read
  exact holds

theorem bind (first : Yields g P) (second : ∀ a, P a → Yields (f a) Q) :
    Yields (g >>= f) Q := by
  intro s b rest read
  have steps : (g s >>= fun p => f p.1 p.2) = .ok (b, rest) := read
  cases between : g s with
  | error fault =>
      rw [between] at steps
      cases steps
  | ok p =>
      rw [between] at steps
      exact second p.1 (first s p.1 p.2 between) p.2 b rest steps

/-- A reader whose answer does not matter. -/
theorem after (second : ∀ a, Yields (f a) Q) : Yields (g >>= f) Q :=
  (trivial g).bind fun a _ => second a

theorem fault (cause : Cause) : Yields (faultHere cause : Grammar α) P := by
  intro s a rest read
  cases read

theorem ite {c : Prop} [Decidable c] {g h : Grammar α} (yes : Yields g P) (no : Yields h P) :
    Yields (if c then g else h) P := by
  split
  · exact yes
  · exact no

theorem many (starts : Token → Bool) (item : Yields g P) :
    Yields (Grammar.many starts g) fun as => ∀ a ∈ as, P a := by
  intro s
  induction size : s.size using Nat.strongRecOn generalizing s with
  | ind size ih =>
      intro as rest read
      rw [Grammar.many] at read
      split at read
      · split at read
        · cases read
        · next a between first =>
          split at read
          · next fewer =>
            split at read
            · cases read
            · next others last more =>
              cases read
              have others := ih _ (size ▸ fewer) _ rfl _ _ more
              exact List.forall_mem_cons.2 ⟨item s a _ first, others⟩
          · cases read
            exact List.forall_mem_singleton.2 (item s a _ first)
      · cases read
        exact List.forall_mem_nil _

theorem many1 (starts : Token → Bool) (item : Yields g P) :
    Yields (Grammar.many1 starts g) fun as => ∀ a ∈ as, P a :=
  item.bind fun _ first => (item.many starts).bind fun _ others =>
    pure (List.forall_mem_cons.2 ⟨first, others⟩)

theorem enclosed (left : Punctuator) (starts : Token → Bool) (item : Yields g P)
    (right : Punctuator) :
    Yields (Grammar.enclosed left starts g right) fun as => ∀ a ∈ as, P a :=
  after fun _ => (item.many1 starts).bind fun _ all => after fun _ => pure all

end Yields

/-! ## Selections -/

theorem selectionsHeight_le {selections : List Selection} {n : Nat}
    (each : ∀ s ∈ selections, selectionHeight s ≤ n) : selectionsHeight selections ≤ n := by
  induction selections with
  | nil => exact Nat.zero_le n
  | cons s rest ih =>
      obtain ⟨first, others⟩ := List.forall_mem_cons.1 each
      rw [selectionsHeight]
      exact Nat.max_le.2 ⟨first, ih others⟩

/-- A selection is as deep as the set below it, and one level more. -/
theorem yields_selectionWith {room n : Nat} {nested : Grammar (List Selection)}
    (below : Yields nested fun selections => selectionsHeight selections + 1 ≤ n) :
    Yields (selectionWith room nested) fun s => selectionHeight s ≤ n := by
  have field : Yields (fieldWith room nested) fun s => selectionHeight s ≤ n := by
    have selections (f : Field) : Yields (do return .branch f (← nested)) fun s =>
        selectionHeight s ≤ n := below.bind fun _ deep => .pure deep
    -- with an alias and without one the same follows
    refine .after fun colon => .ite (.after fun _ => .after fun _ => .after fun aliasName => ?_)
      (.after fun aliasName => ?_) <;>
    exact .after fun name => .after fun arguments => .after fun directives =>
      .after fun opens => .ite (selections _) (.pure (Nat.zero_le n))
  have inlineFragment : Yields (inlineFragmentWith room nested) fun s => selectionHeight s ≤ n :=
    .after fun _ => .after fun typeCondition => .after fun directives =>
      below.bind fun _ deep => .pure deep
  have spread : Yields (fragmentSpread room) fun s => selectionHeight s ≤ n :=
    .after fun _ => .after fun name => .after fun directives => .pure (Nat.zero_le n)
  refine .after fun dots => .ite (.after fun token => ?_) field
  split
  · exact inlineFragment
  · exact spread
  · exact inlineFragment
  · exact inlineFragment
  · exact .fault _

/-- A set of selections stands within the levels that are left for it. -/
theorem yields_selectionSet : ∀ room : Nat,
    Yields (selectionSet room) fun selections => selectionsHeight selections + 1 ≤ room
  | 0 => .after fun _ => .fault _
  | room + 1 => by
      have one : Yields (selectionWith room (selectionSet room)) fun s =>
          selectionHeight s ≤ room := yields_selectionWith (yields_selectionSet room)
      have each := one.enclosed .braceLeft startsSelection .braceRight
      intro s selections rest read
      exact Nat.succ_le_succ (selectionsHeight_le (each s selections rest read))

/-! ## Definitions -/

/-- Nothing of a definition of the type system is kept that could be deep. -/
theorem yields_typeSystemDefinition (keyword : String) :
    Yields (typeSystemDefinition keyword) fun d => definitionHeight d ≤ nestingLimit := by
  unfold typeSystemDefinition
  split
  · exact .after fun _ => .pure (Nat.zero_le _)
  · exact .ite (.after fun _ => .pure (Nat.zero_le _)) (.after fun _ => .pure (Nat.zero_le _))

theorem yields_extension : Yields extension fun d => definitionHeight d ≤ nestingLimit := by
  refine .after fun second => ?_
  split
  · split
    · exact .after fun _ => .after fun filled => .ite (.pure (Nat.zero_le _)) (.fault _)
    · exact .fault _
  · exact .fault _

theorem yields_describedDefinition :
    Yields describedDefinition fun d => definitionHeight d ≤ nestingLimit := by
  refine .after fun second => ?_
  split
  · exact .ite (.after fun _ => yields_typeSystemDefinition _) (.fault _)
  · exact .fault _

theorem yields_definition :
    Yields definition fun d => definitionHeight d ≤ nestingLimit := by
  have selections := yields_selectionSet nestingLimit
  have operation (kind : OperationKind) :
      Yields (operation kind) fun d => definitionHeight d ≤ nestingLimit :=
    .after fun _ => .after fun _ => .after fun _ => .after fun _ =>
      selections.bind fun _ deep => .pure deep
  have fragment : Yields fragment fun d => definitionHeight d ≤ nestingLimit :=
    .after fun _ => .after fun _ => .after fun _ => .after fun _ => .after fun _ =>
      selections.bind fun _ deep => .pure deep
  refine .after fun token => ?_
  split
  · exact selections.bind fun _ deep => .pure deep
  · exact operation .query
  · exact operation .mutation
  · exact operation .subscription
  · exact fragment
  · exact yields_extension
  · exact yields_typeSystemDefinition _
  · exact yields_describedDefinition
  · exact .fault _

theorem documentHeight_le {definitions : List Definition} {n : Nat}
    (each : ∀ d ∈ definitions, definitionHeight d ≤ n) : documentHeight ⟨definitions⟩ ≤ n := by
  induction definitions with
  | nil => exact Nat.zero_le n
  | cons d definitions ih =>
      obtain ⟨first, others⟩ := List.forall_mem_cons.1 each
      rw [documentHeight_cons]
      exact Nat.max_le.2 ⟨first, ih others⟩

theorem yields_document : Yields document fun d => documentHeight d ≤ nestingLimit :=
  (yields_definition.many1 _).bind fun _ each => .pure (documentHeight_le each)

end Grammar

/-- **Whatever is read keeps the limit of its reader.** -/
theorem Document.documentHeight_le_nestingLimit {text : String} {d : Document}
    (read : Document.ofText text = .ok d) : documentHeight d ≤ nestingLimit := by
  unfold Document.ofText at read
  split at read
  · next answer rest whole =>
    cases read
    exact Grammar.yields_document _ _ _ whole
  · cases read

end QueryCost.GraphQL
