/-
# QueryCost.Proofs.GraphQL.Parsing -- documents are read from their tokens

Each reader of the grammar takes the tokens of the part that it reads, if the part is in
the grammar and nests no deeper than there is room (`Takes`).  Readers of nested parts
are looked at level by level: what holds of the reader one level below is the hypothesis
for this one, so the induction is on the room that is left.

Some readers end only where the next token does not carry them on, as a field without
arguments does in front of a parenthesis; such tokens are named by `Avoids`.

A text of a document's tokens is therefore read as that document, and its analysis is
that of the document (`analyzeText_of_written`).
-/
import QueryCost.GraphQL.Grammar.Document
import QueryCost.Proofs.GraphQL.Reading
import QueryCost.Proofs.GraphQL.Spelling
import QueryCost.Proofs.GraphQL.Writing
import QueryCost.Verdict

set_option autoImplicit false

namespace QueryCost.GraphQL.Grammar

/-- What follows starts with none of the tokens. -/
def Avoids (ts next : List Token) : Prop :=
  ∀ t ∈ ts, next.head? ≠ some t

/-! ## Values -/

theorem exists_head_value (v : Value) :
    ∃ t ts, v.tokens = t :: ts ∧ isPunctuator .bracketRight t = false := by
  cases v
  all_goals exact ⟨_, _, rfl, rfl⟩

section Values

variable {constant : Bool} {inner : Grammar Value} {n : Nat}

theorem takes_argumentWith {m : Argument}
    (takes : ∀ u : Value, u.InGrammar constant → u.levels ≤ n → ∀ next, Takes inner u.tokens u next)
    (inGrammar : m.InGrammar constant) (levels : m.levels ≤ n) (next : List Token) :
    Takes (argumentWith inner) m.tokens m next := by
  cases inGrammar with
  | @given name value inGrammar =>
      have read := takes value inGrammar levels next
      refine (Takes.name name _).bind ((Takes.sees .colon _).look ?_)
      exact (Takes.advance (.punctuator .colon) _).bind read.bind_pure

theorem takes_valueWith {v : Value}
    (takes : ∀ u : Value, u.InGrammar constant → u.levels < n → ∀ next, Takes inner u.tokens u next)
    (inGrammar : v.InGrammar constant) (levels : v.levels ≤ n) (next : List Token) :
    Takes (valueWith constant inner) v.tokens v next := by
  unfold valueWith
  refine (Takes.next? _).look ?_
  cases inGrammar with
  | free name notConstant =>
      subst notConstant
      exact (Takes.advance (.punctuator .dollar) _).bind (Takes.name name next).bind_pure
  | number text => exact (Takes.advance (.number text) next).bind_pure
  | string text => exact (Takes.advance (.string text) next).bind_pure
  | name text => exact (Takes.advance (.name text) next).bind_pure
  | @list items each =>
      rw [Value.levels] at levels
      have items : Takes (many (fun t => !isPunctuator .bracketRight t) inner)
          (items.flatMap Value.tokens) items ([.punctuator .bracketRight] ++ next) := by
        refine Takes.many_anywhere (fun v among => ?_) (fun v among next => ?_) rfl
        · obtain ⟨t, ts, same, notEnd⟩ := exists_head_value v
          simp [same, notEnd]
        · have lower := levels_lt_of_mem_items among
          exact takes v (each v among) (by omega) next
      rw [Value.tokens, itemsTokens_eq]
      exact (Takes.advance (.punctuator .bracketLeft) _).bind
        (items.bind (Takes.expect .bracketRight next).bind_pure)
  | @object members each =>
      rw [Value.levels] at levels
      have members : Takes (many isName (argumentWith inner)) (members.flatMap Argument.tokens)
          members ([.punctuator .braceRight] ++ next) := by
        refine Takes.many_anywhere (fun m among => ?_) (fun m among next => ?_) rfl
        · cases each m among with
          | given name inGrammar => rfl
        · have lower := levels_lt_of_mem_members among
          refine takes_argumentWith (fun u inGrammar le next => ?_) (each m among) (Nat.le_refl _)
            next
          exact takes u inGrammar (by omega) next
      rw [Value.tokens, membersTokens_eq]
      exact (Takes.advance (.punctuator .braceLeft) _).bind
        (members.bind (Takes.expect .braceRight next).bind_pure)

theorem takes_value (room : Nat) {v : Value} (inGrammar : v.InGrammar constant)
    (levels : v.levels ≤ room) (next : List Token) :
    Takes (value constant room) v.tokens v next := by
  induction room generalizing v next with
  | zero =>
      refine takes_valueWith (fun u _ lower => ?_) inGrammar levels next
      exact absurd lower (Nat.not_lt_zero _)
  | succ room ih =>
      refine takes_valueWith (fun u inGrammar lower next => ?_) inGrammar levels next
      exact ih inGrammar (Nat.le_of_lt_succ lower) next

end Values

/-! ## What follows -/

theorem Avoids.isPunctuator {ts next : List Token} {p : Punctuator} (avoids : Avoids ts next)
    (among : .punctuator p ∈ ts) : next.head?.any (isPunctuator p) = false := by
  have other := avoids _ among
  cases same : next.head? with
  | none => rfl
  | some t =>
      rw [same] at other
      simpa [Grammar.isPunctuator] using other

theorem Avoids.mono {ts ts' next : List Token} (avoids : Avoids ts next) (fewer : ts' ⊆ ts) :
    Avoids ts' next :=
  fun t among => avoids t (fewer among)

/-- Tokens that may be missing are avoided if the first of them is. -/
theorem Avoids.behind {ts front next : List Token} {u : Token} (avoids : Avoids ts next)
    (head : front.head? = none ∨ front.head? = some u) (other : u ∉ ts) :
    Avoids ts (front ++ next) := by
  intro t among
  cases front with
  | nil => exact avoids t among
  | cons v front =>
      rcases head with head | head
      · cases head
      · rw [List.cons_append, List.head?_cons]
        rintro same
        obtain rfl := Option.some.inj head
        obtain rfl := Option.some.inj same
        exact other among

theorem head?_inside {α : Type} (left : Punctuator) (write : α → List Token)
    (right : Punctuator) (parts : List α) :
    (inside left write right parts).head? = none ∨
      (inside left write right parts).head? = some (.punctuator left) := by
  cases parts with
  | nil => exact .inl rfl
  | cons part parts => exact .inr rfl

theorem head?_directives (ds : List Directive) :
    (directivesTokens ds).head? = none ∨ (directivesTokens ds).head? = some (.punctuator .at) := by
  cases ds with
  | nil => exact .inl rfl
  | cons d ds => exact .inr rfl

theorem head?_default (value : Option Value) :
    (VariableDefinition.defaultTokens value).head? = none ∨
      (VariableDefinition.defaultTokens value).head? = some (.punctuator .equals) := by
  cases value with
  | none => exact .inl rfl
  | some value => exact .inr rfl

/-! ## Arguments and directives -/

/-- Items in punctuators, or nothing if there are none. -/
theorem takes_inside {α : Type} {g : Grammar α} {left right : Punctuator}
    {starts : Token → Bool} {write : α → List Token} {behind : List Token → Prop} {as : List α}
    {next : List Token} (start : ∀ a ∈ as, (write a).head?.any starts = true)
    (item : ∀ a ∈ as, ∀ next, behind next → Takes g (write a) a next)
    (another : ∀ a ∈ as, ∀ next, behind (write a ++ next))
    (last : ∀ next, behind (.punctuator right :: next))
    (stop : starts (.punctuator right) = false)
    (avoids : Avoids [.punctuator left] next) :
    Takes (do return (← optionally (isPunctuator left) (enclosed left starts g right)).getD [])
      (inside left write right as) as next := by
  cases as with
  | nil =>
      have none : Takes (optionally (isPunctuator left) (enclosed left starts g right)) [] none
          next := Takes.optionally_none (avoids.isPunctuator (by simp))
      exact none.bind_pure
  | cons a as =>
      have items := Takes.enclosed left (List.cons_ne_nil a as) start item another last stop next
      have some := Takes.optionally_some (isPunctuator left) items (by simp [isPunctuator])
      exact some.bind_pure

theorem takes_arguments {constant : Bool} {room : Nat} {arguments : List Argument}
    (inGrammar : ∀ a ∈ arguments, a.InGrammar constant)
    (levels : ∀ a ∈ arguments, a.levels ≤ room) {next : List Token}
    (avoids : Avoids [.punctuator .parenLeft] next) :
    Takes (Grammar.arguments constant room) (argumentsTokens arguments) arguments next := by
  refine takes_inside (fun a among => ?_) (fun a among next (_ : True) => ?_)
    (fun _ _ _ => trivial) (fun _ => trivial) rfl avoids
  · cases inGrammar a among with
    | given name inGrammar => rfl
  · exact takes_argumentWith (fun v inGrammar levels => takes_value room inGrammar levels)
      (inGrammar a among) (levels a among) next

theorem takes_directive {constant : Bool} {room : Nat} {d : Directive}
    (inGrammar : d.InGrammar constant) (levels : d.levels ≤ room) {next : List Token}
    (avoids : Avoids [.punctuator .parenLeft] next) :
    Takes (directive constant room) d.tokens d next := by
  have arguments := takes_arguments inGrammar
    (fun a among => Nat.le_trans (le_most among) levels) avoids
  exact (Takes.expect .at _).bind ((Takes.name d.name _).bind arguments.bind_pure)

theorem takes_directives {constant : Bool} {room : Nat} {ds : List Directive}
    (inGrammar : ∀ d ∈ ds, d.InGrammar constant) (levels : most Directive.levels ds ≤ room)
    {next : List Token} (avoids : Avoids [.punctuator .at, .punctuator .parenLeft] next) :
    Takes (directives constant room) (directivesTokens ds) ds next := by
  have last : Avoids [.punctuator .parenLeft] next := avoids.mono (by simp)
  refine Takes.many (fun d _ => rfl) (fun d among next follows => ?_) (fun d _ next => ?_) last
    (avoids.isPunctuator (by simp))
  · exact takes_directive (inGrammar d among) (Nat.le_trans (le_most among) levels) follows
  · simp [Avoids, Directive.tokens]

/-! ## Types and variable definitions -/

theorem takes_mark_none (type : TypeReference) {next : List Token}
    (avoids : Avoids [.punctuator .bang] next) :
    Takes (do
      if ← sees .bang then do
        advance
        return TypeReference.nonNull type
      else return type) [] type next := by
  have unmarked : (next.head? == some (.punctuator .bang)) = false := by
    simpa using avoids _ (List.mem_singleton_self _)
  refine (Takes.sees .bang _).look ?_
  rw [List.nil_append, unmarked]
  exact Takes.pure type next

theorem takes_mark (type : TypeReference) (next : List Token) :
    Takes (do
      if ← sees .bang then do
        advance
        return TypeReference.nonNull type
      else return type) [.punctuator .bang] (.nonNull type) next := by
  refine (Takes.sees .bang _).look ?_
  exact (Takes.advance _ next).bind_pure

theorem takes_typeWith {inner : Grammar TypeReference} {n : Nat} {type : TypeReference}
    (takes : ∀ u : TypeReference, u.InGrammar → u.levels < n → ∀ next,
      Avoids [.punctuator .bang] next → Takes inner u.tokens u next)
    (inGrammar : type.InGrammar) (levels : type.levels ≤ n) {next : List Token}
    (avoids : Avoids [.punctuator .bang] next) : Takes (typeWith inner) type.tokens type next := by
  unfold typeWith
  refine (Takes.sees .bracketLeft _).look ?_
  cases inGrammar with
  | named name =>
      exact (Takes.name name _).map.bind (takes_mark_none (.named name) avoids)
  | nonNullNamed name =>
      exact (Takes.name name _).map.bind (takes_mark (.named name) next)
  | list inGrammar =>
      have item := takes _ inGrammar levels (.punctuator .bracketRight :: next) (by simp [Avoids])
      refine (Takes.advance (.punctuator .bracketLeft) _).bind (item.bind ?_)
      refine (Takes.expect .bracketRight _).bind ?_
      exact takes_mark_none _ avoids
  | @nonNullList item inGrammar =>
      have read := takes item inGrammar levels
        (.punctuator .bracketRight :: .punctuator .bang :: next) (by simp [Avoids])
      rw [TypeReference.tokens, TypeReference.tokens, List.cons_append, List.append_assoc]
      refine (Takes.advance (.punctuator .bracketLeft) _).bind (read.bind ?_)
      refine (Takes.expect .bracketRight _).bind ?_
      exact takes_mark _ next

theorem takes_typeReference (room : Nat) {type : TypeReference} (inGrammar : type.InGrammar)
    (levels : type.levels ≤ room) {next : List Token} (avoids : Avoids [.punctuator .bang] next) :
    Takes (typeReference room) type.tokens type next := by
  induction room generalizing type next with
  | zero =>
      refine takes_typeWith (fun u _ lower => ?_) inGrammar levels avoids
      exact absurd lower (Nat.not_lt_zero _)
  | succ room ih =>
      refine takes_typeWith (fun u inGrammar lower next avoids => ?_) inGrammar levels avoids
      exact ih inGrammar (Nat.le_of_lt_succ lower) avoids

theorem takes_defaultValue (room : Nat) {default : Option Value}
    (inGrammar : ∀ value, default = some value → value.InGrammar true)
    (levels : most Value.levels default.toList ≤ room) {next : List Token}
    (avoids : Avoids [.punctuator .equals] next) :
    Takes (defaultValue room) (VariableDefinition.defaultTokens default) default next := by
  cases default with
  | none => exact Takes.optionally_none (avoids.isPunctuator (by simp))
  | some value =>
      have lower := Nat.le_trans (le_most (List.mem_singleton_self value)) levels
      have read := takes_value room (inGrammar value rfl) lower next
      refine Takes.optionally_some _ ?_ rfl
      exact (Takes.advance (.punctuator .equals) _).bind read

theorem takes_variableDefinition {v : VariableDefinition} (inGrammar : v.InGrammar)
    (levels : v.levels ≤ nestingLimit) {next : List Token}
    (avoids : Avoids [.punctuator .bang, .punctuator .equals, .punctuator .at,
      .punctuator .parenLeft] next) : Takes variableDefinition v.tokens v next := by
  obtain ⟨typeLevels, levels⟩ := Nat.max_le.1 levels
  obtain ⟨defaultLevels, directiveLevels⟩ := Nat.max_le.1 levels
  have afterDefault : Avoids [.punctuator .bang, .punctuator .equals]
      (directivesTokens v.directives ++ next) :=
    (avoids.mono (by simp)).behind (head?_directives v.directives) (by simp)
  have afterType : Avoids [.punctuator .bang] (VariableDefinition.defaultTokens v.default ++
      directivesTokens v.directives ++ next) := by
    rw [List.append_assoc]
    exact (afterDefault.mono (by simp)).behind (head?_default v.default) (by simp)
  refine (Takes.expect .dollar _).bind ((Takes.name v.name _).bind ?_)
  refine (Takes.expect .colon _).bind ?_
  refine (takes_typeReference nestingLimit inGrammar.type typeLevels afterType).bind ?_
  refine (takes_defaultValue nestingLimit inGrammar.default defaultLevels
    (afterDefault.mono (by simp))).bind ?_
  exact (takes_directives inGrammar.directives directiveLevels (avoids.mono (by simp))).bind_pure

/-! ## Fields -/

/-- A field becomes a branch if a brace follows it, and a leaf otherwise. -/
def withSelections (nested : Grammar (List Selection)) (field : Field) : Grammar Selection := do
  if ← sees .braceLeft then return .branch field (← nested) else return .leaf field

/-- A field behind its alias. -/
def unaliased (room : Nat) (nested : Grammar (List Selection)) (aliasName : Option String) :
    Grammar Selection := do
  let name ← name
  let arguments ← arguments false room
  let directives ← directives false room
  withSelections nested ⟨aliasName, name, arguments, directives⟩

theorem fieldWith_eq (room : Nat) (nested : Grammar (List Selection)) :
    fieldWith room nested = (do
      if (← second?) == some (.punctuator .colon) then do
        let aliasName ← name
        expect .colon
        unaliased room nested (some aliasName)
      else unaliased room nested none) :=
  rfl

section Fields

variable {room : Nat} {nested : Grammar (List Selection)} {f : Field} {us next : List Token}
  {s : Selection}

theorem takes_unaliased (inGrammar : f.InGrammar) (levels : f.levels ≤ room)
    (avoids : Avoids [.punctuator .at, .punctuator .parenLeft] (us ++ next))
    (read : Takes (withSelections nested f) us s next) :
    Takes (unaliased room nested f.aliasName)
      (.name f.name :: (argumentsTokens f.arguments ++ (directivesTokens f.directives ++ us)))
      s next := by
  obtain ⟨argumentLevels, directiveLevels⟩ := Nat.max_le.1 levels
  have afterArguments : Avoids [.punctuator .parenLeft]
      (directivesTokens f.directives ++ us ++ next) := by
    rw [List.append_assoc]
    exact (avoids.mono (by simp)).behind (head?_directives f.directives) (by simp)
  refine (Takes.name f.name _).bind ?_
  refine (takes_arguments inGrammar.arguments
    (fun a among => Nat.le_trans (le_most among) argumentLevels) afterArguments).bind ?_
  exact (takes_directives inGrammar.directives directiveLevels avoids).bind read

theorem takes_fieldWith (inGrammar : f.InGrammar) (levels : f.levels ≤ room)
    (avoids : Avoids [.stray, .punctuator .colon, .punctuator .at, .punctuator .parenLeft]
      (us ++ next))
    (read : Takes (withSelections nested f) us s next) :
    Takes (fieldWith room nested) (f.tokens ++ us) s next := by
  have rest := takes_unaliased inGrammar levels (avoids.mono (by simp)) read
  have follows : Avoids [.stray, .punctuator .colon]
      (argumentsTokens f.arguments ++ (directivesTokens f.directives ++ us) ++ next) := by
    rw [List.append_assoc, List.append_assoc]
    refine Avoids.behind ?_ (head?_inside _ _ _ f.arguments) (by simp)
    exact (avoids.mono (by simp)).behind (head?_directives f.directives) (by simp)
  have tokens : f.tokens ++ us = Field.aliasTokens f.aliasName ++ .name f.name ::
      (argumentsTokens f.arguments ++ (directivesTokens f.directives ++ us)) := by
    simp [Field.tokens]
  rw [fieldWith_eq, tokens]
  cases aliased : f.aliasName with
  | none =>
      rw [aliased] at rest
      have notColon : ((argumentsTokens f.arguments ++ (directivesTokens f.directives ++ us) ++
          next).head? == some (.punctuator .colon)) = false := by
        simpa using follows _ (by simp)
      refine Takes.look_second (follows _ (by simp)) ?_
      rw [notColon]
      exact rest
  | some aliasName =>
      rw [aliased] at rest
      refine Takes.look_second nofun ?_
      exact (Takes.name aliasName _).bind ((Takes.expect .colon _).bind rest)

end Fields

/-! ## Selections -/

theorem exists_head_field (f : Field) : ∃ name ts, f.tokens = .name name :: ts := by
  unfold Field.tokens
  cases f.aliasName with
  | none => exact ⟨_, _, rfl⟩
  | some aliasName => exact ⟨_, _, rfl⟩

section Selections

variable {room : Nat} {nested : Grammar (List Selection)} {next : List Token}

/-- The reader of selection sets one level below takes what fits there. -/
def TakesNested (room : Nat) (nested : Grammar (List Selection)) : Prop :=
  ∀ selections : List Selection, selections ≠ [] → (∀ s ∈ selections, s.InGrammar) →
    selectionsLevels selections + 1 ≤ room →
      ∀ next, Takes nested (selectionSetTokens selections) selections next

theorem takes_selectionWith_field {f : Field} {us : List Token} {s : Selection}
    (read : Takes (fieldWith room nested) (f.tokens ++ us) s next) :
    Takes (selectionWith room nested) (f.tokens ++ us) s next := by
  obtain ⟨name, ts, same⟩ := exists_head_field f
  rw [same] at read ⊢
  exact (Takes.sees .spread _).look read

theorem takes_inlineFragment (typeCondition : Option String) {directives : List Directive}
    {selections : List Selection} (inGrammar : ∀ d ∈ directives, d.InGrammar false)
    (levels : most Directive.levels directives ≤ room)
    (read : Takes nested (selectionSetTokens selections) selections next) :
    Takes (inlineFragmentWith room nested)
      (.punctuator .spread :: (typeConditionTokens typeCondition ++
        (directivesTokens directives ++ selectionSetTokens selections)))
      (.inlineFragment typeCondition directives selections) next := by
  refine (Takes.advance (.punctuator .spread) _).bind ?_
  have condition : Takes (optionally (isNamed "on") (do
        advance
        name)) (typeConditionTokens typeCondition) typeCondition
      (directivesTokens directives ++ selectionSetTokens selections ++ next) := by
    cases typeCondition with
    | none =>
        apply Takes.optionally_none
        cases directives with
        | nil => rfl
        | cons d ds => rfl
    | some type =>
        refine Takes.optionally_some _ ?_ rfl
        exact (Takes.advance (.name "on") _).bind (Takes.name type _)
  refine condition.bind ?_
  refine (takes_directives inGrammar levels ?_).bind read.bind_pure
  simp [Avoids, selectionSetTokens]

theorem takes_selectionWith (takes : TakesNested room nested) {s : Selection}
    (inGrammar : s.InGrammar) (levels : s.levels ≤ room)
    (avoids : Avoids [.stray, .punctuator .colon, .punctuator .at, .punctuator .parenLeft,
      .punctuator .braceLeft] next) : Takes (selectionWith room nested) s.tokens s next := by
  cases inGrammar with
  | @leaf field inGrammar =>
      have notBrace : (next.head? == some (.punctuator .braceLeft)) = false := by
        simpa using avoids _ (by simp)
      have read : Takes (withSelections nested field) [] (.leaf field) next := by
        refine (Takes.sees .braceLeft _).look ?_
        rw [List.nil_append, notBrace]
        exact Takes.pure _ next
      have whole := takes_selectionWith_field
        (takes_fieldWith inGrammar levels (avoids.mono (by simp)) read)
      rwa [List.append_nil] at whole
  | @branch field selections inGrammar nonempty each =>
      obtain ⟨fieldLevels, levels⟩ := Nat.max_le.1 levels
      have inner := takes selections nonempty each levels next
      have read : Takes (withSelections nested field) (selectionSetTokens selections)
          (.branch field selections) next :=
        (Takes.sees .braceLeft _).look inner.bind_pure
      have whole := takes_selectionWith_field
        (takes_fieldWith inGrammar fieldLevels (by simp [Avoids, selectionSetTokens]) read)
      rwa [Selection.tokens, selectionsTokens_eq]
  | @inlineFragment typeCondition directives selections inGrammar nonempty each =>
      obtain ⟨directiveLevels, levels⟩ := Nat.max_le.1 levels
      have read := takes_inlineFragment typeCondition inGrammar directiveLevels
        (takes selections nonempty each levels next)
      rw [Selection.tokens, selectionsTokens_eq]
      refine (Takes.sees .spread _).look ?_
      cases typeCondition with
      | none =>
          cases directives with
          | nil => exact Takes.look_second nofun read
          | cons d ds => exact Takes.look_second nofun read
      | some type => exact Takes.look_second nofun read
  | @fragmentSpread name directives notOn inGrammar =>
      have follows : Avoids [.punctuator .at, .punctuator .parenLeft] next :=
        avoids.mono (by simp)
      have read : Takes (fragmentSpread room)
          (.punctuator .spread :: .name name :: directivesTokens directives)
          (.fragmentSpread name directives) next :=
        (Takes.advance (.punctuator .spread) _).bind ((Takes.name name _).bind
          (takes_directives inGrammar levels follows).bind_pure)
      rw [Selection.tokens]
      refine (Takes.sees .spread _).look (Takes.look_second nofun ?_)
      split
      · next same =>
        obtain rfl := Token.name.inj (Option.some.inj same)
        exact absurd rfl notOn
      · exact read
      · next same => cases same
      · next same => cases same
      · next notName _ _ => exact (notName name rfl).elim

theorem starts_selection {s : Selection} (next : List Token) :
    s.tokens.head?.any startsSelection = true ∧
      Avoids [.stray, .punctuator .colon, .punctuator .at, .punctuator .parenLeft,
        .punctuator .braceLeft] (s.tokens ++ next) := by
  have named (f : Field) (us : List Token) :
      (f.tokens ++ us).head?.any startsSelection = true ∧
        Avoids [.stray, .punctuator .colon, .punctuator .at, .punctuator .parenLeft,
          .punctuator .braceLeft] (f.tokens ++ us ++ next) := by
    obtain ⟨name, ts, same⟩ := exists_head_field f
    simp [same, startsSelection, Avoids]
  cases s with
  | leaf field =>
      have start := named field []
      rwa [List.append_nil] at start
  | branch field selections =>
      rw [Selection.tokens]
      exact named field _
  | inlineFragment typeCondition directives selections =>
      simp [Selection.tokens, startsSelection, Avoids]
  | fragmentSpread name directives => simp [Selection.tokens, startsSelection, Avoids]

theorem takesNested (room : Nat) : TakesNested room (selectionSet room) := by
  induction room with
  | zero =>
      intro selections _ _ levels
      exact absurd levels (Nat.not_succ_le_zero _)
  | succ room ih =>
      intro selections nonempty each levels next
      refine Takes.enclosed .braceLeft nonempty (fun s _ => (starts_selection []).1)
        (fun s among next avoids => ?_) (fun s _ next => (starts_selection next).2)
        (fun next => by simp [Avoids]) rfl next
      have lower := levels_le_of_mem_selections among
      exact takes_selectionWith ih (each s among) (by omega) avoids

end Selections

/-! ## Definitions -/

theorem takes_variableDefinitions {vs : List VariableDefinition}
    (inGrammar : ∀ v ∈ vs, v.InGrammar)
    (levels : most VariableDefinition.levels vs ≤ nestingLimit) {next : List Token}
    (avoids : Avoids [.punctuator .parenLeft] next) :
    Takes variableDefinitions (inside .parenLeft VariableDefinition.tokens .parenRight vs) vs
      next := by
  refine takes_inside (fun v _ => rfl)
    (fun v among next (follows : Avoids [.punctuator .bang, .punctuator .equals, .punctuator .at,
      .punctuator .parenLeft] next) => ?_) (fun v _ next => ?_) (fun next => ?_) rfl avoids
  · exact takes_variableDefinition (inGrammar v among)
      (Nat.le_trans (le_most among) levels) follows
  · simp [Avoids, VariableDefinition.tokens]
  · simp [Avoids]

theorem takes_operation {head : OperationHead} {selections : List Selection}
    (inGrammar : head.InGrammar) (levels : head.levels ≤ nestingLimit) {next : List Token}
    (read : Takes (selectionSet nestingLimit) (selectionSetTokens selections) selections next) :
    Takes (operation head.kind) (head.tokens ++ selectionSetTokens selections)
      (.operation (some head) selections) next := by
  obtain ⟨variableLevels, directiveLevels⟩ := Nat.max_le.1 levels
  obtain ⟨kind, operationName, vs, ds⟩ := head
  have tokens : OperationHead.tokens ⟨kind, operationName, vs, ds⟩ ++
      selectionSetTokens selections = .name kind.keyword :: (operationName.toList.map Token.name ++
        (inside .parenLeft VariableDefinition.tokens .parenRight vs ++
          (directivesTokens ds ++ selectionSetTokens selections))) := by
    simp [OperationHead.tokens]
  have named : Takes (optionally isName name) (operationName.toList.map Token.name) operationName
      (inside .parenLeft VariableDefinition.tokens .parenRight vs ++
        (directivesTokens ds ++ selectionSetTokens selections) ++ next) := by
    cases operationName with
    | none =>
        apply Takes.optionally_none
        cases vs with
        | nil =>
            cases ds with
            | nil => rfl
            | cons d ds => rfl
        | cons v vs => rfl
    | some text => exact Takes.optionally_some _ (Takes.name text _) rfl
  have afterVariables : Avoids [.punctuator .parenLeft]
      (directivesTokens ds ++ selectionSetTokens selections ++ next) := by
    rw [List.append_assoc]
    refine Avoids.behind ?_ (head?_directives ds) (by simp)
    simp [Avoids, selectionSetTokens]
  have afterDirectives : Avoids [.punctuator .at, .punctuator .parenLeft]
      (selectionSetTokens selections ++ next) := by
    simp [Avoids, selectionSetTokens]
  rw [tokens]
  refine (Takes.advance (.name kind.keyword) _).bind (named.bind ?_)
  refine (takes_variableDefinitions inGrammar.variableDefinitions variableLevels
    afterVariables).bind ?_
  exact (takes_directives inGrammar.directives directiveLevels afterDirectives).bind read.bind_pure

theorem takes_fragment {head : FragmentHead} {selections : List Selection}
    (inGrammar : head.InGrammar) (levels : most Directive.levels head.directives ≤ nestingLimit)
    {next : List Token}
    (read : Takes (selectionSet nestingLimit) (selectionSetTokens selections) selections next) :
    Takes fragment (head.tokens ++ selectionSetTokens selections)
      (.fragment head selections) next := by
  have named (next : List Token) : Takes fragmentName [.name head.name] head.name next := by
    refine (Takes.seesName "on" _).look ?_
    have notOn : (([Token.name head.name] ++ next).head? == some (.name "on")) = false := by
      simpa using inGrammar.notOn
    rw [notOn]
    exact Takes.name head.name next
  have afterDirectives : Avoids [.punctuator .at, .punctuator .parenLeft]
      (selectionSetTokens selections ++ next) := by
    simp [Avoids, selectionSetTokens]
  refine (Takes.advance (.name "fragment") _).bind ((named _).bind ?_)
  refine (Takes.expectName "on" _).bind ((Takes.name head.typeCondition _).bind ?_)
  exact (takes_directives inGrammar.directives levels afterDirectives).bind read.bind_pure

theorem takes_definition {d : Definition} (inGrammar : d.InGrammar)
    (levels : d.levels ≤ nestingLimit) (next : List Token) :
    Takes definition d.tokens d next := by
  refine (Takes.next? _).look ?_
  cases inGrammar with
  | @bare selections nonempty each =>
      have read := takesNested nestingLimit selections nonempty each levels next
      exact read.bind_pure
  | @operation head selections inGrammar nonempty each =>
      obtain ⟨headLevels, levels⟩ := Nat.max_le.1 levels
      have read := takes_operation inGrammar headLevels
        (takesNested nestingLimit selections nonempty each levels next)
      obtain ⟨kind, operationName, vs, ds⟩ := head
      cases kind with
      | query => exact read
      | mutation => exact read
      | subscription => exact read
  | @fragment head selections inGrammar nonempty each =>
      obtain ⟨headLevels, levels⟩ := Nat.max_le.1 levels
      exact takes_fragment inGrammar headLevels
        (takesNested nestingLimit selections nonempty each levels next)

theorem takes_document {d : Document} (inGrammar : d.InGrammar)
    (levels : d.levels ≤ nestingLimit) : Takes document d.tokens d [] := by
  have definitions : Takes (many1 (fun _ => true) definition)
      (d.definitions.flatMap Definition.tokens) d.definitions [] := by
    refine Takes.many1 inGrammar.nonempty (fun definition among => ?_)
      (fun definition among next (_ : True) => ?_) (fun _ _ _ => trivial) trivial rfl
    · cases inGrammar.each definition among with
      | bare => rfl
      | operation => rfl
      | fragment => rfl
    · exact takes_definition (inGrammar.each definition among)
        (Nat.le_trans (le_most among) levels) next
  exact definitions.bind_pure

end QueryCost.GraphQL.Grammar

namespace QueryCost.GraphQL.Document

/-! ## Texts of documents -/

/-- The texts of a document. -/
def Text (d : Document) (text : String) : Prop :=
  TextBehind none d.tokens text.toList

/-- Whatever way a document is written, its text is read as the document. -/
theorem ofText_of_text {d : Document} (inGrammar : d.InGrammar) (levels : d.levels ≤ nestingLimit)
    {text : String} (written : d.Text text) : ofText text = .ok d := by
  obtain ⟨tokens, plain⟩ := Lexeme.scan_of_text written 0
  have holds : (Lexemes.ofList (Lexeme.ofText text)).Holds (d.tokens ++ []) := by
    rw [List.append_nil]
    exact ⟨tokens, plain⟩
  obtain ⟨rest, read, -⟩ := Grammar.takes_document inGrammar levels _ holds
  unfold ofText
  rw [read]

end QueryCost.GraphQL.Document

namespace QueryCost

open QueryCost.Analysis QueryCost.GraphQL

/-- **The analysis of a text is that of its document.**  A text in which the tokens of a document
are written, with blanks and comments between them, is read as that document, with all of its
definitions, and is analyzed under any rules as the document is. -/
theorem analyzeText_of_written {d : Document} (inGrammar : d.InGrammar)
    (levels : d.levels ≤ nestingLimit) {text : String} (written : d.Text text) :
    Document.ofText text = .ok d ∧
      ∀ rules : Rules Float, analyzeText rules text = (analyze rules d).mapError .excess := by
  have read := Document.ofText_of_text inGrammar levels written
  refine ⟨read, fun rules => ?_⟩
  simp only [analyzeText, read]
  cases analyze rules d with
  | error e => rfl
  | ok report => rfl

/-- A field with an argument and a field below it, with blanks between all tokens. -/
theorem analyzeText_of_nested_field :
    analyzeText defaultRules " \x7b a ( first : -1 ) \x7b b \x7d \x7d" =
      (analyze defaultRules ⟨[.operation none
        [.branch ⟨none, "a", [.given "first" (.number "-1")], []⟩
          [.leaf ⟨none, "b", [], []⟩]]]⟩).mapError .excess := by
  have outer : Field.InGrammar ⟨none, "a", [.given "first" (.number "-1")], []⟩ :=
    ⟨List.forall_mem_singleton.2 (.given "first" (.number "-1")), List.forall_mem_nil _⟩
  have inner : Selection.InGrammar (.leaf ⟨none, "b", [], []⟩) :=
    .leaf ⟨List.forall_mem_nil _, List.forall_mem_nil _⟩
  have inGrammar : Document.InGrammar ⟨[.operation none
      [.branch ⟨none, "a", [.given "first" (.number "-1")], []⟩ [.leaf ⟨none, "b", [], []⟩]]]⟩ := by
    refine ⟨List.cons_ne_nil _ _, List.forall_mem_singleton.2 (.bare (List.cons_ne_nil _ _) ?_)⟩
    exact List.forall_mem_singleton.2
      (.branch outer (List.cons_ne_nil _ _) (List.forall_mem_singleton.2 inner))
  have a : (Token.name "a").IsSpelled := ⟨'a', [], rfl, rfl, nofun⟩
  have b : (Token.name "b").IsSpelled := ⟨'b', [], rfl, rfl, nofun⟩
  have first : (Token.name "first").IsSpelled :=
    ⟨'f', ['i', 'r', 's', 't'], rfl, rfl, List.all_eq_true.1 rfl⟩
  have strict : Decimal.Numeral.Strict ⟨true, ['1'], [], none⟩ :=
    ⟨⟨List.cons_ne_nil _ _, List.all_eq_true.1 rfl⟩, fun _ => rfl, .inl rfl, nofun⟩
  have number : (Token.number "-1").IsSpelled := ⟨_, strict, rfl⟩
  have spelled : ∀ t ∈ [Token.punctuator .braceLeft, .name "a", .punctuator .parenLeft,
      .name "first", .punctuator .colon, .number "-1", .punctuator .parenRight,
      .punctuator .braceLeft, .name "b", .punctuator .braceRight, .punctuator .braceRight],
      t.IsSpelled := by
    simp only [List.forall_mem_cons]
    exact ⟨trivial, a, trivial, first, trivial, number, trivial, trivial, b, trivial, trivial,
      List.forall_mem_nil _⟩
  have written : Document.Text ⟨[.operation none [.branch ⟨none, "a",
      [.given "first" (.number "-1")], []⟩ [.leaf ⟨none, "b", [], []⟩]]]⟩
      " \x7b a ( first : -1 ) \x7b b \x7d \x7d" := textBehind_spaced none spelled
  exact (analyzeText_of_written inGrammar (by decide) written).2 defaultRules

end QueryCost
