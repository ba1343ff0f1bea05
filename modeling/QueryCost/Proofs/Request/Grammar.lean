/-
# QueryCost.Proofs.Request.Grammar -- which bodies hold which requests

The grammar of request bodies without the reader.  A body is one well-formed JSON
value.  A request is an object with a query, whose operation name and variables may be
missing or `null`; members under other names do not matter, and none of the three may
be given twice.  A body is a request or an array of requests that is not empty.

The reader follows that grammar but for one more shape (`ofBody_eq_ok_iff_shape`): a
request may also be an array of its query, its operation name and its variables, in
that order, of which the later ones may be left out.  So a body that is an array of
strings is taken for a request, although it is none (`ofBody_bracketed_query`).
-/
import Mathlib.Data.List.Forall2
import QueryCost.Proofs.Json.Reading
import QueryCost.Proofs.Json.Record
import QueryCost.Proofs.Text.Utf8
import QueryCost.Request

namespace QueryCost

open QueryCost.Json (Written)

set_option autoImplicit false

namespace Json.Written

/-- All numbers in a value are integers of 64 bits or within the range of doubles. -/
def InRange (w : Written) : Prop :=
  ∀ n, .number n ∈ w.tokens → (numberOf? n).isSome = true

theorem isSome_denote?_iff {w : Written} {cs : List Char} (text : w.Text cs) :
    w.denote?.isSome = true ↔ w.InRange := by
  have spelled : ∀ {ts : List Token} {cs : List Char}, TokenText ts cs →
      ∀ t ∈ ts, t ≠ .stray ∧ t ≠ .string none := by
    intro ts cs text
    induction text with
    | done => exact List.forall_mem_nil _
    | token _ spelled _ ih =>
        intro t among
        rcases List.mem_cons.1 among with rfl | among
        · cases spelled <;> exact ⟨nofun, nofun⟩
        · exact ih t among
  rw [isSome_denote?, List.all_eq_true]
  constructor
  · intro denotes n among
    exact denotes (.number n) among
  · intro inRange t among
    have written := spelled text t among
    cases t with
    | number n => exact inRange n among
    | string text =>
        cases text with
        | none => exact absurd rfl written.2
        | some text => rfl
    | stray => exact absurd rfl written.1
    | _ => rfl

theorem number_mem_moreItems {n : Decimal.Numeral} {items : List Written} :
    .number n ∈ moreItems items ↔ ∃ w ∈ items, .number n ∈ w.tokens := by
  induction items with
  | nil => simp [moreItems]
  | cons w items ih => simp [moreItems, ih]

theorem number_mem_moreMembers {n : Decimal.Numeral} {members : List (Option String × Written)} :
    .number n ∈ moreMembers members ↔ ∃ m ∈ members, .number n ∈ m.2.tokens := by
  induction members with
  | nil => simp [moreMembers]
  | cons m members ih => simp [moreMembers, ih]

theorem inRange_array {items : List Written} (each : ∀ w ∈ items, w.InRange) :
    (array items).InRange := by
  intro n among
  have inside : .number n ∈ moreItems items := by
    cases items with
    | nil => simp [tokens] at among
    | cons w items => simpa [tokens, moreItems] using among
  obtain ⟨w, item, within⟩ := number_mem_moreItems.1 inside
  exact each w item n within

/-- The range of an array whose items are all related to something. -/
theorem inRange_array_of_forall₂ {α : Type} {related : α → Written → Prop}
    (inRange : ∀ a w, related a w → w.InRange) {as : List α} {ws : List Written}
    (each : List.Forall₂ related as ws) : (array ws).InRange := by
  apply inRange_array
  induction each with
  | nil => exact List.forall_mem_nil _
  | cons first _ ih => exact List.forall_mem_cons.2 ⟨inRange _ _ first, ih⟩

theorem inRange_object {members : List (Option String × Written)}
    (each : ∀ m ∈ members, m.2.InRange) : (object members).InRange := by
  intro n among
  have inside : .number n ∈ moreMembers members := by
    cases members with
    | nil => simp [tokens] at among
    | cons m members => simpa [tokens, moreMembers] using among
  obtain ⟨m, member, within⟩ := number_mem_moreMembers.1 inside
  exact each m member n within

/-- What denotes a value has all its numbers within range. -/
theorem inRange_of_denote? {w : Written} {j : Json} (denotes : w.denote? = some j) :
    w.InRange := by
  intro n among
  have all : w.tokens.all Token.denotes = true := by
    rw [← isSome_denote?, denotes]
    rfl
  exact List.all_eq_true.1 all _ among

/-- The bytes are those of one JSON value: encoded characters, no more than `limit` arrays and
objects in each other, and numbers within range. -/
structure IsBody (limit : Nat) (body : ByteArray) (w : Written) : Prop where
  text : ∃ cs, body = cs.utf8Encode ∧ w.Text cs
  nesting : w.nesting ≤ limit
  inRange : w.InRange

theorem allows_iff {limit n : Nat} : allows (some limit) n = true ↔ n ≤ limit := by
  simp [allows]

/-- A body is read completely, as a value that denotes something, exactly if it is the text of
that value. -/
theorem isBody_iff {limit : Nat} {body : ByteArray} {w : Written} :
    IsBody limit body w ↔
      read? (some limit) (Token.scan (Text.Utf8.characters body)) = some (w, []) ∧
        w.denote?.isSome = true := by
  rw [read?_eq_some_iff, List.append_nil, allows_iff]
  constructor
  · rintro ⟨⟨cs, rfl, text⟩, nesting, inRange⟩
    rw [Text.Utf8.characters_utf8Encode]
    exact ⟨⟨scan_of_text text, nesting⟩, (isSome_denote?_iff text).2 inRange⟩
  · rintro ⟨⟨scanned, nesting⟩, denotes⟩
    have text := text_of_scan scanned denotes
    exact ⟨⟨_, Text.Utf8.eq_utf8Encode_of_characters rfl text.nul_notMem, text⟩, nesting,
      (isSome_denote?_iff text).1 denotes⟩

theorem IsBody.mono {limit limit' : Nat} {body : ByteArray} {w : Written} (le : limit ≤ limit')
    (isBody : IsBody limit body w) : IsBody limit' body w :=
  ⟨isBody.text, Nat.le_trans isBody.nesting le, isBody.inRange⟩

/-- A body is the text of one value at most. -/
theorem IsBody.unique {limit : Nat} {body : ByteArray} {v w : Written}
    (first : IsBody limit body v) (second : IsBody limit body w) : v = w := by
  have same := (isBody_iff.1 first).1.symm.trans (isBody_iff.1 second).1
  exact (Prod.mk.inj (Option.some.inj same)).1

end Json.Written

namespace Request

/-! ## The grammar of requests -/

/-- What stands under a name in an object: nothing, or one value. -/
inductive Member (members : List (Option String × Written)) (name : String) :
    Option Written → Prop
  | missing (absent : ∀ m ∈ members, m.1 ≠ some name) : Member members name none
  | once {before after : List (Option String × Written)} {value : Written}
      (split : members = before ++ (some name, value) :: after)
      (absent : ∀ m ∈ before ++ after, m.1 ≠ some name) : Member members name (some value)

/-- What a part of a request gives that may be missing or `null`. -/
inductive Gives {α : Type} (reads : Written → α → Prop) : Option Written → Option α → Prop
  | missing : Gives reads none none
  | null : Gives reads (some .null) none
  | value {w : Written} {a : α} (notNull : w ≠ .null) (gives : reads w a) :
      Gives reads (some w) (some a)

/-- The written parts of a request. -/
structure HasParts (query : Written) (operationName variableValues : Option Written)
    (r : Request) : Prop where
  query : query = .string (some r.query)
  operationName : Gives (fun w name => w = .string (some name)) operationName r.operationName
  variableValues : Gives (fun w value => w.denote? = some value) variableValues r.variableValues

/-- An object that is a request. -/
inductive IsObject : Written → Request → Prop
  | members {members : List (Option String × Written)} {query : Written}
      {operationName variableValues : Option Written} {r : Request}
      (hasQuery : Member members "query" (some query))
      (hasOperationName : Member members "operationName" operationName)
      (hasVariables : Member members "variables" variableValues)
      (parts : HasParts query operationName variableValues r) :
      IsObject (.object members) r

/-- An array of the parts of a request, in their order. -/
inductive IsListed : Written → Request → Prop
  | query {query : Written} {r : Request} (parts : HasParts query none none r) :
      IsListed (.array [query]) r
  | operationName {query operationName : Written} {r : Request}
      (parts : HasParts query (some operationName) none r) :
      IsListed (.array [query, operationName]) r
  | variableValues {query operationName variableValues : Written} {r : Request}
      (parts : HasParts query (some operationName) (some variableValues) r) :
      IsListed (.array [query, operationName, variableValues]) r

/-- One request, or an array of requests that is not empty. -/
inductive HasShape (form : Written → Request → Prop) : Written → List Request → Prop
  | single {w : Written} {r : Request} (request : form w r) : HasShape form w [r]
  | batch {items : List Written} {requests : List Request} (nonempty : items ≠ [])
      (each : List.Forall₂ form items requests) : HasShape form (.array items) requests

/-- Both ways to write a request. -/
def IsRequest (w : Written) (r : Request) : Prop :=
  IsObject w r ∨ IsListed w r

/-! ## Members -/

theorem member_iff_filter {members : List (Option String × Written)} {name : String}
    {value : Option Written} :
    Member members name value ↔
      members.filter (fun m => m.1 = some name) = value.toList.map fun w => (some name, w) := by
  constructor
  · intro member
    cases member with
    | missing absent =>
        exact List.filter_eq_nil_iff.2 fun m among => by simpa using absent m among
    | @once before after value split absent =>
        subst split
        have outside : ∀ m ∈ before ++ after, ¬decide (m.1 = some name) = true :=
          fun m among => by simpa using absent m among
        rw [List.filter_append, List.filter_cons_of_pos (by simp),
          List.filter_eq_nil_iff.2 fun m among => outside m (List.mem_append_left _ among),
          List.filter_eq_nil_iff.2 fun m among => outside m (List.mem_append_right _ among)]
        rfl
  · intro found
    cases value with
    | none =>
        refine .missing fun m among => ?_
        simpa using List.filter_eq_nil_iff.1 found m among
    | some value =>
        obtain ⟨before, after, rfl, front, -, back⟩ := List.filter_eq_cons_iff.1 found
        refine .once rfl fun m among => ?_
        rcases List.mem_append.1 among with among | among
        · simpa using front m among
        · simpa using List.filter_eq_nil_iff.1 back m among

theorem Member.perm {members members' : List (Option String × Written)} {name : String}
    {value : Option Written} (order : members.Perm members') (member : Member members' name value) :
    Member members name value := by
  rw [member_iff_filter] at member ⊢
  have found := order.filter fun m => m.1 = some name
  rw [member] at found
  cases value with
  | none => exact found.eq_nil
  | some value => exact List.perm_singleton.1 found

theorem field?_eq_some_iff {named : List (String × Written)} {name : String}
    {value : Option Written} :
    Record.field? [name] named = some value ↔
      Member (named.map fun m => (some m.1, m.2)) name value := by
  have found : (named.map fun m => ((some m.1, m.2) : Option String × Written)).filter
      (fun m => m.1 = some name) =
        (named.filter fun m => m.1 ∈ [name]).map fun m => (some m.1, m.2) := by
    simp [List.filter_map, Function.comp_def]
  have named_of_mem : ∀ m ∈ named.filter (fun m => m.1 ∈ [name]), m.1 = name := fun m among => by
    simpa using (List.mem_filter.1 among).2
  rw [member_iff_filter, found]
  unfold Record.field?
  generalize named.filter (fun m => m.1 ∈ [name]) = matching at named_of_mem
  match matching with
  | [] => cases value <;> simp
  | [m] =>
      obtain rfl := named_of_mem m List.mem_cons_self
      cases value <;> simp [eq_comm]
  | _ :: _ :: _ => cases value <;> simp

theorem optional?_eq_some_iff {α : Type} {read : Written → Option α} {w : Option Written}
    {a : Option α} :
    Written.optional? read w = some a ↔ Gives (fun w a => read w = some a) w a := by
  constructor
  · intro found
    cases w with
    | none =>
        obtain rfl := Option.some.inj found
        exact .missing
    | some w =>
        cases w with
        | null =>
            obtain rfl := Option.some.inj found
            exact .null
        | _ =>
            obtain ⟨b, gives, rfl⟩ := Option.map_eq_some_iff.1 found
            exact .value nofun gives
  · intro gives
    cases gives with
    | missing => rfl
    | null => rfl
    | @value w a notNull gives =>
        cases w with
        | null => exact absurd rfl notNull
        | _ =>
            simp only [Written.optional?, Written.isNull, gives, Bool.false_eq_true, if_false,
              Option.map_some]

theorem text?_eq_some_iff {w : Written} {text : String} :
    w.text? = some text ↔ w = .string (some text) := by
  cases w with
  | string t =>
      rw [Written.text?, Written.string.injEq]
  | _ => exact ⟨nofun, nofun⟩

/-! ## The reader follows the grammar -/

theorem hasParts_iff {query : Written} {operationName variableValues : Option Written}
    {r : Request} :
    (do
      let query ← query.text?
      let operationName ← Written.optional? (·.text?) operationName
      let variableValues ← Written.optional? (·.denote?) variableValues
      return (⟨query, operationName, variableValues⟩ : Request)) = some r ↔
      HasParts query operationName variableValues r := by
  simp only [Option.bind_eq_bind, Option.bind_eq_some_iff, Option.pure_def, Option.some.injEq,
    text?_eq_some_iff, optional?_eq_some_iff]
  constructor
  · rintro ⟨q, hasQuery, o, hasOperationName, v, hasVariables, rfl⟩
    exact ⟨hasQuery, hasOperationName, hasVariables⟩
  · rintro ⟨hasQuery, hasOperationName, hasVariables⟩
    exact ⟨_, hasQuery, _, hasOperationName, _, hasVariables, rfl⟩

/-- All members of an object that denotes something have names. -/
theorem exists_named_of_denote? {members : List (Option String × Written)}
    (denotes : (Written.object members).denote?.isSome = true) :
    ∃ named : List (String × Written), members = named.map fun m => (some m.1, m.2) := by
  rw [Written.denote?, Option.isSome_map] at denotes
  induction members with
  | nil => exact ⟨[], rfl⟩
  | cons m members ih =>
      obtain ⟨name, value⟩ := m
      rw [Written.denoteMembers?] at denotes
      cases name with
      | none => cases denotes
      | some name =>
          cases others : Written.denoteMembers? members with
          | none =>
              rw [others] at denotes
              cases first : Written.denote? value with
              | none => simp [first] at denotes
              | some v => simp [first] at denotes
          | some rest =>
              obtain ⟨named, rfl⟩ := ih (Option.isSome_of_eq_some others)
              exact ⟨(name, value) :: named, rfl⟩

theorem ofWritten?_object_iff {members : List (Option String × Written)}
    (denotes : (Written.object members).denote?.isSome = true) {r : Request} :
    ofWritten? (.object members) = some r ↔ IsObject (.object members) r := by
  obtain ⟨named, rfl⟩ := exists_named_of_denote? denotes
  have record : (Written.object (named.map fun m => (some m.1, m.2))).record? fields =
      Record.ofMembers? fields named := by
    rw [Written.record?, Written.namedMembers?_map, Option.bind_some]
  unfold ofWritten?
  rw [record]
  constructor
  · intro found
    split at found
    · next query operationName variableValues whole =>
      simp only [Record.ofMembers?, fields, List.mapM_cons, List.mapM_nil,
        Option.bind_eq_bind, Option.bind_eq_some_iff, Option.pure_def,
        Option.some.injEq] at whole
      obtain ⟨q, hasQuery, _, ⟨o, hasOperationName, _, ⟨v, hasVariables, _, rfl, rfl⟩, rfl⟩,
        same⟩ := whole
      simp only [List.cons.injEq, and_true] at same
      obtain ⟨rfl, rfl, rfl⟩ := same
      exact .members (field?_eq_some_iff.1 hasQuery) (field?_eq_some_iff.1 hasOperationName)
        (field?_eq_some_iff.1 hasVariables) (hasParts_iff.1 found)
    · cases found
  · intro request
    cases request with
    | @members _ query operationName variableValues _ hasQuery hasOperationName
          hasVariables parts =>
        have whole : Record.ofMembers? fields named =
            some [some query, operationName, variableValues] := by
          simp only [Record.ofMembers?, fields, List.mapM_cons, List.mapM_nil,
            field?_eq_some_iff.2 hasQuery, field?_eq_some_iff.2 hasOperationName,
            field?_eq_some_iff.2 hasVariables]
          rfl
        rw [whole]
        exact hasParts_iff.2 parts

theorem ofWritten?_array_iff {items : List Written} {r : Request} :
    ofWritten? (.array items) = some r ↔ IsListed (.array items) r := by
  match items with
  | [] => exact ⟨nofun, nofun⟩
  | [query] =>
      refine ⟨fun found => .query (hasParts_iff.1 found), fun listed => ?_⟩
      cases listed with
      | query parts => exact hasParts_iff.2 parts
  | [query, operationName] =>
      refine ⟨fun found => .operationName (hasParts_iff.1 found), fun listed => ?_⟩
      cases listed with
      | operationName parts => exact hasParts_iff.2 parts
  | [query, operationName, variableValues] =>
      refine ⟨fun found => .variableValues (hasParts_iff.1 found), fun listed => ?_⟩
      cases listed with
      | variableValues parts => exact hasParts_iff.2 parts
  | a :: b :: c :: d :: rest =>
      have long : fields.length < (a :: b :: c :: d :: rest).length :=
        Nat.le_add_left 4 rest.length
      have unread : ofWritten? (.array (a :: b :: c :: d :: rest)) = none := by
        unfold ofWritten?
        rw [Written.record?, Record.ofItems?, if_neg (Nat.not_le.2 long)]
      rw [unread]
      refine ⟨fun found => absurd found (Option.some_ne_none r).symm, fun listed => ?_⟩
      cases listed

theorem ofWritten?_eq_some_iff {w : Written} (denotes : w.denote?.isSome = true) {r : Request} :
    ofWritten? w = some r ↔ IsRequest w r := by
  cases w with
  | object members =>
      rw [ofWritten?_object_iff denotes]
      exact ⟨.inl, fun request => request.elim id nofun⟩
  | array items =>
      rw [ofWritten?_array_iff]
      exact ⟨.inr, fun request => request.elim nofun id⟩
  | _ => exact ⟨nofun, fun request => request.elim nofun nofun⟩

theorem isSome_denote?_of_mem {items : List Written} {item : Written}
    (denotes : (Written.array items).denote?.isSome = true) (among : item ∈ items) :
    item.denote?.isSome = true := by
  replace denotes : (Written.denoteItems? items).isSome = true := by
    rwa [Written.denote?, Option.isSome_map] at denotes
  induction items with
  | nil => cases among
  | cons first items ih =>
      rw [Written.denoteItems?] at denotes
      obtain ⟨all, found⟩ := Option.isSome_iff_exists.1 denotes
      obtain ⟨j, firstFound, found⟩ := Option.bind_eq_some_iff.1 found
      obtain ⟨rest, restFound, _⟩ := Option.bind_eq_some_iff.1 found
      rcases List.mem_cons.1 among with rfl | among
      · exact Option.isSome_of_eq_some firstFound
      · exact ih among (Option.isSome_of_eq_some restFound)

/-- An array of requests is no request itself: it would have to start with a string. -/
theorem not_isRequest_of_forall₂ {items : List Written} {requests : List Request}
    (nonempty : items ≠ []) (each : List.Forall₂ IsRequest items requests) (r : Request) :
    ¬IsRequest (.array items) r := by
  have first : ∀ {text : Option String} {rest : List Written},
      items ≠ .string text :: rest := by
    rintro text rest rfl
    cases each with
    | cons head _ => exact head.elim nofun nofun
  rintro (object | listed)
  · cases object
  · cases listed with
    | query parts | operationName parts | variableValues parts =>
        exact first (by rw [parts.query])

theorem mapM_ofWritten?_eq_some_iff {items : List Written}
    (denotes : ∀ item ∈ items, item.denote?.isSome = true) {requests : List Request} :
    items.mapM ofWritten? = some requests ↔ List.Forall₂ IsRequest items requests := by
  rw [Written.mapM_eq_some_iff]
  constructor
  · intro each
    have both := (List.forall₂_and_left items requests).2 ⟨denotes, each⟩
    exact both.imp fun _ _ found => (ofWritten?_eq_some_iff found.1).1 found.2
  · intro each
    have both := (List.forall₂_and_left items requests).2 ⟨denotes, each⟩
    exact both.imp fun _ _ request => (ofWritten?_eq_some_iff request.1).2 request.2

theorem ofValue?_eq_some_iff {w : Written} (denotes : w.denote?.isSome = true)
    {requests : List Request} :
    ofValue? w = some requests ∧ requests ≠ [] ↔ HasShape IsRequest w requests := by
  constructor
  · rintro ⟨found, nonempty⟩
    unfold ofValue? at found
    split at found
    · next request single =>
      obtain rfl := Option.some.inj found
      exact .single ((ofWritten?_eq_some_iff denotes).1 single)
    · next items notSingle =>
      refine .batch (fun empty => ?_) ((mapM_ofWritten?_eq_some_iff fun item among =>
        isSome_denote?_of_mem denotes among).1 found)
      subst empty
      exact nonempty (Option.some.inj found).symm
    · cases found
  · intro shape
    cases shape with
    | single request =>
        have found := (ofWritten?_eq_some_iff denotes).2 request
        unfold ofValue?
        rw [found]
        exact ⟨rfl, nofun⟩
    | @batch items _ nonempty each =>
        have notSingle : ofWritten? (.array items) = none := by
          rw [Option.eq_none_iff_forall_ne_some]
          intro r single
          exact not_isRequest_of_forall₂ nonempty each r ((ofWritten?_eq_some_iff denotes).1 single)
        have found := (mapM_ofWritten?_eq_some_iff fun item among =>
          isSome_denote?_of_mem denotes among).2 each
        unfold ofValue?
        rw [notSingle]
        refine ⟨found, fun empty => nonempty ?_⟩
        subst empty
        cases each
        rfl

/-- A body holds requests exactly if it is the text of a value that has their shape. -/
theorem ofBody_eq_ok_iff_shape {body : ByteArray} {requests : List Request} :
    ofBody body = .ok requests ↔
      ∃ w, w.IsBody nestingCeiling body ∧ HasShape IsRequest w requests := by
  unfold ofBody
  constructor
  · intro found
    split at found
    · cases found
    · next w rest read =>
      split at found
      · cases found
      · next notNone =>
        have denotes : w.denote?.isSome = true := by
          rwa [Bool.not_eq_true, Option.isNone_eq_false_iff] at notNone
        split at found
        · cases found
        · next all shape =>
          split at found
          · cases found
          · next atEnd =>
            split at found
            · cases found
            · next nonempty =>
              obtain rfl := Except.ok.inj found
              have empty : rest = [] := by simpa using atEnd
              subst empty
              exact ⟨w, Written.isBody_iff.2 ⟨read, denotes⟩,
                (ofValue?_eq_some_iff denotes).1 ⟨shape, by simpa using nonempty⟩⟩
  · rintro ⟨w, isBody, shape⟩
    obtain ⟨read, denotes⟩ := Written.isBody_iff.1 isBody
    obtain ⟨found, nonempty⟩ := (ofValue?_eq_some_iff denotes).2 shape
    rw [read]
    have notNone : w.denote?.isNone = false := Option.isNone_eq_false_iff.2 denotes
    simp [notNone, found, nonempty]

/-! ## The documented grammar -/

/-- An array stands where the grammar has an object. -/
def HoldsListed (w : Written) : Prop :=
  (∃ r, IsListed w r) ∨ ∃ items, w = .array items ∧ ∃ item ∈ items, ∃ r, IsListed item r

theorem HasShape.mono {form form' : Written → Request → Prop}
    (weaker : ∀ w r, form w r → form' w r) {w : Written} {requests : List Request}
    (shape : HasShape form w requests) : HasShape form' w requests := by
  cases shape with
  | single request => exact .single (weaker _ _ request)
  | batch nonempty each => exact .batch nonempty (each.imp weaker)

theorem forall₂_isObject_or_listed {items : List Written} {requests : List Request}
    (each : List.Forall₂ IsRequest items requests) :
    List.Forall₂ IsObject items requests ∨ ∃ item ∈ items, ∃ r, IsListed item r := by
  induction each with
  | nil => exact .inl .nil
  | cons request _ ih =>
      rcases request with object | listed
      · rcases ih with objects | ⟨item, among, listed⟩
        · exact .inl (.cons object objects)
        · exact .inr ⟨item, List.mem_cons_of_mem _ among, listed⟩
      · exact .inr ⟨_, List.mem_cons_self, _, listed⟩

theorem HasShape.isObject_or_listed {w : Written} {requests : List Request}
    (shape : HasShape IsRequest w requests) :
    HasShape IsObject w requests ∨ HoldsListed w := by
  cases shape with
  | single request =>
      rcases request with object | listed
      · exact .inl (.single object)
      · exact .inr (.inl ⟨_, listed⟩)
  | batch nonempty each =>
      rcases forall₂_isObject_or_listed each with objects | listed
      · exact .inl (.batch nonempty objects)
      · exact .inr (.inr ⟨_, rfl, listed⟩)

/-- **Which bodies hold requests.**  A body holds requests exactly if it is one JSON value in the
shape of a request or of a batch.  All documented bodies do, and a body that does is a documented
one unless an array stands in it where an object should. -/
theorem ofBody_follows_grammar (body : ByteArray) (requests : List Request) :
    (ofBody body = .ok requests ↔
      ∃ w, w.IsBody nestingCeiling body ∧ HasShape IsRequest w requests) ∧
    ((∃ w, w.IsBody nestingCeiling body ∧ HasShape IsObject w requests) →
      ofBody body = .ok requests) ∧
    (ofBody body = .ok requests →
      (∃ w, w.IsBody nestingCeiling body ∧ HasShape IsObject w requests) ∨
        ∃ w, w.IsBody nestingCeiling body ∧ HoldsListed w) := by
  refine ⟨ofBody_eq_ok_iff_shape, ?_, ?_⟩
  · rintro ⟨w, isBody, shape⟩
    exact ofBody_eq_ok_iff_shape.2 ⟨w, isBody, shape.mono fun _ _ object => .inl object⟩
  · intro found
    obtain ⟨w, isBody, shape⟩ := ofBody_eq_ok_iff_shape.1 found
    rcases shape.isObject_or_listed with objects | listed
    · exact .inl ⟨w, isBody, objects⟩
    · exact .inr ⟨w, isBody, listed⟩

/-- A query in brackets, `["{a}"]`, is taken for a request, although it is no object. -/
theorem ofBody_bracketed_query :
    ofBody ("[\"\x7ba\x7d\"]".toList).utf8Encode = .ok [⟨"\x7ba\x7d", none, none⟩] ∧
      ¬∃ w, w.IsBody nestingCeiling ("[\"\x7ba\x7d\"]".toList).utf8Encode ∧
        HasShape IsObject w [⟨"\x7ba\x7d", none, none⟩] := by
  have quoted : Json.StringBody ['\x7b', 'a', '\x7d'] ['\x7b', 'a', '\x7d'] :=
    .plain (by decide) (by decide) (by decide) (.plain (by decide) (by decide) (by decide)
      (.plain (by decide) (by decide) (by decide) .empty))
  have text : (Written.array [.string (some "\x7ba\x7d")]).Text "[\"\x7ba\x7d\"]".toList :=
    (Json.TokenText.single .bracketLeft).append
      ((Json.TokenText.single (.string quoted)).append (Json.TokenText.single .bracketRight))
  have isBody : (Written.array [.string (some "\x7ba\x7d")]).IsBody nestingCeiling
      ("[\"\x7ba\x7d\"]".toList).utf8Encode :=
    ⟨⟨_, rfl, text⟩, by decide, fun n among => by simp [Written.tokens, Written.moreItems] at among⟩
  refine ⟨ofBody_eq_ok_iff_shape.2 ⟨_, isBody, .single (.inr (.query ⟨rfl, .missing, .missing⟩))⟩,
    ?_⟩
  rintro ⟨w, isBody', shape⟩
  obtain rfl := isBody.unique isBody'
  cases shape with
  | single object => cases object
  | batch _ each =>
      cases each with
      | cons object _ => cases object

end Request

end QueryCost
