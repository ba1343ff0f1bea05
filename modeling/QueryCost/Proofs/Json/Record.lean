/-
# QueryCost.Proofs.Json.Record -- reading records that were written

The members of a record that are given stand under names, one for each field
(`present`).  If that name is one of the field's own and no other field goes by it, the
reader of records finds just what was given (`field?_present_cons_of_mem`).  The names and
the values of members do not meet: a reader finds the fields of a record before it looks
at what stands in them (`ofMembers?_map`).

A ledger is read from its amounts in any order, if every one of them reads back
(`ledger?_eq_some_iff`).

The last section has what is read of the tree of a value: of an object its fields, of a
size the size, and of doubles what they read back as.
-/
import Mathlib.Data.List.Forall2
import Mathlib.Data.List.Nodup
import QueryCost.Json.Record
import QueryCost.Proofs.Json.Rendering
import QueryCost.Proofs.Ledger

namespace QueryCost

set_option autoImplicit false

/-! ## Members that are given -/

namespace Record

variable {α β : Type}

/-- The members of the fields that have a value. -/
def present (fields : List (String × Option α)) : List (String × α) :=
  fields.filterMap fun f => f.2.map (f.1, ·)

theorem forall_mem_present {fields : List (String × Option α)} {p : α → Prop} :
    (∀ m ∈ present fields, p m.2) ↔ ∀ f ∈ fields, ∀ a ∈ f.2, p a := by
  constructor
  · intro each f among a given
    exact each (f.1, a) (List.mem_filterMap.2 ⟨f, among, by rw [Option.mem_def.1 given]; rfl⟩)
  · intro each m among
    obtain ⟨f, listed, given⟩ := List.mem_filterMap.1 among
    obtain ⟨a, value, rfl⟩ := Option.map_eq_some_iff.1 given
    exact each f listed a value

theorem filter_present_eq_nil {names : List String} {fields : List (String × Option α)}
    (others : ∀ f ∈ fields, f.1 ∉ names) :
    (present fields).filter (fun m => m.1 ∈ names) = [] := by
  rw [List.filter_eq_nil_iff]
  intro m among
  obtain ⟨f, listed, given⟩ := List.mem_filterMap.1 among
  obtain ⟨a, _, rfl⟩ := Option.map_eq_some_iff.1 given
  simpa using others f listed

@[simp] theorem field?_present_cons_of_mem {names : List String} {name : String} {value : Option α}
    {fields : List (String × Option α)} (own : name ∈ names)
    (others : ∀ f ∈ fields, f.1 ∉ names) :
    field? names (present ((name, value) :: fields)) = some value := by
  have rest := filter_present_eq_nil others
  cases value with
  | none =>
      change field? names (present fields) = _
      rw [field?, rest]
  | some a =>
      change field? names ((name, a) :: present fields) = _
      rw [field?, List.filter_cons_of_pos (by simpa using own), rest]

@[simp] theorem field?_present_cons_of_notMem {names : List String} {name : String}
    {value : Option α} {fields : List (String × Option α)} (other : name ∉ names) :
    field? names (present ((name, value) :: fields)) = field? names (present fields) := by
  cases value with
  | none => rfl
  | some a =>
      change field? names ((name, a) :: present fields) = _
      rw [field?, List.filter_cons_of_neg (by simpa using other)]
      rfl

/-- Fields are found by their names alone. -/
theorem field?_map (f : α → β) (names : List String) (members : List (String × α)) :
    field? names (members.map fun m => (m.1, f m.2)) =
      (field? names members).map (Option.map f) := by
  have found : (members.map fun m => (m.1, f m.2)).filter (fun m => m.1 ∈ names) =
      (members.filter fun m => m.1 ∈ names).map fun m => (m.1, f m.2) := by
    simp [List.filter_map, Function.comp_def]
  unfold field?
  rw [found]
  generalize members.filter (fun m => m.1 ∈ names) = matching
  match matching with
  | [] => rfl
  | [m] => rfl
  | _ :: _ :: _ => rfl

theorem ofMembers?_map (f : α → β) (fields : List (List String)) (members : List (String × α)) :
    ofMembers? fields (members.map fun m => (m.1, f m.2)) =
      (ofMembers? fields members).map (List.map (Option.map f)) := by
  unfold ofMembers?
  induction fields with
  | nil => rfl
  | cons names fields ih =>
      rw [List.mapM_cons, List.mapM_cons, ih, field?_map]
      cases field? names members with
      | none => rfl
      | some value => cases fields.mapM (field? · members) <;> rfl

end Record

/-- The doubles in a record are those in the fields that have a value. -/
theorem Json.forall_mem_doubles_present {p : Float → Prop} {fields : List (String × Option Json)} :
    (∀ x ∈ (object (Record.present fields)).doubles, p x) ↔
      ∀ f ∈ fields, ∀ j ∈ f.2, ∀ x ∈ j.doubles, p x :=
  forall_mem_doubles_object.trans (Record.forall_mem_present (p := fun j => ∀ x ∈ doubles j, p x))

/-! ## Objects -/

namespace Json.Written

theorem namedMembers?_map (named : List (String × Written)) :
    namedMembers? (named.map fun m => (some m.1, m.2)) = some named := by
  unfold namedMembers?
  induction named with
  | nil => rfl
  | cons m named ih =>
      rw [List.map_cons, List.mapM_cons, ih]
      rfl

theorem mapM_eq_some_iff {α β : Type} {f : α → Option β} {as : List α} {bs : List β} :
    as.mapM f = some bs ↔ List.Forall₂ (fun a b => f a = some b) as bs := by
  induction as generalizing bs with
  | nil =>
      rw [List.mapM_nil, List.forall₂_nil_left_iff]
      exact ⟨fun same => (Option.some.inj same).symm, fun same => congrArg some same.symm⟩
  | cons a as ih =>
      rw [List.mapM_cons, List.forall₂_cons_left_iff]
      simp only [Option.bind_eq_bind, Option.bind_eq_some_iff, Option.pure_def,
        Option.some.injEq, ih]
      constructor
      · rintro ⟨b, first, bs, others, rfl⟩
        exact ⟨b, bs, first, others, rfl⟩
      · rintro ⟨b, bs, first, others, rfl⟩
        exact ⟨b, first, bs, others, rfl⟩

/-- One bad item spoils all. -/
theorem mapM_eq_none_of_mem {α β : Type} {f : α → Option β} {as : List α} {a : α}
    (among : a ∈ as) (bad : f a = none) : as.mapM f = none := by
  induction as with
  | nil => cases among
  | cons first as ih =>
      rw [List.mapM_cons]
      rcases List.mem_cons.1 among with rfl | among
      · rw [bad]
        rfl
      · rw [ih among]
        cases f first <;> rfl

/-- Every value that was read was read of an item. -/
theorem exists_of_mem_mapM {α β : Type} {f : α → Option β} {as : List α} {bs : List β} {b : β}
    (read : as.mapM f = some bs) (among : b ∈ bs) : ∃ a ∈ as, f a = some b := by
  rw [mapM_eq_some_iff] at read
  induction read with
  | nil => cases among
  | @cons a _ _ _ first _ ih =>
      rcases List.mem_cons.1 among with rfl | among
      · exact ⟨a, List.mem_cons_self, first⟩
      · obtain ⟨a, listed, same⟩ := ih among
        exact ⟨a, List.mem_cons_of_mem _ listed, same⟩

/-! ## Ledgers -/

/-- Amounts that are read under their names stand beside what they were read from. -/
theorem mem_of_reads {value : Float → Written} {es amounts : List (String × Float)}
    (each : List.Forall₂ (fun e a => (value e.2).amount?.map (e.1, ·) = some a) es amounts) :
    amounts.map (·.1) = es.map (·.1) ∧
      ∀ e ∈ es, ∃ x, (value e.2).amount? = some x ∧ (e.1, x) ∈ amounts := by
  induction each with
  | nil => exact ⟨rfl, nofun⟩
  | @cons e a es amounts first _ ih =>
      obtain ⟨x, read, rfl⟩ := Option.map_eq_some_iff.1 first
      refine ⟨congrArg (e.1 :: ·) ih.1, List.forall_mem_cons.2 ⟨⟨x, read, List.mem_cons_self⟩, ?_⟩⟩
      intro other among
      obtain ⟨y, read, listed⟩ := ih.2 other among
      exact ⟨y, read, List.mem_cons_of_mem _ listed⟩

/-- A ledger is read from its amounts, in whatever order they are written, exactly if each of them
is read. -/
theorem ledger?_eq_some_iff {value : Float → Written} {l : Ledger Float}
    {es : List (String × Float)} (order : es.Perm l.entries) :
    ledger? (.object (es.map fun e => (some e.1, value e.2))) = some l ↔
      ∀ e ∈ es, (value e.2).amount? = some e.2 := by
  have named : namedMembers? (es.map fun e => (some e.1, value e.2)) =
      some (es.map fun e => (e.1, value e.2)) := by
    have members := namedMembers?_map (es.map fun e => (e.1, value e.2))
    rwa [List.map_map] at members
  simp only [ledger?, named, Option.bind_eq_bind, Option.bind_some, Option.pure_def,
    Option.bind_eq_some_iff, Option.some.injEq, mapM_eq_some_iff, List.forall₂_map_left_iff]
  constructor
  · rintro ⟨amounts, each, rfl⟩ e among
    obtain ⟨names, beside⟩ := mem_of_reads each
    have distinct : (amounts.map (·.1)).Nodup := by
      rw [names]
      exact (order.map _).nodup_iff.2 (Ledger.nodup_names _)
    -- the amount that was entered under the name of `e` is that of `e`
    obtain ⟨x, read, listed⟩ := beside e among
    have entered : e ∈ amounts :=
      (order.trans (Ledger.entries_ofList_perm distinct)).mem_iff.1 among
    rw [read, ← List.inj_on_of_nodup_map distinct listed entered rfl]
  · intro each
    refine ⟨es, List.forall₂_same.2 fun e among => ?_, ?_⟩
    · rw [each e among]
      rfl
    · exact Ledger.eq_of_entries (Ledger.entries_ofList_of_perm l.increasing order)

/-! ## What is read of a value's tree -/

/-- The fields of a written object are those of the value. -/
theorem record?_tree {fields : List (List String)} {members : List (String × Json)} :
    record? fields (tree (.object members)) =
      (Record.ofMembers? fields members).map (List.map (Option.map tree)) := by
  have named := namedMembers?_map (members.map fun m => (m.1, tree m.2))
  rw [List.map_map] at named
  rw [tree, membersTree_eq_map, record?, ← Record.ofMembers?_map]
  exact congrArg (Option.bind · _) named

theorem size?_tree {n : Nat} (fits : n ≤ maxSize) : (tree (.ofNat n)).size? = some n := by
  have integer : (Decimal.Numeral.ofInt n).isInteger = true := rfl
  have natural : (Decimal.Numeral.ofInt n).negative = false :=
    decide_eq_false (Int.not_lt.2 (Int.natCast_nonneg n))
  rw [ofNat, tree, size?, sizeOf?, integer, natural, Decimal.Numeral.natural_ofInt,
    Int.natAbs_natCast, if_pos (by simpa using fits)]

theorem amount?_tree_iff {x : Float} : (tree (.double x)).amount? = some x ↔ ReadsBack x := by
  rw [readsBack_iff, tree]

theorem ledger?_tree_iff {l : Ledger Float} {es : List (String × Float)}
    (order : es.Perm l.entries) :
    (tree (.object (es.map fun e => (e.1, .double e.2)))).ledger? = some l ↔
      ∀ e ∈ es, ReadsBack e.2 := by
  have members : (es.map fun e => (e.1, Json.double e.2)).map (fun m => (some m.1, tree m.2)) =
      es.map fun e => (some e.1, doubleTree e.2) := by
    rw [List.map_map]
    rfl
  rw [tree, membersTree_eq_map, members, ledger?_eq_some_iff order]
  exact forall₂_congr fun e _ => readsBack_iff.symm

end Json.Written

end QueryCost
