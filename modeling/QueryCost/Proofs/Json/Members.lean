/-
# QueryCost.Proofs.Json.Members -- what the fields of a record do not depend on

The fields of a record are found by their names.  So the members of an object can be put
in another order, members under names of no field can be added, and a member can go by
another name of its field; each of these is an `Edit`, and none of them changes what the
reader finds (`record?_eq_of_edit`).  For the last one no two fields may share a name
(`Distinct`), or the other name could bring the member to another field.

A field that is given twice, under whatever of its names, is never chosen from: then
there is no record (`record?_eq_none_of_repeats`).
-/
import QueryCost.Proofs.Json.Record

namespace QueryCost

set_option autoImplicit false

/-! ## Fields and single members -/

namespace Record

variable {α β : Type} {names : List String} {name : String} {a : α} {ms ms' : List (String × α)}

theorem field?_eq_of_perm (order : ms.Perm ms') : field? names ms = field? names ms' := by
  have found := order.filter (fun m => m.1 ∈ names)
  unfold field?
  generalize ms.filter (fun m => m.1 ∈ names) = matching at found
  generalize ms'.filter (fun m => m.1 ∈ names) = matching' at found
  match matching with
  | [] => rw [found.nil_eq]
  | [m] => rw [List.singleton_perm.1 found]
  | m :: n :: more =>
      have several := found.length_eq
      match matching' with
      | [] => cases several
      | [_] => cases several
      | _ :: _ :: _ => rfl

theorem field?_cons_of_notMem (other : name ∉ names) :
    field? names ((name, a) :: ms) = field? names ms := by
  unfold field?
  rw [List.filter_cons_of_neg (by simpa using other)]

/-- A member of the field in front is its value, if there is no other one. -/
theorem field?_cons_of_mem (own : name ∈ names) :
    field? names ((name, a) :: ms) =
      (field? names ms).bind fun
        | none => some (some a)
        | some _ => none := by
  unfold field?
  rw [List.filter_cons_of_pos (by simpa using own)]
  generalize ms.filter (fun m => m.1 ∈ names) = matching
  match matching with
  | [] => rfl
  | [_] => rfl
  | _ :: _ :: _ => rfl

theorem ofMembers?_congr {fields : List (List String)}
    (same : ∀ names ∈ fields, field? names ms = field? names ms') :
    ofMembers? fields ms = ofMembers? fields ms' := by
  unfold ofMembers?
  induction fields with
  | nil => rfl
  | cons names fields ih =>
      obtain ⟨first, others⟩ := List.forall_mem_cons.1 same
      rw [List.mapM_cons, List.mapM_cons, first, ih others]

/-- The value of a member in front matters only as far as its field reads it. -/
theorem bind_orDefault_field?_cons {default : β} {read : α → Option β} {b : α}
    (same : name ∈ names → read a = read b) :
    (field? names ((name, a) :: ms)).bind (orDefault default read) =
      (field? names ((name, b) :: ms)).bind (orDefault default read) := by
  by_cases own : name ∈ names
  · rw [field?_cons_of_mem own, field?_cons_of_mem own]
    match field? names ms with
    | none => rfl
    | some (some _) => rfl
    | some none => exact same own
  · rw [field?_cons_of_notMem own, field?_cons_of_notMem own]

/-- A member is the value of its field, or one of several. -/
theorem field?_of_mem (among : (name, a) ∈ ms) (own : name ∈ names) :
    field? names ms = none ∨ field? names ms = some (some a) := by
  have inside : (name, a) ∈ ms.filter fun m => m.1 ∈ names :=
    List.mem_filter.2 ⟨among, by simpa using own⟩
  unfold field?
  generalize ms.filter (fun m => m.1 ∈ names) = matching at inside
  match matching with
  | [m] =>
      obtain rfl := List.mem_singleton.1 inside
      exact .inr rfl
  | _ :: _ :: _ => exact .inl rfl

/-- A member that cannot be read spoils its field. -/
theorem bind_orDefault_field?_eq_none {default : β} {read : α → Option β}
    (among : (name, a) ∈ ms) (own : name ∈ names) (unread : read a = none) :
    (field? names ms).bind (orDefault default read) = none := by
  rcases field?_of_mem among own with none | found
  · rw [none, Option.bind_none]
  · rw [found, Option.bind_some, orDefault, unread]

/-! ## Edits -/

/-- No two fields share a name. -/
def Distinct (fields : List (List String)) : Prop :=
  ∀ names ∈ fields, ∀ names' ∈ fields, ∀ name ∈ names, name ∈ names' → names = names'

instance : DecidablePred Distinct := fun fields =>
  inferInstanceAs (Decidable (∀ names ∈ fields, ∀ names' ∈ fields, ∀ name ∈ names, _))

/-- A change to the members of a record that leaves its fields as they are. -/
inductive Edit (fields : List (List String)) :
    List (Option String × α) → List (Option String × α) → Prop
  | reordered {ms ms' : List (Option String × α)} (order : ms.Perm ms') : Edit fields ms ms'
  /-- A member under a name of no field is added, with any value. -/
  | added {name : String} (unknown : ∀ names ∈ fields, name ∉ names) (a : α)
      (ms : List (Option String × α)) : Edit fields ms ((some name, a) :: ms)
  /-- A member goes by another name of its field. -/
  | renamed {names : List String} {name name' : String} (listed : names ∈ fields)
      (own : name ∈ names) (own' : name' ∈ names) (a : α) (ms : List (Option String × α)) :
      Edit fields ((some name, a) :: ms) ((some name', a) :: ms)

/-- A field that is given more than once, under one of its names or under several. -/
def Repeats (fields : List (List String)) (ms : List (Option String × α)) : Prop :=
  ∃ names ∈ fields, 2 ≤ (ms.filter fun m => m.1.any (· ∈ names)).length

/-- Members under two names of one field repeat it. -/
theorem Repeats.of_mem {fields : List (List String)} {ms : List (Option String × α)}
    {name' : String} {b : α} (listed : names ∈ fields) (own : name ∈ names) (own' : name' ∈ names)
    (differ : name ≠ name') (first : (some name, a) ∈ ms) (second : (some name', b) ∈ ms) :
    Repeats fields ms := by
  refine ⟨names, listed, ?_⟩
  have kept : (some name, a) ∈ ms.filter fun m => m.1.any (· ∈ names) := by simp [first, own]
  have kept' : (some name', b) ∈ ms.filter fun m => m.1.any (· ∈ names) := by simp [second, own']
  generalize ms.filter (fun m => m.1.any (· ∈ names)) = matching at kept kept'
  match matching with
  | [m] =>
      obtain rfl := List.mem_singleton.1 kept
      have same : name' = name ∧ b = a := by simpa using kept'
      exact absurd same.1.symm differ
  | _ :: _ :: _ => simp

theorem field?_eq_of_renamed {fields : List (List String)} (distinct : Distinct fields)
    {names' : List String} {name' : String} (listed : names ∈ fields) (own : name ∈ names)
    (own' : name' ∈ names) (listed' : names' ∈ fields) :
    field? names' ((name, a) :: ms) = field? names' ((name', a) :: ms) := by
  by_cases same : names = names'
  · subst same
    rw [field?_cons_of_mem own, field?_cons_of_mem own']
  · have other : name ∉ names' :=
      fun shared => same (distinct names listed names' listed' name own shared)
    have other' : name' ∉ names' :=
      fun shared => same (distinct names listed names' listed' name' own' shared)
    rw [field?_cons_of_notMem other, field?_cons_of_notMem other']

end Record

/-! ## Records in JSON -/

namespace Json.Written

open QueryCost.Record (Edit Repeats Distinct)

variable {fields : List (List String)} {ms ms' : List (Option String × Written)}

theorem namedMembers?_cons (name : String) (w : Written) (ms : List (Option String × Written)) :
    namedMembers? ((some name, w) :: ms) = (namedMembers? ms).map ((name, w) :: ·) := by
  unfold namedMembers?
  rw [List.mapM_cons]
  cases ms.mapM fun m => m.1.map (·, m.2) <;> rfl

theorem namedMembers?_cons_none (w : Written) (ms : List (Option String × Written)) :
    namedMembers? ((none, w) :: ms) = none :=
  rfl

theorem namedMembers?_perm (order : ms.Perm ms') :
    Option.Rel List.Perm (namedMembers? ms) (namedMembers? ms') := by
  induction order with
  | nil => exact .some (.refl _)
  | @cons m before after _ ih =>
      obtain ⟨name | name, w⟩ := m
      · exact .none
      · rw [namedMembers?_cons, namedMembers?_cons]
        generalize namedMembers? before = read, namedMembers? after = read' at ih
        cases ih with
        | none => exact .none
        | some order => exact .some (order.cons _)
  | swap m n ms =>
      obtain ⟨name | name, w⟩ := m
      · obtain ⟨name' | name', w'⟩ := n
        · exact .none
        · rw [namedMembers?_cons, namedMembers?_cons_none]
          exact .none
      · obtain ⟨name' | name', w'⟩ := n
        · rw [namedMembers?_cons, namedMembers?_cons_none]
          exact .none
        · simp only [namedMembers?_cons, Option.map_map]
          cases namedMembers? ms with
          | none => exact .none
          | some named => exact .some (.swap _ _ _)
  | @trans before between after _ _ first second =>
      generalize namedMembers? before = read, namedMembers? between = read',
        namedMembers? after = read'' at first second
      cases first with
      | none => exact second
      | some order =>
          cases second with
          | some order' => exact .some (order.trans order')

/-- **Edits are not seen.**  The reader of records finds the same fields before and after. -/
theorem record?_eq_of_edit (distinct : Distinct fields) (edit : Edit fields ms ms') :
    record? fields (.object ms) = record? fields (.object ms') := by
  cases edit with
  | reordered order =>
      have named := namedMembers?_perm order
      show (namedMembers? ms).bind _ = (namedMembers? ms').bind _
      generalize namedMembers? ms = read, namedMembers? ms' = read' at named
      cases named with
      | none => rfl
      | some order => exact Record.ofMembers?_congr fun names _ => Record.field?_eq_of_perm order
  | added unknown w ms =>
      show (namedMembers? ms).bind _ = (namedMembers? _).bind _
      rw [namedMembers?_cons]
      cases namedMembers? ms with
      | none => rfl
      | some named =>
          refine Record.ofMembers?_congr fun names listed => ?_
          exact (Record.field?_cons_of_notMem (unknown names listed)).symm
  | renamed listed own own' w ms =>
      show (namedMembers? _).bind _ = (namedMembers? _).bind _
      rw [namedMembers?_cons, namedMembers?_cons]
      cases namedMembers? ms with
      | none => rfl
      | some named =>
          refine Record.ofMembers?_congr fun names' listed' => ?_
          exact Record.field?_eq_of_renamed distinct listed own own' listed'

/-- The fields of a written object do not depend on the order of its members. -/
theorem record?_tree_of_perm {members members' : List (String × Json)}
    (order : members.Perm members') :
    record? fields (tree (.object members)) = record? fields (tree (.object members')) := by
  rw [record?_tree, record?_tree, Record.ofMembers?_congr fun _ _ => Record.field?_eq_of_perm order]

/-- The members under names are those that stand in the object. -/
theorem eq_map_of_namedMembers? {named : List (String × Written)}
    (read : namedMembers? ms = some named) : ms = named.map fun m => (some m.1, m.2) := by
  induction ms generalizing named with
  | nil =>
      cases read
      rfl
  | cons m ms ih =>
      obtain ⟨name | name, w⟩ := m
      · cases read
      · rw [namedMembers?_cons] at read
        obtain ⟨rest, others, rfl⟩ := Option.map_eq_some_iff.1 read
        rw [List.map_cons, ← ih others]

theorem mem_of_namedMembers? {named : List (String × Written)} {name : String} {w : Written}
    (read : namedMembers? ms = some named) (among : (some name, w) ∈ ms) : (name, w) ∈ named := by
  rw [eq_map_of_namedMembers? read] at among
  obtain ⟨m, listed, same⟩ := List.mem_map.1 among
  obtain ⟨sameName, sameValue⟩ := Prod.mk.inj same
  rwa [← Option.some.inj sameName, ← sameValue]

theorem record?_eq_none_of_repeats (repeats : Repeats fields ms) :
    record? fields (.object ms) = none := by
  obtain ⟨names, listed, several⟩ := repeats
  show (namedMembers? ms).bind _ = none
  cases read : namedMembers? ms with
  | none => rfl
  | some named =>
      refine mapM_eq_none_of_mem listed ?_
      rw [eq_map_of_namedMembers? read, List.filter_map, List.length_map] at several
      change 2 ≤ (named.filter fun m => m.1 ∈ names).length at several
      unfold Record.field?
      generalize named.filter (fun m => m.1 ∈ names) = matching at several
      match matching with
      | [] => exact absurd several (by decide)
      | [_] => exact absurd several (by simp)
      | _ :: _ :: _ => rfl

end Json.Written

end QueryCost
