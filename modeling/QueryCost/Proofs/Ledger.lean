/-
# QueryCost.Proofs.Ledger -- what stands under a name

The view of a ledger is `get?`.  Changing the amount under one name is seen under
that name and under no other (`get?_alter`), and a name is listed exactly if an
amount stands under it (`mem_names_iff`).

From one change the effect of many follows: after adding amounts one after the
other, what stands under a name is what stood there plus, from left to right, the
amounts that were added under it (`get?_foldl_add`).  Pairs under distinct names are
entered as they are, only in order (`entries_ofList_of_perm`).
-/
import Mathlib.Data.Finset.Card
import QueryCost.Ledger

namespace QueryCost.Ledger

set_option autoImplicit false

variable {α : Type}

theorem eq_of_entries {l l' : Ledger α} (same : l.entries = l'.entries) : l = l' := by
  cases l
  cases l'
  cases same
  rfl

/-! ## One change -/

theorem lookup_entry (n name : String) (a : α) (rest : List (String × α)) :
    List.lookup n ((name, a) :: rest) = if n = name then some a else rest.lookup n := by
  by_cases same : n = name
  · simp [same]
  · have differs : (n == name) = false := beq_eq_false_iff_ne.2 same
    simp [List.lookup_cons, differs, same]

theorem lookup_eq_none_of_lt {name : String} {entries : List (String × α)}
    (after : ∀ e ∈ entries, name < e.1) : entries.lookup name = none := by
  rw [List.lookup_eq_none_iff]
  intro e member
  have lt := after e member
  have ne : name ≠ e.1 := fun same => String.lt_irrefl e.1 (same ▸ lt)
  simpa using ne

theorem mem_entries_of_get? {l : Ledger α} {name : String} {a : α}
    (found : l.get? name = some a) : (name, a) ∈ l.entries := by
  obtain ⟨before, after, split, -⟩ := List.lookup_eq_some_iff.1 found
  rw [split]
  exact List.mem_append_right before List.mem_cons_self

theorem get?_of_mem {l : Ledger α} {e : String × α} (listed : e ∈ l.entries) :
    l.get? e.1 = some e.2 := by
  obtain ⟨entries, increasing⟩ := l
  show entries.lookup e.1 = some e.2
  induction entries with
  | nil => cases listed
  | cons head rest ih =>
      obtain ⟨m, b⟩ := head
      obtain ⟨before, increasing⟩ := List.pairwise_cons.1 increasing
      rw [lookup_entry]
      rcases List.mem_cons.1 listed with rfl | later
      · rw [if_pos rfl]
      · have other : e.1 ≠ m := fun same => String.lt_irrefl m (same ▸ before e later)
        rw [if_neg other]
        exact ih increasing later

/-- The entries stand in order, so a name that belongs before the first of them is
not among them. -/
theorem lookup_alterEntries (name : String) (f : Option α → α) (entries : List (String × α))
    (increasing : entries.Pairwise (fun a b => a.1 < b.1)) (n : String) :
    (alterEntries name f entries).lookup n =
      if n = name then some (f (entries.lookup name)) else entries.lookup n := by
  induction entries with
  | nil => simp [alterEntries, lookup_entry]
  | cons head rest ih =>
      obtain ⟨m, a⟩ := head
      rw [List.pairwise_cons] at increasing
      obtain ⟨first, increasing⟩ := increasing
      simp only [alterEntries]
      split
      · rename_i before
        have absent : List.lookup name ((m, a) :: rest) = none := by
          apply lookup_eq_none_of_lt
          intro e member
          rcases List.mem_cons.1 member with rfl | member
          · exact before
          · exact String.lt_trans before (first e member)
        rw [absent, lookup_entry]
      · split
        · rename_i found
          subst found
          by_cases same : n = name <;> simp [lookup_entry, same]
        · rename_i other
          by_cases here : n = m
          · subst here
            simp [Ne.symm other]
          · simp [lookup_entry, here, other, ih increasing]

@[simp] theorem get?_empty (name : String) : (∅ : Ledger α).get? name = none := rfl

theorem get?_alter (l : Ledger α) (name : String) (f : Option α → α) (n : String) :
    (l.alter name f).get? n = if n = name then some (f (l.get? name)) else l.get? n :=
  lookup_alterEntries name f l.entries l.increasing n

theorem get?_add [Zero α] [Add α] (l : Ledger α) (name : String) (a : α) (n : String) :
    (l.add name a).get? n = if n = name then some ((l.get? name).getD 0 + a) else l.get? n :=
  get?_alter l name _ n

theorem mem_names_iff (l : Ledger α) (name : String) :
    name ∈ l.names ↔ (l.get? name).isSome := by
  unfold names get?
  induction l.entries with
  | nil => simp
  | cons head rest ih =>
      obtain ⟨m, a⟩ := head
      by_cases same : name = m <;> simp [lookup_entry, same, ih]

/-! ## Entering distinct names -/

/-- A name that is new is entered beside the others. -/
theorem alterEntries_perm {name : String} {entries : List (String × α)}
    (fresh : ∀ e ∈ entries, e.1 ≠ name) (f : Option α → α) :
    (alterEntries name f entries).Perm ((name, f none) :: entries) := by
  induction entries with
  | nil => exact .refl _
  | cons head rest ih =>
      obtain ⟨n, a⟩ := head
      obtain ⟨other, fresh⟩ := List.forall_mem_cons.1 fresh
      simp only [alterEntries]
      split
      · exact .refl _
      · rw [if_neg (Ne.symm other)]
        exact ((ih fresh).cons (n, a)).trans (.swap _ _ _)

theorem foldl_insert_perm {pairs : List (String × α)} (l : Ledger α)
    (distinct : (l.entries ++ pairs).Pairwise (fun a b => a.1 ≠ b.1)) :
    (pairs.foldl (fun l p => l.insert p.1 p.2) l).entries.Perm (l.entries ++ pairs) := by
  induction pairs generalizing l with
  | nil => simp
  | cons p pairs ih =>
      have fresh : ∀ e ∈ l.entries, e.1 ≠ p.1 := fun e among =>
        (List.pairwise_append.1 distinct).2.2 e among p List.mem_cons_self
      have entered : (l.insert p.1 p.2).entries.Perm (l.entries ++ [p]) :=
        (alterEntries_perm fresh _).trans (List.perm_append_singleton p l.entries).symm
      have both : ((l.insert p.1 p.2).entries ++ pairs).Perm (l.entries ++ p :: pairs) := by
        have joined := entered.append_right pairs
        rwa [List.append_assoc, List.singleton_append] at joined
      rw [List.foldl_cons]
      exact (ih _ (distinct.perm both.symm fun ne => Ne.symm ne)).trans both

theorem names_ne_of_lt {a b : String × α} (lt : a.1 < b.1) : a.1 ≠ b.1 := fun same =>
  String.lt_irrefl b.1 (same ▸ lt)

theorem nodup_names (l : Ledger α) : l.names.Nodup :=
  List.pairwise_map.2 (l.increasing.imp names_ne_of_lt)

/-- There is one increasing order. -/
theorem eq_of_perm {entries entries' : List (String × α)}
    (increasing : entries.Pairwise (fun a b => a.1 < b.1))
    (increasing' : entries'.Pairwise (fun a b => a.1 < b.1)) (order : entries.Perm entries') :
    entries = entries' := by
  refine order.eq_of_pairwise ?_ increasing increasing'
  intro a b _ _ before after
  exact absurd (String.lt_trans before after) (String.lt_irrefl a.1)

theorem entries_ofList_perm {pairs : List (String × α)} (distinct : (pairs.map (·.1)).Nodup) :
    (ofList pairs).entries.Perm pairs :=
  foldl_insert_perm ∅ (List.pairwise_map.1 distinct)

/-- Pairs under distinct names become the entries, whatever order they came in. -/
theorem entries_ofList_of_perm {pairs entries : List (String × α)}
    (increasing : entries.Pairwise (fun a b => a.1 < b.1)) (order : pairs.Perm entries) :
    (ofList pairs).entries = entries := by
  have distinct : (pairs.map (·.1)).Nodup :=
    (order.map _).nodup_iff.2 (nodup_names ⟨entries, increasing⟩)
  exact eq_of_perm (ofList pairs).increasing increasing
    ((entries_ofList_perm distinct).trans order)

/-! ## Entering names again -/

theorem eq_or_mem_of_mem_insert {l : Ledger α} {name : String} {a : α} {e : String × α}
    (listed : e ∈ (l.insert name a).entries) : e = (name, a) ∨ e ∈ l.entries := by
  have found : (l.insert name a).get? e.1 = some e.2 := get?_of_mem listed
  rw [insert, get?_alter] at found
  split at found
  · next same => exact .inl (Prod.ext same (Option.some.inj found).symm)
  · exact .inr (mem_entries_of_get? found)

/-- Whatever names are entered again, nothing stands in a ledger that was not entered. -/
theorem mem_of_mem_foldl_insert {pairs : List (String × α)} {e : String × α} {l : Ledger α}
    (listed : e ∈ (pairs.foldl (fun l p => l.insert p.1 p.2) l).entries) :
    e ∈ l.entries ∨ e ∈ pairs := by
  induction pairs generalizing l with
  | nil => exact .inl listed
  | cons p pairs ih =>
      rcases ih listed with earlier | later
      · rcases eq_or_mem_of_mem_insert earlier with rfl | earlier
        · exact .inr List.mem_cons_self
        · exact .inl earlier
      · exact .inr (List.mem_cons_of_mem _ later)

theorem mem_of_mem_ofList {pairs : List (String × α)} {e : String × α}
    (listed : e ∈ (ofList pairs).entries) : e ∈ pairs :=
  (mem_of_mem_foldl_insert listed).resolve_left List.not_mem_nil

/-! ## Ledgers as sets of names -/

/-- Two ledgers with the same amounts under the same names are equal. -/
theorem eq_of_get? {l l' : Ledger α} (same : ∀ name, l.get? name = l'.get? name) : l = l' := by
  have member : ∀ e, e ∈ l.entries ↔ e ∈ l'.entries := by
    intro e
    have first : e ∈ l.entries ↔ l.get? e.1 = some e.2 := ⟨get?_of_mem, mem_entries_of_get?⟩
    have second : e ∈ l'.entries ↔ l'.get? e.1 = some e.2 := ⟨get?_of_mem, mem_entries_of_get?⟩
    rw [first, second, same]
  have order : l.entries.Perm l'.entries :=
    (List.perm_ext_iff_of_nodup l.nodup_names.of_map l'.nodup_names.of_map).2 member
  exact eq_of_entries (eq_of_perm l.increasing l'.increasing order)

/-- A ledger has as many entries as there are different names in a list of its names. -/
theorem size_eq_card {l : Ledger α} {names : List String}
    (same : ∀ name, name ∈ l.names ↔ name ∈ names) : l.size = names.toFinset.card := by
  have listed : l.names.toFinset = names.toFinset := by
    ext name
    rw [List.mem_toFinset, List.mem_toFinset]
    exact same name
  have length : l.size = l.names.length := (List.length_map ..).symm
  rw [length, ← List.toFinset_card_of_nodup l.nodup_names, listed]

/-! ## Many additions -/

variable {β : Type} [Zero α] [Add α]

/-- After amounts are added in order, what stands under a name is what stood there
and then the amounts under it, summed from the left. -/
theorem get?_foldl_add (key : β → String) (amount : β → α) (items : List β) (l : Ledger α)
    (name : String) :
    (items.foldl (fun l b => l.add (key b) (amount b)) l).get? name =
      if ∃ b ∈ items, key b = name then
        some (((items.filter (key · = name)).map amount).foldl (· + ·) ((l.get? name).getD 0))
      else l.get? name := by
  induction items generalizing l with
  | nil => simp
  | cons b rest ih =>
      rw [List.foldl_cons, ih]
      by_cases here : key b = name
      · subst here
        by_cases later : ∃ c ∈ rest, key c = key b
        · simp [later, get?_add]
        · have none : rest.filter (key · = key b) = [] := by
            simpa [List.filter_eq_nil_iff] using later
          simp [later, get?_add, none]
      · have unchanged : (l.add (key b) (amount b)).get? name = l.get? name := by
          rw [get?_add, if_neg (Ne.symm here)]
        simp [here, unchanged]

end QueryCost.Ledger
