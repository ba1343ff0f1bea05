/-
# QueryCost.Ledger -- one amount per name, kept in the order of the names

A ledger holds at most one amount under each name.  Its entries stand in
strictly increasing order of their names, and that order is part of the type,
so two ledgers with the same amounts under the same names are equal: neither
the order in which amounts came in nor how often a name was written can be seen
afterwards.  Names are ordered by code points, which is also the order of their
UTF-8 bytes.
-/
namespace QueryCost

set_option autoImplicit false

/-- Amounts under names, in strictly increasing order of the names. -/
structure Ledger (α : Type) where
  entries : List (String × α)
  increasing : entries.Pairwise (fun a b => a.1 < b.1)

namespace Ledger

variable {α β : Type}

def empty : Ledger α := ⟨[], .nil⟩

instance : EmptyCollection (Ledger α) := ⟨empty⟩

instance : Inhabited (Ledger α) := ⟨empty⟩

instance [DecidableEq α] : DecidableEq (Ledger α) := fun a b =>
  decidable_of_iff (a.entries = b.entries)
    ⟨fun h => by cases a; cases b; cases h; rfl, fun h => h ▸ rfl⟩

/-- Ledgers are compared amount by amount. -/
instance [BEq α] : BEq (Ledger α) := ⟨fun a b => a.entries == b.entries⟩

/-! ## Entries under one name -/

/-- Change the amount under `name`, or enter one where the order puts it. -/
def alterEntries (name : String) (f : Option α → α) : List (String × α) → List (String × α)
  | [] => [(name, f none)]
  | (n, a) :: rest =>
      if name < n then (name, f none) :: (n, a) :: rest
      else if name = n then (n, f (some a)) :: rest
      else (n, a) :: alterEntries name f rest

theorem name_mem_alterEntries (name : String) (f : Option α → α) (entries : List (String × α))
    (e : String × α) (h : e ∈ alterEntries name f entries) :
    e.1 = name ∨ ∃ a, (e.1, a) ∈ entries := by
  induction entries with
  | nil => simp_all [alterEntries]
  | cons head rest ih =>
      obtain ⟨n, a⟩ := head
      simp only [alterEntries] at h
      split at h
      · simp only [List.mem_cons] at h
        rcases h with rfl | rfl | h
        · exact .inl rfl
        · exact .inr ⟨a, .head _⟩
        · exact .inr ⟨e.2, .tail _ h⟩
      · split at h
        · simp only [List.mem_cons] at h
          rcases h with rfl | h
          · exact .inr ⟨a, .head _⟩
          · exact .inr ⟨e.2, .tail _ h⟩
        · simp only [List.mem_cons] at h
          rcases h with rfl | h
          · exact .inr ⟨a, .head _⟩
          · rcases ih h with h | ⟨b, hb⟩
            · exact .inl h
            · exact .inr ⟨b, .tail _ hb⟩

theorem pairwise_alterEntries (name : String) (f : Option α → α) (entries : List (String × α))
    (h : entries.Pairwise (fun a b => a.1 < b.1)) :
    (alterEntries name f entries).Pairwise (fun a b => a.1 < b.1) := by
  induction entries with
  | nil => simp [alterEntries]
  | cons head rest ih =>
      obtain ⟨n, a⟩ := head
      rw [List.pairwise_cons] at h
      simp only [alterEntries]
      split
      · rename_i lt
        refine .cons (fun e he => ?_) (.cons h.1 h.2)
        rcases List.mem_cons.1 he with rfl | he
        · exact lt
        · exact String.lt_trans lt (h.1 e he)
      · split
        · exact .cons h.1 h.2
        · rename_i notLt notEq
          refine .cons (fun e he => ?_) (ih h.2)
          rcases name_mem_alterEntries name f rest e he with eq | ⟨b, hb⟩
          · rw [eq]
            exact Std.lt_of_le_of_ne (String.not_lt.1 notLt) (Ne.symm notEq)
          · exact h.1 (e.1, b) hb

/-! ## Operations -/

/-- Change the amount under `name`; `f` is given the old one, if there is one. -/
def alter (l : Ledger α) (name : String) (f : Option α → α) : Ledger α :=
  ⟨alterEntries name f l.entries, pairwise_alterEntries name f l.entries l.increasing⟩

/-- Set the amount under `name`, in place of an earlier one. -/
def insert (l : Ledger α) (name : String) (a : α) : Ledger α :=
  l.alter name fun _ => a

/-- Add `a` to the amount under `name`, which starts at zero. -/
def add [Zero α] [Add α] (l : Ledger α) (name : String) (a : α) : Ledger α :=
  l.alter name fun old => old.getD 0 + a

def get? (l : Ledger α) (name : String) : Option α :=
  l.entries.lookup name

def size (l : Ledger α) : Nat :=
  l.entries.length

def names (l : Ledger α) : List String :=
  l.entries.map (·.1)

def amounts (l : Ledger α) : List α :=
  l.entries.map (·.2)

/-- Enter the given pairs one after the other: of two under one name the later stays. -/
def ofList (pairs : List (String × α)) : Ledger α :=
  pairs.foldl (fun l p => l.insert p.1 p.2) ∅

end Ledger

end QueryCost
