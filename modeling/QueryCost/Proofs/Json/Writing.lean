/-
# QueryCost.Proofs.Json.Writing -- what values are written as

A value is written as the tree of its text (`Writes`): integers of 64 bits by their
digits, and the members of an object, whose names are distinct, in any order.  What is
written denotes the value again (`Writes.denote?`).

Strings may be escaped in any way that the reader knows, and the writer's own escapes are
one of them (`stringBody_escape`).
-/
import Mathlib.Data.List.Perm.Basic
import QueryCost.Json.Writer
import QueryCost.Proofs.Json.Reading
import QueryCost.Proofs.Ledger

namespace QueryCost.Json

open QueryCost.Decimal

set_option autoImplicit false

/-! ## Written values -/

mutual

/-- What a value may be written as. -/
inductive Writes : Json → Written → Prop
  | null : Writes .null .null
  | boolean (b : Bool) : Writes (.boolean b) (.boolean b)
  | integer {n : Int} (low : -(UInt64.size / 2 : Nat) ≤ n) (high : n < UInt64.size) :
      Writes (.integer n) (.number (.ofInt n))
  | string (s : String) : Writes (.string s) (.string (some s))
  | array {items : List Json} {ws : List Written} (each : WritesItems items ws) :
      Writes (.array items) (.array ws)
  | object {members : List (String × Json)} {inOrder ws : List (Option String × Written)}
      (increasing : members.Pairwise (fun a b => a.1 < b.1))
      (each : WritesMembers members inOrder) (order : ws.Perm inOrder) :
      Writes (.object members) (.object ws)

inductive WritesItems : List Json → List Written → Prop
  | nil : WritesItems [] []
  | cons {item : Json} {items : List Json} {w : Written} {ws : List Written}
      (first : Writes item w) (more : WritesItems items ws) :
      WritesItems (item :: items) (w :: ws)

inductive WritesMembers : List (String × Json) → List (Option String × Written) → Prop
  | nil : WritesMembers [] []
  | cons {name : String} {value : Json} {members : List (String × Json)} {w : Written}
      {ws : List (Option String × Written)} (first : Writes value w)
      (more : WritesMembers members ws) :
      WritesMembers ((name, value) :: members) ((some name, w) :: ws)

end

/-! ## Reading what is written -/

theorem numberOf?_ofInt {n : Int} (low : -(UInt64.size / 2 : Nat) ≤ n)
    (high : n < UInt64.size) :
    numberOf? (.ofInt n) = some (.integer n) := by
  have isInteger : (Numeral.ofInt n).isInteger = true := rfl
  have negative : (Numeral.ofInt n).negative = decide (n < 0) := rfl
  have size : UInt64.size = 2 ^ 64 := rfl
  have largest : maxSize = 2 ^ 64 - 1 := rfl
  unfold numberOf?
  rw [isInteger, negative, Numeral.natural_ofInt]
  by_cases below : n < 0
  · have notNatural : (true && !decide (n < 0) && decide (n.natAbs ≤ maxSize)) = false := by
      simp [below]
    have within : 0 < n.natAbs ∧ n.natAbs ≤ UInt64.size / 2 := by omega
    have same : -(n.natAbs : Int) = n := by omega
    rw [notNatural, if_neg Bool.false_ne_true, if_pos (by simp [below, within]), same]
  · have within : n.natAbs ≤ maxSize := by omega
    have same : (n.natAbs : Int) = n := by omega
    rw [if_pos (by simp [below, within]), same]

namespace Written

/-- What one member denotes. -/
def Stands (m : Option String × Written) (value : String × Json) : Prop :=
  m.1 = some value.1 ∧ m.2.denote? = some value.2

theorem denoteMembers?_of_forall₂ {ws : List (Option String × Written)}
    {members : List (String × Json)} (each : List.Forall₂ Stands ws members) :
    denoteMembers? ws = some members := by
  induction each with
  | nil => rfl
  | @cons m value ws members stands _ ih =>
      obtain ⟨name, w⟩ := m
      obtain ⟨rfl, denotes⟩ := stands
      have denotes : w.denote? = some value.2 := denotes
      rw [denoteMembers?, ih, denotes]
      rfl

end Written

mutual

/-- What is written denotes the value that it was written for. -/
theorem Writes.denote? : ∀ {j : Json} {w : Written}, Writes j w → w.denote? = some j
  | _, _, .null => rfl
  | _, _, .boolean _ => rfl
  | _, _, .integer low high => numberOf?_ofInt low high
  | _, _, .string _ => rfl
  | _, _, .array each => by rw [Written.denote?, each.denoteItems?, Option.map_some]
  | _, _, .object increasing each order => by
      obtain ⟨members, stand, perm⟩ := List.perm_comp_forall₂ order each.stand
      rw [Written.denote?, Written.denoteMembers?_of_forall₂ stand, Option.map_some,
        Ledger.entries_ofList_of_perm increasing perm]

theorem WritesItems.denoteItems? : ∀ {items : List Json} {ws : List Written},
    WritesItems items ws → Written.denoteItems? ws = some items
  | _, _, .nil => rfl
  | _, _, .cons first more => by
      rw [Written.denoteItems?, first.denote?, more.denoteItems?]
      rfl

theorem WritesMembers.stand : ∀ {members : List (String × Json)}
    {ws : List (Option String × Written)}, WritesMembers members ws →
    List.Forall₂ Written.Stands ws members
  | _, _, .nil => .nil
  | _, _, .cons first more => .cons ⟨rfl, first.denote?⟩ more.stand

end

/-! ## The writer's strings and integers -/

theorem codeUnit?_control {n : Nat} (small : n < 32) :
    Text.codeUnit? ['0', '0', hexCharacter (n / 16), hexCharacter (n % 16)] = some n := by
  have all : ∀ n < 32,
      Text.codeUnit? ['0', '0', hexCharacter (n / 16), hexCharacter (n % 16)] = some n := by
    decide
  exact all n small

theorem stringBody_escape_append (c : Char) {text body : List Char}
    (more : StringBody text body) : StringBody (c :: text) (escape c ++ body) := by
  by_cases control : c < ' '
  · have small : c.toNat < 32 := control
    have unit := codeUnit?_control small
    have notLead : Text.isLeadSurrogate c.toNat = false := by
      simp only [Text.isLeadSurrogate, Bool.and_eq_false_iff, decide_eq_false_iff_not]
      omega
    have notTrail : Text.isTrailSurrogate c.toNat = false := by
      simp only [Text.isTrailSurrogate, Bool.and_eq_false_iff, decide_eq_false_iff_not]
      omega
    have long := StringBody.unit unit notLead notTrail more
    rw [Char.ofNat_toNat] at long
    unfold escape
    split_ifs with quote backslash backspace tab lineFeed formFeed carriageReturn
    · exact .short (by rw [quote]; rfl) more
    · exact .short (by rw [backslash]; rfl) more
    · exact .short (by rw [backspace]; rfl) more
    · exact .short (by rw [tab]; rfl) more
    · exact .short (by rw [lineFeed]; rfl) more
    · exact .short (by rw [formFeed]; rfl) more
    · exact .short (by rw [carriageReturn]; rfl) more
    · exact long
  · by_cases quote : c = '"'
    · subst quote
      exact .short rfl more
    · by_cases backslash : c = '\\'
      · subst backslash
        exact .short rfl more
      · have itself : escape c = [c] := by
          unfold escape
          have other : ∀ {d : Char}, d < ' ' → c ≠ d := fun below same => control (same ▸ below)
          rw [if_neg quote, if_neg backslash, if_neg (other (by decide)),
            if_neg (other (by decide)), if_neg (other (by decide)), if_neg (other (by decide)),
            if_neg (other (by decide)), if_neg control]
        rw [itself]
        exact .plain quote backslash control more

/-- The writer's escapes stand for the characters of a string. -/
theorem stringBody_escape (text : List Char) : StringBody text (text.flatMap escape) := by
  induction text with
  | nil => exact .empty
  | cons c text ih =>
      rw [List.flatMap_cons]
      exact stringBody_escape_append c ih

theorem text_quote (s : String) : TokenText [.string (some s)] (quote s).toList := by
  have spelled := Token.Spelling.string (stringBody_escape s.toList)
  rw [String.ofList_toList] at spelled
  have same : (quote s).toList = '"' :: (s.toList.flatMap escape ++ ['"']) := by
    simp [quote]
  rw [same]
  exact .single spelled

theorem text_integerText (n : Int) : TokenText [.number (.ofInt n)] (integerText n).toList := by
  have same : (integerText n).toList = (Numeral.ofInt n).text := by
    by_cases below : n < 0 <;>
      simp [integerText, Numeral.text, Numeral.ofInt, Text.decimal, below]
  rw [same]
  exact .single (.number (Numeral.strict_ofInt n))

end QueryCost.Json
