/-
# QueryCost.Proofs.Rereading -- what was read is written and read again

A violation or a report is read from many texts: from an object with its members in any
order or from an array, with `null` in place of figures or without them, with integers in
place of doubles, with names that are given again.  All that a reader keeps of this is the
value, and the value is written with the members that it has, in any order.

The writer has no numeral for a double that is not finite.  But no numeral comes to such a
double, so every amount that was read is finite (`Violation.isFinite_of_ofWritten?`,
`Report.isFinite_of_ofWritten?`), and what is written is read as the same value as soon as
its finite doubles read back.
-/
import QueryCost.Analysis.Report
import QueryCost.Proofs.Analysis.RoundTrip
import QueryCost.Proofs.Config.RoundTrip
import QueryCost.Proofs.Decimal.Range
import QueryCost.Proofs.Json.Members
import QueryCost.Proofs.Json.Numbers
import QueryCost.Violation

namespace QueryCost

open QueryCost.Analysis
open QueryCost.Json (ReadsBack Written tree)
open QueryCost.Record (present)

set_option autoImplicit false

/-! ## Leaves that were read -/

namespace Json.Written

theorem isFinite_of_amount? {w : Written} {x : Float} (read : w.amount? = some x) :
    x.isFinite = true := by
  cases w with
  | number n => exact Decimal.Numeral.isFinite_of_stepwise? read
  | _ => cases read

theorem le_maxSize_of_size? {w : Written} {n : Nat} (read : w.size? = some n) : n ≤ maxSize := by
  cases w with
  | number numeral =>
      rw [size?, sizeOf?] at read
      split at read
      · next small =>
        rw [← Option.some.inj read]
        exact of_decide_eq_true (Bool.and_eq_true_iff.1 small).2
      · cases read
  | _ => cases read

/-- Whatever stands in a ledger was read as an amount. -/
theorem isFinite_of_ledger? {w : Written} {l : Ledger Float} (read : w.ledger? = some l) :
    ∀ e ∈ l.entries, e.2.isFinite = true := by
  cases w with
  | object members =>
      simp only [ledger?, Option.bind_eq_bind, Option.bind_eq_some_iff, Option.pure_def,
        Option.some.injEq] at read
      obtain ⟨named, -, amounts, each, rfl⟩ := read
      intro e listed
      obtain ⟨m, -, amount⟩ := exists_of_mem_mapM each (Ledger.mem_of_mem_ofList listed)
      obtain ⟨x, found, rfl⟩ := Option.map_eq_some_iff.1 amount
      exact isFinite_of_amount? found
  | _ => cases read

/-- A field that may be missing was read of a value if there is one. -/
theorem exists_of_optional? {α : Type} {read : Written → Option α} {w : Option Written}
    {value : Option α} (given : optional? read w = some value) {a : α} (has : a ∈ value) :
    ∃ v, read v = some a := by
  cases has
  cases w with
  | none => cases given
  | some v =>
      rw [optional?] at given
      split at given
      · cases given
      · obtain ⟨b, found, same⟩ := Option.map_eq_some_iff.1 given
        exact ⟨v, by rw [found, Option.some.inj same]⟩

theorem optional?_eq_ceiling? {α : Type} (read : Written → Option α) (w : Option Written) :
    optional? read w = Config.jsonFormat.ceiling? read w := by
  cases w with
  | none => rfl
  | some v => cases v <;> rfl

end Json.Written

/-! ## Violations -/

namespace Violation

/-- What figures may be written as. -/
inductive Figures.Writes (f : Figures) : Json → Prop
  | object {members : List (String × Json)}
      (order : members.Perm
        (present [("actual", f.actual.map .double), ("max", f.max.map .double)])) :
      Figures.Writes f (.object members)

/-- What a violation may be written as. -/
inductive Writes (v : Violation) : Json → Prop
  | object {figures : Option Json} {members : List (String × Json)}
      (hasFigures : Option.Rel Figures.Writes v.figures figures)
      (order : members.Perm (present [("code", some (.string v.code.text)),
        ("message", some (.string v.message)), ("extensions", figures)])) :
      Writes v (.object members)

/-! ### What the writer writes -/

theorem Figures.writes_toJson (f : Figures) : f.Writes f.toJson := by
  have members : givenAmount "actual" f.actual ++ givenAmount "max" f.max =
      present [("actual", f.actual.map .double), ("max", f.max.map .double)] := by
    obtain ⟨actual, max⟩ := f
    cases actual <;> cases max <;> rfl
  exact .object (.of_eq members)

theorem writes_toJson (v : Violation) : v.Writes v.toJson := by
  obtain ⟨code, message, figures⟩ := v
  cases figures with
  | none => exact .object .none (.refl _)
  | some f => exact .object (.some f.writes_toJson) ((List.Perm.swap _ _ _).cons _)

/-! ### Figures -/

/-- However figures are written, their amounts were read as amounts. -/
theorem Figures.exists_of_ofWritten? {w : Written} {f : Figures} (read : ofWritten? w = some f) :
    ∃ actual max, Written.optional? (·.amount?) actual = some f.actual ∧
      Written.optional? (·.amount?) max = some f.max := by
  unfold ofWritten? at read
  split at read
  · split at read
    · simp only [Option.bind_eq_bind, Option.bind_eq_some_iff, Option.pure_def,
        Option.some.injEq] at read
      obtain ⟨_, actual, _, max, rfl⟩ := read
      exact ⟨_, _, actual, max⟩
    · cases read
  · simp only [Option.bind_eq_bind, Option.bind_eq_some_iff, Option.pure_def,
      Option.some.injEq] at read
    obtain ⟨_, actual, _, max, rfl⟩ := read
    exact ⟨_, _, actual, max⟩
  · cases read

theorem Figures.isFinite_of_ofWritten? {w : Written} {f : Figures} (read : ofWritten? w = some f)
    {j : Json} (writes : f.Writes j) : ∀ x ∈ j.doubles, x.isFinite = true := by
  obtain ⟨actual, max, readActual, readMax⟩ := exists_of_ofWritten? read
  have amount {value : Option Float} {given : Option Written}
      (read : Written.optional? (·.amount?) given = some value) :
      ∀ j ∈ value.map Json.double, ∀ x ∈ j.doubles, x.isFinite = true := by
    intro j among x inside
    obtain ⟨y, has, rfl⟩ := Option.map_eq_some_iff.1 among
    obtain ⟨v, found⟩ := Written.exists_of_optional? read has
    rw [List.mem_singleton.1 inside]
    exact Written.isFinite_of_amount? found
  cases writes with
  | object order =>
      rw [Json.forall_mem_doubles_of_perm order, Json.forall_mem_doubles_present]
      exact List.forall_mem_cons.2 ⟨amount readActual,
        List.forall_mem_cons.2 ⟨amount readMax, List.forall_mem_nil _⟩⟩

theorem Figures.ofWritten?_tree_iff {f : Figures} {j : Json} (writes : f.Writes j) :
    ofWritten? (tree j) = some f ↔ Config.AllReadBack j := by
  have amount (x : Option Float) : Written.optional? (·.amount?) ((x.map Json.double).map tree) =
      some x ↔ ∀ j ∈ x.map Json.double, Config.AllReadBack j := by
    have given : Option.Rel Config.WritesAmount x (x.map .double) := by
      cases x with
      | none => exact .none
      | some x => exact .some rfl
    rw [Written.optional?_eq_ceiling?]
    exact Config.ceiling?_iff given _ rfl fun _ _ _ => Config.amount?_iff
  cases writes with
  | @object members order =>
      have isObject : tree (.object members) = .object (Json.membersTree members) := by
        rw [tree]
      have found : (tree (.object members)).record? [["actual"], ["max"]] =
          some [(f.actual.map Json.double).map tree, (f.max.map Json.double).map tree] := by
        rw [Written.record?_tree_of_perm order]
        exact Config.record?_tree_present [["actual"], ["max"]] [("actual", f.actual.map .double),
          ("max", f.max.map .double)] (by simp [Record.ofMembers?])
      rw [Config.AllReadBack, Json.forall_mem_doubles_of_perm order]
      rw [← Config.AllReadBack, Config.allReadBack_present]
      rw [isObject] at found ⊢
      simp only [ofWritten?, found, Option.bind_eq_bind, Option.bind_eq_some_iff, Option.pure_def,
        Option.some.injEq]
      constructor
      · rintro ⟨_, actual, _, max, rfl⟩
        exact List.forall_mem_cons.2 ⟨(amount _).1 actual,
          List.forall_mem_cons.2 ⟨(amount _).1 max, List.forall_mem_nil _⟩⟩
      · intro each
        obtain ⟨actual, each⟩ := List.forall_mem_cons.1 each
        obtain ⟨max, -⟩ := List.forall_mem_cons.1 each
        exact ⟨_, (amount _).2 actual, _, (amount _).2 max, rfl⟩

/-! ### Violations with their figures -/

theorem ofText?_text (c : Code) : Code.ofText? c.text = some c := by
  cases c <;> rfl

theorem exists_of_ofWritten? {w : Written} {v : Violation} (read : ofWritten? w = some v) :
    ∃ figures, Written.optional? Figures.ofWritten? figures = some v.figures := by
  unfold ofWritten? at read
  split at read
  · simp only [Option.bind_eq_bind, Option.bind_eq_some_iff, Option.pure_def,
      Option.some.injEq] at read
    obtain ⟨_, _, _, _, _, figures, rfl⟩ := read
    exact ⟨_, figures⟩
  · cases read

theorem isFinite_of_ofWritten? {w : Written} {v : Violation} (read : ofWritten? w = some v)
    {j : Json} (writes : v.Writes j) : ∀ x ∈ j.doubles, x.isFinite = true := by
  obtain ⟨given, readFigures⟩ := exists_of_ofWritten? read
  cases writes with
  | @object figures members hasFigures order =>
      have finite : ∀ j ∈ figures, ∀ x ∈ j.doubles, x.isFinite = true := by
        intro j among
        cases among
        generalize has : v.figures = value at hasFigures
        cases hasFigures with
        | some writes =>
            obtain ⟨w, found⟩ := Written.exists_of_optional? readFigures has
            exact Figures.isFinite_of_ofWritten? found writes
      rw [Json.forall_mem_doubles_of_perm order, Json.forall_mem_doubles_present]
      simpa [Json.doubles] using finite

theorem ofWritten?_tree_iff {v : Violation} {j : Json} (writes : v.Writes j) :
    ofWritten? (tree j) = some v ↔ Config.AllReadBack j := by
  cases writes with
  | @object figures members hasFigures order =>
      have found : (tree (.object members)).record? [["code"], ["message"], ["extensions"]] =
          some [some (tree (.string v.code.text)), some (tree (.string v.message)),
            figures.map tree] := by
        rw [Written.record?_tree_of_perm order]
        exact Config.record?_tree_present [["code"], ["message"], ["extensions"]]
          [("code", some (.string v.code.text)), ("message", some (.string v.message)),
            ("extensions", figures)] (by simp [Record.ofMembers?])
      have readFigures : Written.optional? Figures.ofWritten? (figures.map tree) = some v.figures ↔
          ∀ j ∈ figures, Config.AllReadBack j := by
        rw [Written.optional?_eq_ceiling?]
        exact Config.ceiling?_iff hasFigures _ rfl fun _ _ _ => Figures.ofWritten?_tree_iff
      have code : (tree (.string v.code.text)).choice?.bind Code.ofText? = some v.code := by
        rw [tree]
        exact ofText?_text v.code
      have message : (tree (.string v.message)).text? = some v.message := by
        rw [tree]
        rfl
      -- neither a code nor a message has doubles in it
      have doubles : Config.AllReadBack (.object members) ↔
          ∀ j ∈ figures, Config.AllReadBack j := by
        rw [Config.AllReadBack, Json.forall_mem_doubles_of_perm order,
          Json.forall_mem_doubles_present]
        simp [Json.doubles, Config.AllReadBack]
      rw [doubles, ← readFigures]
      simp only [ofWritten?, found, code, message, Option.bind_eq_bind, Option.bind_some,
        Option.bind_eq_some_iff, Option.pure_def, Option.some.injEq]
      constructor
      · rintro ⟨_, read, same⟩
        rw [← same]
        exact read
      · exact fun read => ⟨_, read, rfl⟩

theorem ofText?_written {j : Json} {text : String}
    (written : text ∈ [Json.compact j, Json.pretty j]) : ofText? text = ofWritten? (tree j) := by
  rw [ofText?, Written.ofText?_written written, Option.bind_some]

end Violation

/-! ## Reports -/

namespace Analysis.Report

theorem exists_of_ofWritten? {w : Written} {r : Report Float} (read : ofWritten? w = some r) :
    ∃ cost depth fields : Written, cost.amount? = some r.cost ∧ depth.size? = some r.depth ∧
      fields.ledger? = some r.fields := by
  unfold ofWritten? at read
  split at read
  · simp only [Option.bind_eq_bind, Option.bind_eq_some_iff, Option.pure_def,
      Option.some.injEq] at read
    obtain ⟨_, cost, _, depth, _, fields, rfl⟩ := read
    exact ⟨_, _, _, cost, depth, fields⟩
  · cases read

theorem isFinite_of_ofWritten? {w : Written} {r : Report Float} (read : ofWritten? w = some r)
    {j : Json} (writes : r.Writes j) : ∀ x ∈ j.doubles, x.isFinite = true := by
  obtain ⟨_, _, _, cost, -, fields⟩ := exists_of_ofWritten? read
  rw [writes.forall_mem_doubles]
  exact ⟨Written.isFinite_of_amount? cost, Written.isFinite_of_ledger? fields⟩

theorem fits_of_ofWritten? {w : Written} {r : Report Float} (read : ofWritten? w = some r) :
    r.depth ≤ Json.maxSize := by
  obtain ⟨_, _, _, -, depth, -⟩ := exists_of_ofWritten? read
  exact Written.le_maxSize_of_size? depth

end Analysis.Report

/-! ## Reading again -/

/-- **What was read is written and read again.**  Of a violation and of a report that were read from
any text, every amount is finite; and from all that the value may be written as, which is what the
writer writes with its members in any order, the same value is read again exactly if the doubles in
it read back. -/
theorem read_values_are_read_again :
    (∀ text v, Violation.ofText? text = some v →
      v.Writes v.toJson ∧ ∀ j, v.Writes j → (∀ x ∈ j.doubles, x.isFinite = true) ∧
        ∀ again ∈ [Json.compact j, Json.pretty j],
          (Violation.ofText? again = some v ↔ ∀ x ∈ j.doubles, ReadsBack x)) ∧
    ∀ text r, Report.ofText? text = some r →
      r.Writes r.toJson ∧ ∀ j, r.Writes j → (∀ x ∈ j.doubles, x.isFinite = true) ∧
        ∀ again ∈ [Json.compact j, Json.pretty j],
          (Report.ofText? again = some r ↔ ∀ x ∈ j.doubles, ReadsBack x) := by
  constructor
  · intro text v accepted
    obtain ⟨w, -, read⟩ := Option.bind_eq_some_iff.1 accepted
    refine ⟨v.writes_toJson, fun j writes => ⟨Violation.isFinite_of_ofWritten? read writes, ?_⟩⟩
    intro again written
    rw [Violation.ofText?_written written]
    exact Violation.ofWritten?_tree_iff writes
  · intro text r accepted
    obtain ⟨w, -, read⟩ := Option.bind_eq_some_iff.1 accepted
    refine ⟨r.writes_toJson, fun j writes => ⟨Report.isFinite_of_ofWritten? read writes, ?_⟩⟩
    intro again written
    rw [Report.ofText?_written written]
    exact writes.ofWritten?_iff (Report.fits_of_ofWritten? read)

/-- A violation in an array, with its code in an object and one of its figures missing. -/
def positionalViolation : String :=
  "[\x7b\"COST_EXCEEDED\":null\x7d,\"too much\",[1e2,null]]"

/-- A report in an array, with integers for amounts and a name that is given again. -/
def positionalReport : String :=
  "[2,1,\x7b\"Query.b\":7,\"Query.a\":-0,\"Query.b\":2.50\x7d]"

theorem read_values_are_read_again_positional :
    (∃ v, Violation.ofText? positionalViolation = some v ∧
      Json.compact v.toJson = "\x7b\"code\":\"COST_EXCEEDED\"," ++
        "\"extensions\":\x7b\"actual\":100.0\x7d,\"message\":\"too much\"\x7d" ∧
      Violation.ofText? (Json.compact v.toJson) = some v) ∧
    ∃ r, Report.ofText? positionalReport = some r ∧
      Json.compact r.toJson = "\x7b\"cost\":2.0,\"depth\":1," ++
        "\"fields\":\x7b\"Query.a\":-0.0,\"Query.b\":2.5\x7d\x7d" ∧
      Report.ofText? (Json.pretty r.toJson) = some r := by
  have violation : (Violation.ofText? positionalViolation).any (fun v =>
      Json.compact v.toJson = "\x7b\"code\":\"COST_EXCEEDED\"," ++
        "\"extensions\":\x7b\"actual\":100.0\x7d,\"message\":\"too much\"\x7d" ∧
      ∀ x ∈ v.toJson.doubles, ReadsBack x) = true := by
    decide +kernel
  have report : (Report.ofText? positionalReport).any (fun r =>
      Json.compact r.toJson = "\x7b\"cost\":2.0,\"depth\":1," ++
        "\"fields\":\x7b\"Query.a\":-0.0,\"Query.b\":2.5\x7d\x7d" ∧
      ∀ x ∈ r.toJson.doubles, ReadsBack x) = true := by
    decide +kernel
  obtain ⟨violations, reports⟩ := read_values_are_read_again
  constructor
  · obtain ⟨v, read, holds⟩ := (Option.any_eq_true _ _).1 violation
    obtain ⟨text, back⟩ := of_decide_eq_true holds
    obtain ⟨writes, again⟩ := violations _ v read
    exact ⟨v, read, text, ((again _ writes).2 _ List.mem_cons_self).2 back⟩
  · obtain ⟨r, read, holds⟩ := (Option.any_eq_true _ _).1 report
    obtain ⟨text, back⟩ := of_decide_eq_true holds
    obtain ⟨writes, again⟩ := reports _ r read
    exact ⟨r, read, text,
      ((again _ writes).2 _ (List.mem_cons_of_mem _ List.mem_cons_self)).2 back⟩

end QueryCost
