/-
# QueryCost.Proofs.Analysis.Entries -- a report, entry by entry

A document is refused at its depth by the number of selection sets in each other and by
nothing else (`analyze_eq_depth_iff`).  What it is charged stands in the entries of its
report, one for each name: the charges of the sites under that name, summed up from the
left (`get?_fields_eq_total?`).  So two reports are compared by the lists of charges under
each name, in this order where doubles are summed up.

A charge is a base cost times two multipliers, of which only the base cost depends on the
name.  Setting the cost of one name sets the base cost of the sites under it and leaves
every other charge as it was (`charge_setFieldCost`).
-/
import QueryCost.Proofs.Analysis.Sites

namespace QueryCost.Analysis

open QueryCost.GraphQL

set_option autoImplicit false

variable {K : Type} [One K] [Mul K] [BEq K]

namespace Site

/-! ## Charges under a name -/

/-- The charges of the sites under a name, in the order of the text. -/
def chargesUnder (tariff : Tariff K) (d : Document) (name : String) : List K :=
  ((ofDocument d).filter (·.qualifiedName = name)).map (·.charge tariff)

theorem chargesUnder_ne_nil_iff (tariff : Tariff K) (d : Document) (name : String) :
    chargesUnder tariff d name ≠ [] ↔ ∃ s ∈ ofDocument d, s.qualifiedName = name := by
  rw [chargesUnder, ne_eq, List.map_eq_nil_iff, List.filter_eq_nil_iff]
  simp

/-! ## Base costs -/

/-- The charge of a site if its base cost is this one. -/
def chargeFrom (base : K) (tariff : Tariff K) (s : Site) : K :=
  base * tariff.depthMultiplier s.depth * tariff.listMultiplier s.field.isSized

theorem charge_setFieldCost (rules : Rules K) (name : String) (cost : K) (s : Site) :
    s.charge (rules.setFieldCost name cost).tariff =
      if s.qualifiedName = name then s.chargeFrom cost rules.tariff
      else s.charge rules.tariff := by
  have base : (rules.setFieldCost name cost).tariff.fieldCosts.get? s.qualifiedName =
      if s.qualifiedName = name then some cost
      else rules.tariff.fieldCosts.get? s.qualifiedName :=
    Ledger.get?_alter _ _ _ _
  rw [charge, base]
  split
  · rfl
  · rfl

end Site

/-! ## Refusals at the depth -/

variable [Zero K] [Add K]

theorem analyze_eq_depth_iff [LT K] [DecidableLT K] (rules : Rules K) (d : Document)
    (reached limit : Nat) :
    analyze rules d = .error (.depth reached limit) ↔
      rules.ceilings.depth = some limit ∧ limit < documentHeight d ∧ reached = limit + 1 := by
  rw [analyze_eq_heldTo]
  exact heldTo_eq_depth_iff _ _ reached limit

/-! ## Entries -/

namespace Site

/-- What stands under a name under which these amounts were charged. -/
def total? : List K → Option K
  | [] => none
  | first :: more => some ((first :: more).foldl (· + ·) 0)

omit [One K] [Mul K] [BEq K] in
theorem isSome_total?_iff (amounts : List K) : (total? amounts).isSome ↔ amounts ≠ [] := by
  cases amounts with
  | nil => exact iff_of_false nofun (fun other => other rfl)
  | cons first more => exact iff_of_true rfl (List.cons_ne_nil _ _)

/-- An entry is the sum of the charges under its name. -/
theorem get?_fields_eq_total? (tariff : Tariff K) (d : Document) (name : String) :
    (Report.ofDocument tariff d).fields.get? name = total? (chargesUnder tariff d name) := by
  have occurs := chargesUnder_ne_nil_iff tariff d name
  rw [get?_fields_ofDocument, ← chargesUnder]
  cases charges : chargesUnder tariff d name with
  | nil =>
      rw [charges] at occurs
      exact if_neg fun some => occurs.2 some rfl
  | cons first more =>
      rw [charges] at occurs
      exact if_pos (occurs.1 (List.cons_ne_nil _ _))

/-- There is an entry for each name of a site, and for no other. -/
theorem mem_names_fields_iff (tariff : Tariff K) (d : Document) (name : String) :
    name ∈ (Report.ofDocument tariff d).fields.names ↔
      ∃ s ∈ ofDocument d, s.qualifiedName = name := by
  rw [Ledger.mem_names_iff, get?_fields_eq_total?, isSome_total?_iff, chargesUnder_ne_nil_iff]

end Site

end QueryCost.Analysis
