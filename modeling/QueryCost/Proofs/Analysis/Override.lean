/-
# QueryCost.Proofs.Analysis.Override -- what setting the cost of one name changes

Two analyses of one document are compared, under rules and under the same rules with the
cost of one name set.  They have the same sites, and each site is charged alike unless it
is under that name (`charge_setFieldCost`).  So the lists of charges under all other names
are the same, in the same order, and their sums are the same doubles; under the name itself
every charge has the cost that was set as its base, whatever was set before.

The depth of a document has no cost in it.  The total has: a name that occurs can bring a
document above the ceiling or below it, and only a name that does not occur cannot.
-/
import QueryCost.Proofs.Analysis.Entries

namespace QueryCost.Analysis

open QueryCost.GraphQL

set_option autoImplicit false

variable {K : Type} [One K] [Mul K] [BEq K]

namespace Site

theorem chargesUnder_congr {tariff tariff' : Tariff K} {d : Document} {name : String}
    (same : ∀ s ∈ ofDocument d, s.qualifiedName = name → s.charge tariff = s.charge tariff') :
    chargesUnder tariff d name = chargesUnder tariff' d name := by
  refine List.map_congr_left fun s among => ?_
  obtain ⟨inside, under⟩ := List.mem_filter.1 among
  exact same s inside (of_decide_eq_true under)

theorem chargesUnder_setFieldCost_of_ne (rules : Rules K) {name other : String} (cost : K)
    (d : Document) (ne : other ≠ name) :
    chargesUnder (rules.setFieldCost name cost).tariff d other =
      chargesUnder rules.tariff d other := by
  refine chargesUnder_congr fun s _ under => ?_
  rw [charge_setFieldCost, if_neg (under ▸ ne)]

/-- Under the name that was set nothing is left of what the fields cost before. -/
theorem chargesUnder_setFieldCost_self (rules : Rules K) (name : String) (cost : K)
    (d : Document) :
    chargesUnder (rules.setFieldCost name cost).tariff d name =
      ((ofDocument d).filter (·.qualifiedName = name)).map (·.chargeFrom cost rules.tariff) := by
  refine List.map_congr_left fun s among => ?_
  rw [charge_setFieldCost, if_pos (of_decide_eq_true (List.mem_filter.1 among).2)]

end Site

/-- The same rules with other costs of single fields. -/
def Rules.withFieldCosts (rules : Rules K) (costs : Ledger K) : Rules K :=
  { rules with tariff := { rules.tariff with fieldCosts := costs } }

namespace Report

variable [Zero K] [Add K]

/-- Charges that are the same are summed up to the same report. -/
theorem ofDocument_congr {tariff tariff' : Tariff K} {d : Document}
    (same : ∀ s ∈ Site.ofDocument d, s.charge tariff = s.charge tariff') :
    ofDocument tariff d = ofDocument tariff' d := by
  have cost : (ofDocument tariff d).cost = (ofDocument tariff' d).cost := by
    rw [cost_ofDocument, cost_ofDocument, List.map_congr_left same]
  have fields : (ofDocument tariff d).fields = (ofDocument tariff' d).fields := by
    refine Ledger.eq_of_get? fun name => ?_
    rw [Site.get?_fields_eq_total?, Site.get?_fields_eq_total?,
      Site.chargesUnder_congr fun s inside _ => same s inside]
  show Report.mk _ _ _ = Report.mk _ _ _
  exact congr (congr (congrArg Report.mk cost) rfl) fields

end Report

/-- **An override touches its own name only.**  If the name does not occur in a document then
nothing changes, ceilings included.  In any case the document is refused at its depth with the same
values or not at all; and without ceilings the depth, the names and the entries under all other
names are the same, and the entry under the name does not depend on what fields cost before. -/
theorem override_touches_own_name (rules : Rules Float) (name : String) (cost : Float)
    (d : Document) :
    ((∀ s ∈ Site.ofDocument d, s.qualifiedName ≠ name) →
      analyze (rules.setFieldCost name cost) d = analyze rules d) ∧
    (∀ reached limit,
      analyze (rules.setFieldCost name cost) d = .error (.depth reached limit) ↔
        analyze rules d = .error (.depth reached limit)) ∧
    ∃ r r', analyze rules.unlimited d = .ok r ∧
      analyze (rules.setFieldCost name cost).unlimited d = .ok r' ∧
      r'.depth = r.depth ∧
      (∀ other, other ∈ r'.fields.names ↔ other ∈ r.fields.names) ∧
      (∀ other, other ≠ name → r'.fields.get? other = r.fields.get? other) ∧
      ∀ costs, ∃ r'',
        analyze ((rules.withFieldCosts costs).setFieldCost name cost).unlimited d = .ok r'' ∧
          r''.fields.get? name = r'.fields.get? name := by
  refine ⟨fun absent => ?_, fun reached limit => ?_, _, _, analyze_unlimited rules d,
    analyze_unlimited (rules.setFieldCost name cost) d, rfl, fun other => ?_, fun other ne => ?_,
    fun costs => ⟨_, analyze_unlimited ((rules.withFieldCosts costs).setFieldCost name cost) d, ?_⟩⟩
  · have same : ∀ s ∈ Site.ofDocument d,
        s.charge (rules.setFieldCost name cost).tariff = s.charge rules.tariff := fun s inside => by
      rw [Site.charge_setFieldCost, if_neg (absent s inside)]
    rw [analyze_eq_heldTo, analyze_eq_heldTo, Report.ofDocument_congr same]
    rfl
  · rw [analyze_eq_depth_iff, analyze_eq_depth_iff]
    rfl
  · rw [Site.mem_names_fields_iff, Site.mem_names_fields_iff]
  · rw [Site.get?_fields_eq_total?, Site.get?_fields_eq_total?,
      Site.chargesUnder_setFieldCost_of_ne rules cost d ne]
  · rw [Site.get?_fields_eq_total?, Site.get?_fields_eq_total?,
      Site.chargesUnder_setFieldCost_self, Site.chargesUnder_setFieldCost_self]
    rfl

/-- The document `{ b: a { b } }`, whose fields are charged under `Query.a` and `A.b`. -/
def aliasDocument : Document :=
  ⟨[.operation none [.branch ⟨some "b", "a", [], []⟩ [.leaf ⟨none, "b", [], []⟩]]]⟩

/-- Rules that the document above keeps, unless a field in it costs more. -/
def tightRules : Rules Float :=
  ⟨⟨∅, 1.0, 2.0, 10.0⟩, ⟨some 6.0, some 2⟩⟩

theorem override_touches_own_name_alias :
    (∀ s ∈ Site.ofDocument aliasDocument, s.qualifiedName ≠ "Query.b") ∧
      analyze (tightRules.setFieldCost "Query.b" 5.0) aliasDocument =
        analyze tightRules aliasDocument := by
  have absent : ∀ s ∈ Site.ofDocument aliasDocument, s.qualifiedName ≠ "Query.b" := by
    decide +kernel
  exact ⟨absent, (override_touches_own_name tightRules "Query.b" 5.0 aliasDocument).1 absent⟩

end QueryCost.Analysis
