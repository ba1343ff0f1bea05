/-
# QueryCost.Proofs.Config.RoundTrip -- written configurations are read again

A configuration is written as a record of records, in which any member may be left out
that holds its default value (`WritesConfig`).  The writer leaves out none but the
ceilings that are not set, so what it writes is one of these.

A valid configuration is read from every one of them, without blanks or indented,
exactly if every double in it reads back (`ofJson_written`).  Of each record the reader
finds the members by their names, and a member that is missing has just the value for
which it may be left out (`Entry.orDefault_iff`); so the doubles are all that could be
read as something else.
-/
import QueryCost.Proofs.Config.Validity
import QueryCost.Proofs.Json.Record
import QueryCost.Proofs.Json.Rendering

namespace QueryCost.Config

open QueryCost.Analysis
open QueryCost.Json (ReadsBack Written tree)
open QueryCost.Record (orDefault present)

set_option autoImplicit false

/-! ## Written configurations -/

/-- A member for a value: it may be left out if the value is the default. -/
inductive Entry {α : Type} (default : α) (writes : α → Json → Prop) (a : α) : Option Json → Prop
  | written {j : Json} (value : writes a j) : Entry default writes a (some j)
  | omitted (same : a = default) : Entry default writes a none

/-- The amounts of a ledger stand in any order. -/
inductive WritesLedger (l : Ledger Float) : Json → Prop
  | object {es : List (String × Float)} (order : es.Perm l.entries) :
      WritesLedger l (.object (es.map fun e => (e.1, .double e.2)))

def WritesSize (n : Nat) (j : Json) : Prop :=
  j = .ofNat n

def WritesAmount (x : Float) (j : Json) : Prop :=
  j = .double x

def WritesEnforcement (e : Enforcement) (j : Json) : Prop :=
  j = .string e.text

inductive WritesSettings (s : Settings) : Json → Prop
  | object {size action : Option Json}
      (hasSize : Entry Settings.default.maxBodySize WritesSize s.maxBodySize size)
      (hasAction : Entry Settings.default.enforcement WritesEnforcement s.enforcement action) :
      WritesSettings s (.object (present [("max_body_size", size), ("fail_action", action)]))

/-- A ceiling has a member exactly if it is set. -/
inductive WritesRules (r : Rules Float) : Json → Prop
  | object {fieldCosts defaultCost depthFactor listFactor maxCost maxDepth : Option Json}
      (hasFieldCosts :
        Entry defaultRules.tariff.fieldCosts WritesLedger r.tariff.fieldCosts fieldCosts)
      (hasDefaultCost :
        Entry defaultRules.tariff.defaultCost WritesAmount r.tariff.defaultCost defaultCost)
      (hasDepthFactor :
        Entry defaultRules.tariff.depthFactor WritesAmount r.tariff.depthFactor depthFactor)
      (hasListFactor :
        Entry defaultRules.tariff.listFactor WritesAmount r.tariff.listFactor listFactor)
      (hasMaxCost : Option.Rel WritesAmount r.ceilings.cost maxCost)
      (hasMaxDepth : Option.Rel WritesSize r.ceilings.depth maxDepth) :
      WritesRules r (.object (present [("field_costs", fieldCosts), ("default_cost", defaultCost),
        ("depth_cost_factor", depthFactor), ("list_cost_factor", listFactor),
        ("max_cost", maxCost), ("max_depth", maxDepth)]))

/-- What a configuration may be written as. -/
inductive WritesConfig (c : Config) : Json → Prop
  | object {settings rules : Option Json}
      (hasSettings : Entry .default WritesSettings c.settings settings)
      (hasRules : Entry defaultRules WritesRules c.rules rules) :
      WritesConfig c (.object (present [("settings", settings), ("cost", rules)]))

/-- The sizes in a configuration are of 64 bits. -/
structure SizesFit (c : Config) : Prop where
  body : c.settings.maxBodySize ≤ Json.maxSize
  depth : ∀ n ∈ c.rules.ceilings.depth, n ≤ Json.maxSize

/-! ## What the writer writes -/

theorem writesLedger_ofLedger (l : Ledger Float) : WritesLedger l (.ofLedger l) :=
  .object (.refl _)

theorem writesSettings_toJson (s : Settings) : WritesSettings s (settingsToJson s) :=
  .object (.written rfl) (.written rfl)

theorem writesRules_toJson (r : Rules Float) : WritesRules r (rulesToJson r) := by
  obtain ⟨tariff, cost, depth⟩ := r
  have writes {maxCost maxDepth : Option Json} (hasMaxCost : Option.Rel WritesAmount cost maxCost)
      (hasMaxDepth : Option.Rel WritesSize depth maxDepth) :=
    WritesRules.object (r := ⟨tariff, cost, depth⟩)
      (.written (writesLedger_ofLedger tariff.fieldCosts)) (.written rfl) (.written rfl)
      (.written rfl) hasMaxCost hasMaxDepth
  cases cost with
  | none =>
      cases depth with
      | none => exact writes .none .none
      | some n => exact writes .none (.some rfl)
  | some x =>
      cases depth with
      | none => exact writes (.some rfl) .none
      | some n => exact writes (.some rfl) (.some rfl)

theorem writesConfig_toJson (c : Config) : WritesConfig c (toJson c) :=
  .object (.written (writesSettings_toJson c.settings)) (.written (writesRules_toJson c.rules))

/-! ## Values whose doubles read back -/

/-- Every double in a value reads back. -/
def AllReadBack (j : Json) : Prop :=
  ∀ x ∈ j.doubles, ReadsBack x

theorem allReadBack_object {members : List (String × Json)} :
    AllReadBack (.object members) ↔ ∀ m ∈ members, AllReadBack m.2 :=
  Json.forall_mem_doubles_object

theorem allReadBack_present {fields : List (String × Option Json)} :
    AllReadBack (.object (present fields)) ↔ ∀ f ∈ fields, ∀ j ∈ f.2, AllReadBack j :=
  Json.forall_mem_doubles_present

theorem allReadBack_double {x : Float} : AllReadBack (.double x) ↔ ReadsBack x := by
  simp [AllReadBack, Json.doubles]

/-! ## Members -/

theorem Entry.orDefault_iff {α : Type} {default a : α} {writes : α → Json → Prop}
    {member : Option Json} (entry : Entry default writes a member) (read : Written → Option α)
    (reads : ∀ j, writes a j → (read (tree j) = some a ↔ AllReadBack j)) :
    orDefault default read (member.map tree) = some a ↔ ∀ j ∈ member, AllReadBack j := by
  cases entry with
  | @written j value => simpa [orDefault] using reads j value
  | omitted same => simp [orDefault, same]

theorem ceiling?_iff {β : Type} {writes : β → Json → Prop} {ceiling : Option β}
    {member : Option Json} (given : Option.Rel writes ceiling member)
    (read : Written → Option β) (notNull : read .null = none)
    (reads : ∀ b ∈ ceiling, ∀ j, writes b j → (read (tree j) = some b ↔ AllReadBack j)) :
    jsonFormat.ceiling? read (member.map tree) = some ceiling ↔ ∀ j ∈ member, AllReadBack j := by
  cases given with
  | none => simp [Format.ceiling?]
  | @some b j value =>
      have read_iff := reads b rfl j value
      simp only [Option.map_some, Format.ceiling?, jsonFormat, Option.mem_def, Option.some.injEq,
        forall_eq', ← read_iff]
      cases tree j with
      | null => simp [Written.isNull, notNull]
      | _ => simp [Written.isNull]

theorem amount?_iff {x : Float} {j : Json} (writes : WritesAmount x j) :
    (tree j).amount? = some x ↔ AllReadBack j := by
  rw [writes, allReadBack_double, Written.amount?_tree_iff]

theorem size?_iff {n : Nat} (fits : n ≤ Json.maxSize) {j : Json} (writes : WritesSize n j) :
    (tree j).size? = some n ↔ AllReadBack j := by
  rw [writes]
  exact iff_of_true (Written.size?_tree fits) nofun

theorem choice?_iff {e : Enforcement} {j : Json} (writes : WritesEnforcement e j) :
    ((tree j).choice?).bind Enforcement.ofText? = some e ↔ AllReadBack j := by
  rw [writes]
  cases e <;> exact iff_of_true rfl nofun

theorem ledger?_iff {l : Ledger Float} {j : Json} (writes : WritesLedger l j) :
    (tree j).ledger? = some l ↔ AllReadBack j := by
  cases writes with
  | @object es order =>
      rw [Written.ledger?_tree_iff order, allReadBack_object, List.forall_mem_map]
      exact forall₂_congr fun e _ => allReadBack_double.symm

/-! ## Records are read field by field -/

namespace Format

variable {α : Type} {f : Format α} {a : α}

theorem settings?_eq_some_iff {size action : Option α} {s : Settings}
    (found : f.record? settingsFields a = some [size, action]) :
    f.settings? a = some s ↔
      orDefault Settings.default.maxBodySize f.size? size = some s.maxBodySize ∧
      orDefault Settings.default.enforcement (fun a => (f.choice? a).bind Enforcement.ofText?)
        action = some s.enforcement := by
  rw [settings?, found]
  simp only [Option.bind_eq_bind, Option.bind_eq_some_iff, Option.pure_def, Option.some.injEq]
  constructor
  · rintro ⟨_, size, _, action, rfl⟩
    exact ⟨size, action⟩
  · rintro ⟨size, action⟩
    exact ⟨_, size, _, action, rfl⟩

theorem rules?_eq_some_iff
    {fieldCosts defaultCost depthFactor listFactor maxCost maxDepth : Option α} {r : Rules Float}
    (found : f.record? rulesFields a =
      some [fieldCosts, defaultCost, depthFactor, listFactor, maxCost, maxDepth]) :
    f.rules? a = some r ↔
      orDefault defaultRules.tariff.fieldCosts f.ledger? fieldCosts = some r.tariff.fieldCosts ∧
      orDefault defaultRules.tariff.defaultCost f.amount? defaultCost =
        some r.tariff.defaultCost ∧
      orDefault defaultRules.tariff.depthFactor f.amount? depthFactor =
        some r.tariff.depthFactor ∧
      orDefault defaultRules.tariff.listFactor f.amount? listFactor = some r.tariff.listFactor ∧
      f.ceiling? f.amount? maxCost = some r.ceilings.cost ∧
      f.ceiling? f.size? maxDepth = some r.ceilings.depth := by
  rw [rules?, found]
  simp only [Option.bind_eq_bind, Option.bind_eq_some_iff, Option.pure_def, Option.some.injEq]
  constructor
  · rintro ⟨_, costs, _, cost, _, depthFactor, _, listFactor, _, maxCost, _, maxDepth, rfl⟩
    exact ⟨costs, cost, depthFactor, listFactor, maxCost, maxDepth⟩
  · rintro ⟨costs, cost, depthFactor, listFactor, maxCost, maxDepth⟩
    exact ⟨_, costs, _, cost, _, depthFactor, _, listFactor, _, maxCost, _, maxDepth, rfl⟩

theorem config?_eq_some_iff {settings rules : Option α} {c : Config}
    (found : f.record? configFields a = some [settings, rules]) :
    f.config? a = some c ↔
      orDefault .default f.settings? settings = some c.settings ∧
      orDefault defaultRules f.rules? rules = some c.rules := by
  rw [config?, found]
  simp only [Option.bind_eq_bind, Option.bind_eq_some_iff, Option.pure_def, Option.some.injEq]
  constructor
  · rintro ⟨_, settings, _, rules, rfl⟩
    exact ⟨settings, rules⟩
  · rintro ⟨settings, rules⟩
    exact ⟨_, settings, _, rules, rfl⟩

end Format

/-- Every field finds the member that was written for it. -/
theorem record?_tree_present (fields : List (List String)) (members : List (String × Option Json))
    (found : Record.ofMembers? fields (present members) = some (members.map (·.2))) :
    jsonFormat.record? fields (tree (.object (present members))) =
      some ((members.map (·.2)).map (Option.map tree)) := by
  show Written.record? fields (tree (.object (present members))) = _
  rw [Written.record?_tree, found, Option.map_some]

theorem WritesSettings.settings?_iff {s : Settings} (fits : s.maxBodySize ≤ Json.maxSize)
    {j : Json} (writes : WritesSettings s j) :
    jsonFormat.settings? (tree j) = some s ↔ AllReadBack j := by
  cases writes with
  | @object size action hasSize hasAction =>
      have found := record?_tree_present settingsFields
        [("max_body_size", size), ("fail_action", action)] (by
          simp [Record.ofMembers?, settingsFields])
      rw [Format.settings?_eq_some_iff found, allReadBack_present,
        hasSize.orDefault_iff jsonFormat.size? fun _ => size?_iff fits,
        hasAction.orDefault_iff _ fun _ => choice?_iff]
      simp

theorem WritesRules.rules?_iff {r : Rules Float}
    (fits : ∀ n ∈ r.ceilings.depth, n ≤ Json.maxSize) {j : Json} (writes : WritesRules r j) :
    jsonFormat.rules? (tree j) = some r ↔ AllReadBack j := by
  cases writes with
  | @object fieldCosts defaultCost depthFactor listFactor maxCost maxDepth hasFieldCosts
        hasDefaultCost hasDepthFactor hasListFactor hasMaxCost hasMaxDepth =>
      have found := record?_tree_present rulesFields [("field_costs", fieldCosts),
        ("default_cost", defaultCost), ("depth_cost_factor", depthFactor),
        ("list_cost_factor", listFactor), ("max_cost", maxCost), ("max_depth", maxDepth)] (by
          simp [Record.ofMembers?, rulesFields])
      rw [Format.rules?_eq_some_iff found, allReadBack_present,
        hasFieldCosts.orDefault_iff jsonFormat.ledger? fun _ => ledger?_iff,
        hasDefaultCost.orDefault_iff jsonFormat.amount? fun _ => amount?_iff,
        hasDepthFactor.orDefault_iff jsonFormat.amount? fun _ => amount?_iff,
        hasListFactor.orDefault_iff jsonFormat.amount? fun _ => amount?_iff,
        ceiling?_iff hasMaxCost jsonFormat.amount? rfl fun _ _ _ => amount?_iff,
        ceiling?_iff hasMaxDepth jsonFormat.size? rfl fun n set _ => size?_iff (fits n set)]
      simp

theorem WritesConfig.config?_iff {c : Config} (fits : SizesFit c) {j : Json}
    (writes : WritesConfig c j) : jsonFormat.config? (tree j) = some c ↔ AllReadBack j := by
  cases writes with
  | @object settings rules hasSettings hasRules =>
      have found := record?_tree_present configFields
        [("settings", settings), ("cost", rules)] (by
          simp [Record.ofMembers?, configFields])
      rw [Format.config?_eq_some_iff found, allReadBack_present,
        hasSettings.orDefault_iff _ fun _ writes => writes.settings?_iff fits.body,
        hasRules.orDefault_iff _ fun _ writes => writes.rules?_iff fits.depth]
      simp

/-! ## Reading what is written -/

theorem checked_eq_ok_iff {c : Config} (valid : c.problem? = none) {fault : LoadFault}
    {read : Option Config} : checked fault read = .ok c ↔ read = some c :=
  checked_eq_ok_iff_valid.trans (and_iff_left (problem?_eq_none_iff.1 valid))

/-- **Written configurations are read again.**  The writer writes a configuration as one of the
values that it may be written as; and from each of them, in either form of its text, a valid
configuration is read exactly if the doubles in that text read back. -/
theorem ofJson_written {c : Config} (valid : c.problem? = none) (fits : SizesFit c) :
    WritesConfig c (toJson c) ∧
      ∀ j, WritesConfig c j → ∀ text ∈ [Json.compact j, Json.pretty j],
        (ofJson text = .ok c ↔ ∀ x ∈ j.doubles, ReadsBack x) := by
  refine ⟨writesConfig_toJson c, fun j writes text among => ?_⟩
  have read : Written.ofText? none text.toList = some (tree j) := by
    rcases List.mem_pair.1 among with rfl | rfl
    · exact Json.ofText?_compact j
    · exact Json.ofText?_pretty j
  rw [ofJson, checked_eq_ok_iff valid, ofJsonText?, read, Option.bind_some]
  exact writes.config?_iff fits

/-- A configuration with a name that has to be escaped, a negative zero and both ceilings. -/
def sampleConfig : Config :=
  ⟨⟨2048, .allow⟩,
    ⟨⟨Ledger.ofList [("Query.\"a\"", 0.5), ("Query.b", 2.0)], -0.0, 1.0, 10.0⟩,
      ⟨some 0.1, some 7⟩⟩⟩

/-- It is written here without its factors, and the costs of its fields stand in another order. -/
def sampleWritten : Json :=
  .object (present
    [("settings", some (.object (present
      [("max_body_size", some (.ofNat 2048)), ("fail_action", some (.string "allow"))]))),
    ("cost", some (.object (present
      [("field_costs", some (.object
        ([("Query.b", 2.0), ("Query.\"a\"", 0.5)].map fun e => (e.1, .double e.2)))),
      ("default_cost", some (.double (-0.0))), ("depth_cost_factor", none),
      ("list_cost_factor", none), ("max_cost", some (.double 0.1)),
      ("max_depth", some (.ofNat 7))])))])

theorem writesConfig_sample : WritesConfig sampleConfig sampleWritten :=
  .object (.written (.object (.written rfl) (.written rfl)))
    (.written (.object (.written (.object (by decide +kernel))) (.written rfl) (.omitted rfl)
      (.omitted rfl) (.some rfl) (.some rfl)))

theorem ofJson_written_sample :
    sampleConfig.problem? = none ∧ SizesFit sampleConfig ∧
      ofJson ("\x7b\"settings\":\x7b\"max_body_size\":2048,\"fail_action\":\"allow\"\x7d," ++
        "\"cost\":\x7b\"field_costs\":\x7b\"Query.b\":2.0,\"Query.\\\"a\\\"\":0.5\x7d," ++
        "\"default_cost\":-0.0,\"max_cost\":0.1,\"max_depth\":7\x7d\x7d") = .ok sampleConfig ∧
      ofJson (Json.pretty (toJson sampleConfig)) = .ok sampleConfig := by
  have valid : sampleConfig.problem? = none := by decide +kernel
  have fits : SizesFit sampleConfig := ⟨by decide, by decide⟩
  obtain ⟨writes, reads⟩ := ofJson_written valid fits
  refine ⟨valid, fits, ?_, ?_⟩
  · refine (reads sampleWritten writesConfig_sample _ ?_).2 (by decide +kernel)
    exact List.mem_cons.2 (.inl (by decide +kernel))
  · exact (reads _ writes _ (List.mem_cons_of_mem _ List.mem_cons_self)).2 (by decide +kernel)

end QueryCost.Config
