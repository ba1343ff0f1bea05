/-
# QueryCost.Proofs.Config.Respelling -- configurations that are spelled another way

A JSON configuration can be respelled without meaning anything else: members of the
whole, of its settings or of its rules are put in another order, members under unknown
names come or go, and a field of the rules changes between its two names.  One such
step is a `Respelling`, and texts whose values are joined by any number of steps, in
either direction, are read alike: as equal configurations, or with the same fault
(`ofJson_respelled`).

The six fields of the rules are the ones that have two names.  The words of the one
(`ruleNames`) are joined by underscores, those of the other start with capitals instead
(`camelCase`), and no field of the rules has any name but these (`mem_rulesFields_iff`).

A step inside the settings or the rules is seen by the reader of the whole only through
the reader of that record (`config?_eq_of_member`), and there it is an edit of the members
of one record.

Where a field is given twice the reader does not choose, whichever of the three objects
it stands in: the text is no configuration.
-/
import Mathlib.Logic.Relation
import QueryCost.Config.Load
import QueryCost.Proofs.Json.Members
import QueryCost.Proofs.Json.Rendering

namespace QueryCost.Config

open QueryCost.Json (Written)
open QueryCost.Json.Written (namedMembers? namedMembers?_cons mem_of_namedMembers?
  record?_eq_of_edit record?_eq_none_of_repeats)
open QueryCost.Record (Edit Repeats Distinct orDefault field? bind_orDefault_field?_cons
  bind_orDefault_field?_eq_none)

set_option autoImplicit false

/-! ## Respellings -/

/-- One step from a configuration to another spelling of it. -/
inductive Respelling : Written → Written → Prop
  | whole {ms ms' : List (Option String × Written)} (edit : Edit configFields ms ms') :
      Respelling (.object ms) (.object ms')
  | settings {ss ss' : List (Option String × Written)} (edit : Edit settingsFields ss ss')
      (others : List (Option String × Written)) :
      Respelling (.object ((some "settings", .object ss) :: others))
        (.object ((some "settings", .object ss') :: others))
  | rules {rs rs' : List (Option String × Written)} (edit : Edit rulesFields rs rs')
      (others : List (Option String × Written)) :
      Respelling (.object ((some "cost", .object rs) :: others))
        (.object ((some "cost", .object rs') :: others))

/-- Another spelling, by any number of steps in either direction. -/
def Respelled : Written → Written → Prop :=
  Relation.EqvGen Respelling

/-- A field of the whole, of the settings or of the rules is given more than once. -/
inductive RepeatsField : Written → Prop
  | whole {ms : List (Option String × Written)} (repeats : Repeats configFields ms) :
      RepeatsField (.object ms)
  | settings {ms ss : List (Option String × Written)} (among : (some "settings", .object ss) ∈ ms)
      (repeats : Repeats settingsFields ss) : RepeatsField (.object ms)
  | rules {ms rs : List (Option String × Written)} (among : (some "cost", .object rs) ∈ ms)
      (repeats : Repeats rulesFields rs) : RepeatsField (.object ms)

/-! ## The two names of a field -/

/-- Behind an underscore comes a capital, and the underscore goes. -/
def humps : List Char → List Char
  | '_' :: c :: rest => c.toUpper :: humps rest
  | c :: rest => c :: humps rest
  | [] => []

/-- A name whose words are joined by underscores, with its words joined by capitals. -/
def camelCase (name : String) : String :=
  String.ofList (humps name.toList)

/-- The fields of the rules under their names with underscores. -/
def ruleNames : List String :=
  ["field_costs", "default_cost", "depth_cost_factor", "list_cost_factor", "max_cost", "max_depth"]

example : ruleNames.map camelCase = ["fieldCosts", "defaultCost", "depthCostFactor",
    "listCostFactor", "maxCost", "maxDepth"] := by decide +kernel

theorem rulesFields_eq_map_camelCase :
    rulesFields = ruleNames.map fun name => [name, camelCase name] := by
  decide +kernel

/-- A field of the rules goes by its name with underscores and by its name with capitals. -/
theorem mem_rulesFields_iff {names : List String} :
    names ∈ rulesFields ↔ ∃ name ∈ ruleNames, names = [name, camelCase name] := by
  simp only [rulesFields_eq_map_camelCase, List.mem_map, eq_comm]

theorem camelCase_ne {name : String} (listed : name ∈ ruleNames) : camelCase name ≠ name := by
  have each : ∀ name ∈ ruleNames, camelCase name ≠ name := by decide +kernel
  exact each name listed

section

variable {name : String} (listed : name ∈ ruleNames)
include listed

/-- A member of the rules goes by the name with capitals instead. -/
theorem Respelling.of_camelCase (w : Written) (rs others : List (Option String × Written)) :
    Respelling (.object ((some "cost", .object ((some name, w) :: rs)) :: others))
      (.object ((some "cost", .object ((some (camelCase name), w) :: rs)) :: others)) := by
  have field : [name, camelCase name] ∈ rulesFields := mem_rulesFields_iff.2 ⟨name, listed, rfl⟩
  apply Respelling.rules
  apply Edit.renamed field <;> simp

/-- Both names of a field are given, with whatever values. -/
theorem RepeatsField.of_camelCase {ms rs : List (Option String × Written)} {w w' : Written}
    (among : (some "cost", .object rs) ∈ ms) (own : (some name, w) ∈ rs)
    (own' : (some (camelCase name), w') ∈ rs) : RepeatsField (.object ms) := by
  have field : [name, camelCase name] ∈ rulesFields := mem_rulesFields_iff.2 ⟨name, listed, rfl⟩
  apply RepeatsField.rules among
  exact Repeats.of_mem field (by simp) (by simp) (camelCase_ne listed).symm own own'

end

/-! ## The records of a configuration -/

theorem distinct_fields :
    Distinct configFields ∧ Distinct settingsFields ∧ Distinct rulesFields := by
  decide +kernel

/-- The fields of the whole are looked up, and each is read by the reader of its record. -/
theorem config?_object (ms : List (Option String × Written)) :
    jsonFormat.config? (.object ms) =
      (namedMembers? ms).bind fun named =>
        ((field? ["settings"] named).bind (orDefault .default jsonFormat.settings?)).bind
          fun settings =>
            ((field? ["cost"] named).bind (orDefault defaultRules jsonFormat.rules?)).bind
              fun rules => some ⟨settings, rules⟩ := by
  have fields : jsonFormat.record? configFields (.object ms) =
      (namedMembers? ms).bind (Record.ofMembers? configFields) := rfl
  rw [Format.config?, fields]
  cases namedMembers? ms with
  | none => rfl
  | some named =>
      simp only [Option.bind_some, Record.ofMembers?, configFields, List.mapM_cons, List.mapM_nil,
        Option.bind_eq_bind, Option.pure_def]
      cases field? ["settings"] named with
      | none => rfl
      | some settings => cases field? ["cost"] named <;> simp

/-- Only the reader of its record sees what stands in a member. -/
theorem config?_eq_of_member {name : String} {w w' : Written}
    (settings : name ∈ ["settings"] → jsonFormat.settings? w = jsonFormat.settings? w')
    (rules : name ∈ ["cost"] → jsonFormat.rules? w = jsonFormat.rules? w')
    (others : List (Option String × Written)) :
    jsonFormat.config? (.object ((some name, w) :: others)) =
      jsonFormat.config? (.object ((some name, w') :: others)) := by
  rw [config?_object, config?_object, namedMembers?_cons, namedMembers?_cons]
  cases namedMembers? others with
  | none => rfl
  | some named =>
      simp only [Option.map_some, Option.bind_some]
      rw [bind_orDefault_field?_cons settings, bind_orDefault_field?_cons rules]

theorem Respelling.config?_eq {w w' : Written} (step : Respelling w w') :
    jsonFormat.config? w = jsonFormat.config? w' := by
  obtain ⟨inWhole, inSettings, inRules⟩ := distinct_fields
  cases step with
  | @whole ms ms' edit =>
      have same : jsonFormat.record? configFields (.object ms) =
          jsonFormat.record? configFields (.object ms') := record?_eq_of_edit inWhole edit
      rw [Format.config?, Format.config?, same]
  | @settings ss ss' edit others =>
      have same : jsonFormat.record? settingsFields (.object ss) =
          jsonFormat.record? settingsFields (.object ss') := record?_eq_of_edit inSettings edit
      refine config?_eq_of_member (fun _ => ?_) (fun own => absurd own (by decide)) others
      rw [Format.settings?, Format.settings?, same]
  | @rules rs rs' edit others =>
      have same : jsonFormat.record? rulesFields (.object rs) =
          jsonFormat.record? rulesFields (.object rs') := record?_eq_of_edit inRules edit
      refine config?_eq_of_member (fun own => absurd own (by decide)) (fun _ => ?_) others
      rw [Format.rules?, Format.rules?, same]

/-- What no single step changes is the same after any number of steps. -/
theorem Respelled.config?_eq {w w' : Written} (respelled : Respelled w w') :
    jsonFormat.config? w = jsonFormat.config? w' := by
  induction respelled with
  | rel _ _ step => exact step.config?_eq
  | refl _ => rfl
  | symm _ _ _ ih => exact ih.symm
  | trans _ _ _ _ _ first second => exact first.trans second

/-! ## Fields that are given twice -/

/-- A record that cannot be read spoils the whole. -/
theorem config?_eq_none_of_member {ms : List (Option String × Written)} {name : String}
    {w : Written} (among : (some name, w) ∈ ms)
    (unread : name = "settings" ∧ jsonFormat.settings? w = none ∨
      name = "cost" ∧ jsonFormat.rules? w = none) :
    jsonFormat.config? (.object ms) = none := by
  rw [config?_object]
  cases read : namedMembers? ms with
  | none => rfl
  | some named =>
      have listed := mem_of_namedMembers? read among
      rw [Option.bind_some]
      rcases unread with ⟨rfl, unread⟩ | ⟨rfl, unread⟩
      · rw [bind_orDefault_field?_eq_none listed (List.mem_singleton.2 rfl) unread,
          Option.bind_none]
      · rw [bind_orDefault_field?_eq_none listed (List.mem_singleton.2 rfl) unread]
        simp only [Option.bind_none, Option.bind_fun_none]

theorem RepeatsField.config?_eq_none {w : Written} (repeats : RepeatsField w) :
    jsonFormat.config? w = none := by
  cases repeats with
  | @whole ms repeats =>
      have unread : jsonFormat.record? configFields (.object ms) = none :=
        record?_eq_none_of_repeats repeats
      rw [Format.config?, unread]
  | @settings ms ss among repeats =>
      have unread : jsonFormat.record? settingsFields (.object ss) = none :=
        record?_eq_none_of_repeats repeats
      refine config?_eq_none_of_member among (.inl ⟨rfl, ?_⟩)
      rw [Format.settings?, unread]
  | @rules ms rs among repeats =>
      have unread : jsonFormat.record? rulesFields (.object rs) = none :=
        record?_eq_none_of_repeats repeats
      refine config?_eq_none_of_member among (.inr ⟨rfl, ?_⟩)
      rw [Format.rules?, unread]

/-! ## Reading -/

theorem ofJson_eq_checked {text : String} {w : Written}
    (read : Written.ofText? none text.toList = some w) :
    ofJson text = checked .notJson (jsonFormat.config? w) := by
  rw [ofJson, ofJsonText?, read, Option.bind_some]

/-- **Spelling does not matter, and nothing is chosen silently.**  Texts of values that differ in
the order of members, in members under unknown names and in which of its names a field goes by
are read alike, also where they are no valid configuration; and a text that gives a field twice
is refused as JSON. -/
theorem ofJson_respelled :
    (∀ (text text' : String) (w w' : Written), Written.ofText? none text.toList = some w →
      Written.ofText? none text'.toList = some w' → Respelled w w' → ofJson text = ofJson text') ∧
    ∀ (text : String) (w : Written), Written.ofText? none text.toList = some w →
      RepeatsField w → ofJson text = .error .notJson := by
  constructor
  · intro text text' w w' read read' respelled
    rw [ofJson_eq_checked read, ofJson_eq_checked read', respelled.config?_eq]
  · intro text w read repeats
    rw [ofJson_eq_checked read, repeats.config?_eq_none, checked]

/-- Both ceilings, once behind an unknown member, with capitals in a name and in the other order;
and one ceiling under both of its names. -/
theorem ofJson_respelled_ceilings :
    ofJson "\x7b\"cost\":\x7b\"x\":[],\"maxDepth\":3,\"max_cost\":null\x7d\x7d" =
        ofJson "\x7b\"cost\":\x7b\"max_cost\":null,\"max_depth\":3\x7d\x7d" ∧
      ofJson "\x7b\"cost\":\x7b\"max_cost\":null,\"maxCost\":null\x7d\x7d" =
        .error .notJson := by
  have read (rs : List (String × Json)) {text : String}
      (written : Json.compact (.object [("cost", .object rs)]) = text) :
      Written.ofText? none text.toList =
        some (.object [(some "cost", .object (Json.membersTree rs))]) := by
    rw [← written]
    exact Json.ofText?_compact _
  have step {rs rs' : List (Option String × Written)} (edit : Edit rulesFields rs rs') :
      Respelled (.object [(some "cost", .object rs)]) (.object [(some "cost", .object rs')]) :=
    .rel _ _ (.rules edit [])
  have respelled : Respelled
      (.object [(some "cost", .object (Json.membersTree
        [("x", .array []), ("maxDepth", .ofNat 3), ("max_cost", .null)]))])
      (.object [(some "cost", .object (Json.membersTree
        [("max_cost", .null), ("max_depth", .ofNat 3)]))]) := by
    have unknown : ∀ names ∈ rulesFields, "x" ∉ names := by decide
    have added := step (.added unknown (.array [])
      [(some "maxDepth", Json.tree (.ofNat 3)), (some "max_cost", .null)])
    have depth : "max_depth" ∈ ruleNames := by decide
    have renamed := Relation.EqvGen.rel _ _ (Respelling.of_camelCase depth (Json.tree (.ofNat 3))
      [(some "max_cost", .null)] [])
    have turned := step (.reordered (.swap (some "max_cost", Written.null)
      (some "max_depth", Json.tree (.ofNat 3)) []))
    exact (added.symm _ _).trans _ _ _ ((renamed.symm _ _).trans _ _ _ turned)
  have cost : "max_cost" ∈ ruleNames := by decide
  have repeats : RepeatsField (.object [(some "cost", .object (Json.membersTree
      [("max_cost", .null), ("maxCost", .null)]))]) :=
    .of_camelCase cost List.mem_cons_self List.mem_cons_self
      (List.mem_cons_of_mem _ List.mem_cons_self)
  obtain ⟨alike, refused⟩ := ofJson_respelled
  constructor
  · exact alike _ _ _ _ (read [("x", .array []), ("maxDepth", .ofNat 3), ("max_cost", .null)]
      (by decide +kernel)) (read [("max_cost", .null), ("max_depth", .ofNat 3)] (by decide +kernel))
      respelled
  · exact refused _ _ (read [("max_cost", .null), ("maxCost", .null)] (by decide +kernel)) repeats

end QueryCost.Config
