/-
# QueryCost.Proofs.Request.RoundTrip -- written requests are read again

A request is written as an object of its parts, in any order and among members under
other names; a part that it does not have is left out or written as `null`
(`WritesRequest`).  Such an object is a request of the grammar, and it is the request
that was written (`WritesRequest.isObject`).  So a body that a batch or a single request
was written to holds just what was written (`ofBody_written`), however its strings are
escaped and wherever it has blanks.
-/
import QueryCost.Proofs.Json.Writing
import QueryCost.Proofs.Request.Grammar

namespace QueryCost.Request

open QueryCost.Json (Written Writes WritesItems WritesMembers StringBody Token TokenText)

set_option autoImplicit false

/-! ## Written requests -/

/-- The member under a name, if there is one. -/
def under (name : String) (value : Option Written) : List (Option String × Written) :=
  value.toList.map fun w => (some name, w)

/-- What a request may be written as. -/
inductive WritesRequest (r : Request) : Written → Prop
  | members {members others : List (Option String × Written)}
      {operationName variableValues : Option Written}
      (hasOperationName : Gives (fun w name => w = .string (some name)) operationName
        r.operationName)
      (hasVariables : Gives (fun w value => Writes value w) variableValues r.variableValues)
      (otherNames : ∀ m ∈ others,
        m.1 ≠ some "query" ∧ m.1 ≠ some "operationName" ∧ m.1 ≠ some "variables")
      (otherValues : ∀ m ∈ others, m.2.InRange)
      (order : members.Perm (under "query" (some (.string (some r.query))) ++
        (under "operationName" operationName ++ (under "variables" variableValues ++ others)))) :
      WritesRequest r (.object members)

/-! ## They are requests of the grammar -/

theorem filter_under (name name' : String) (value : Option Written) :
    (under name value).filter (fun m => m.1 = some name') =
      if name = name' then under name' value else [] := by
  cases value with
  | none => simp [under]
  | some w => by_cases same : name = name' <;> simp [under, same]

theorem filter_others {others : List (Option String × Written)} {name : String}
    (otherNames : ∀ m ∈ others, m.1 ≠ some name) :
    others.filter (fun m => m.1 = some name) = [] :=
  List.filter_eq_nil_iff.2 fun m among => by simpa using otherNames m among

theorem Gives.imp {α : Type} {reads reads' : Written → α → Prop}
    (weaker : ∀ w a, reads w a → reads' w a) {w : Option Written} {a : Option α}
    (gives : Gives reads w a) : Gives reads' w a := by
  cases gives with
  | missing => exact .missing
  | null => exact .null
  | value notNull gives => exact .value notNull (weaker _ _ gives)

/-- What is written for a request is that request. -/
theorem WritesRequest.isObject {r : Request} {w : Written} (writes : WritesRequest r w) :
    IsObject w r := by
  cases writes with
  | @members members others operationName variableValues hasOperationName hasVariables
        otherNames otherValues order =>
      have noQuery := filter_others fun m among => (otherNames m among).1
      have noOperationName := filter_others fun m among => (otherNames m among).2.1
      have noVariables := filter_others fun m among => (otherNames m among).2.2
      have query : Member members "query" (some (.string (some r.query))) := by
        refine Member.perm order (member_iff_filter.2 ?_)
        show _ = under "query" (some (.string (some r.query)))
        simp [filter_under, noQuery]
      have name : Member members "operationName" operationName := by
        refine Member.perm order (member_iff_filter.2 ?_)
        show _ = under "operationName" operationName
        simp [filter_under, noOperationName]
      have variableMember : Member members "variables" variableValues := by
        refine Member.perm order (member_iff_filter.2 ?_)
        show _ = under "variables" variableValues
        simp [filter_under, noVariables]
      exact .members query name variableMember
        ⟨rfl, hasOperationName, hasVariables.imp fun _ _ writes => writes.denote?⟩

theorem inRange_string (text : Option String) : (Written.string text).InRange := by
  intro n among
  simp [Written.tokens] at among

theorem Gives.inRange {α : Type} {reads : Written → α → Prop}
    (reads_inRange : ∀ w a, reads w a → w.InRange) {w : Option Written} {a : Option α}
    (gives : Gives reads w a) (name : String) : ∀ m ∈ under name w, m.2.InRange := by
  intro m among
  cases gives with
  | missing => cases among
  | null =>
      obtain rfl := List.mem_singleton.1 among
      intro n number
      simp [Written.tokens] at number
  | value notNull gives =>
      obtain rfl := List.mem_singleton.1 among
      exact reads_inRange _ _ gives

theorem WritesRequest.inRange {r : Request} {w : Written} (writes : WritesRequest r w) :
    w.InRange := by
  cases writes with
  | members hasOperationName hasVariables otherNames otherValues order =>
      refine Written.inRange_object fun m among => ?_
      have written := order.mem_iff.1 among
      simp only [List.mem_append] at written
      rcases written with query | operationName | variableValues | other
      · obtain rfl := List.mem_singleton.1 query
        exact inRange_string _
      · refine hasOperationName.inRange (fun w name same => ?_) _ m operationName
        subst same
        exact inRange_string _
      · exact hasVariables.inRange (fun _ _ writes => Written.inRange_of_denote? writes.denote?)
          _ m variableValues
      · exact otherValues m other

/-! ## The shortest body of a query -/

/-- The text of a request with nothing but a query. -/
def queryText (query : String) : List Char :=
  "\x7b\"query\":".toList ++ ((Json.quote query).toList ++ "\x7d".toList)

theorem writesRequest_query (query : String) :
    WritesRequest ⟨query, none, none⟩ (.object [(some "query", .string (some query))]) :=
  .members .missing .missing (List.forall_mem_nil _) (List.forall_mem_nil _) (.refl _)

theorem text_queryText (query : String) :
    (Written.object [(some "query", .string (some query))]).Text (queryText query) :=
  (TokenText.single .braceLeft).append ((Json.text_quote "query").append
    ((TokenText.single .colon).append ((Json.text_quote query).append (.single .braceRight))))

theorem isBody_queryText (query : String) {limit : Nat} (positive : 1 ≤ limit) :
    (Written.object [(some "query", .string (some query))]).IsBody limit
      (queryText query).utf8Encode :=
  ⟨⟨_, rfl, text_queryText query⟩, positive, (writesRequest_query query).inRange⟩

/-- Whatever a query is, its shortest body holds it. -/
theorem ofBody_queryText (query : String) :
    ofBody (queryText query).utf8Encode = .ok [⟨query, none, none⟩] :=
  ofBody_eq_ok_iff_shape.2
    ⟨_, isBody_queryText query (by decide), .single (.inl (writesRequest_query query).isObject)⟩

/-! ## Reading what is written -/

/-- **Written requests are read again.**  The body that a batch that is not empty was written to
holds the requests of the batch, and the body that one request was written to holds that one. -/
theorem ofBody_written (text : List Char) :
    (∀ (requests : List Request) (ws : List Written), requests ≠ [] →
      List.Forall₂ WritesRequest requests ws → (Written.array ws).Text text →
      (Written.array ws).nesting ≤ 127 → ofBody text.utf8Encode = .ok requests) ∧
    ∀ (r : Request) (w : Written), WritesRequest r w → w.Text text → w.nesting ≤ 127 →
      ofBody text.utf8Encode = .ok [r] := by
  constructor
  · intro requests ws nonempty each spelled nesting
    have isBody : (Written.array ws).IsBody nestingCeiling text.utf8Encode :=
      ⟨⟨text, rfl, spelled⟩, nesting,
        Written.inRange_array_of_forall₂ (fun _ _ writes => writes.inRange) each⟩
    refine ofBody_eq_ok_iff_shape.2 ⟨_, isBody, .batch (fun empty => ?_) ?_⟩
    · subst empty
      cases each
      exact nonempty rfl
    · exact (each.imp fun _ _ writes => Or.inl writes.isObject).flip
  · intro r w writes spelled nesting
    have isBody : w.IsBody nestingCeiling text.utf8Encode :=
      ⟨⟨text, rfl, spelled⟩, nesting, writes.inRange⟩
    exact ofBody_eq_ok_iff_shape.2 ⟨w, isBody, .single (.inl writes.isObject)⟩

/-- A batch of two queries, of which one has to be escaped, and a single request with its parts
in another order, a blank, and no operation name but `null`. -/
theorem ofBody_written_samples :
    ofBody ("[\x7b\"query\":\"a\"\x7d,\x7b\"query\":\"\\n\"\x7d]").toList.utf8Encode =
      .ok [⟨"a", none, none⟩, ⟨"\n", none, none⟩] ∧
    ofBody ("\x7b\"variables\":[-1], \"query\":\"b\"," ++
        "\"operationName\":null\x7d").toList.utf8Encode =
      .ok [⟨"b", none, some (.array [.integer (-1)])⟩] := by
  constructor
  · refine (ofBody_written _).1 _ _ (by decide)
      (.cons (writesRequest_query "a") (.cons (writesRequest_query "\n") .nil)) ?_ (by decide)
    exact (TokenText.single .bracketLeft).append ((text_queryText "a").append
      ((TokenText.single .comma).append ((text_queryText "\n").append (.single .bracketRight))))
  · have variableValues : Gives (fun w value => Writes value w)
        (some (.array [.number (.ofInt (-1))])) (some (.array [.integer (-1)])) :=
      .value nofun (.array (.cons (.integer (by decide) (by decide)) .nil))
    have writes : WritesRequest ⟨"b", none, some (.array [.integer (-1)])⟩
        (.object [(some "variables", .array [.number (.ofInt (-1))]),
          (some "query", .string (some "b")), (some "operationName", .null)]) := by
      refine .members .null variableValues (List.forall_mem_nil _) (List.forall_mem_nil _) ?_
      exact (List.Perm.swap _ _ _).trans (.cons _ (.swap _ _ _))
    have array := (TokenText.single .bracketLeft).append
      ((Json.text_integerText (-1)).append (.single .bracketRight))
    have member (name : String) {ts : List Token} {cs : List Char} (value : TokenText ts cs) :=
      (Json.text_quote name).append ((TokenText.single .colon).append value)
    have blank : Json.IsBlanks [' '] := by simp [Json.IsBlanks]
    refine (ofBody_written _).2 _ _ writes ?_ (by decide)
    exact (TokenText.single .braceLeft).append ((member "variables" array).append
      ((TokenText.single .comma).append (((member "query" (Json.text_quote "b")).blank_append
        blank).append ((TokenText.single .comma).append
          ((member "operationName" (.single .null)).append (.single .braceRight))))))

end QueryCost.Request
