/-
# QueryCost.Proofs.Json.Rendering -- the texts of a value

The writer has two forms, and in both of them the text of a value is a text of one tree
(`tree`): the indented form only has more blanks.  So the reader takes either for that
tree (`ofText?_compact`, `ofText?_pretty`), whatever the value is.

Of a double the tree carries the numeral that it is spelled with.  What a reader makes
of a numeral need not be the double it was written for; a double for which it is reads
back (`ReadsBack`).
-/
import QueryCost.Json.Record
import QueryCost.Proofs.Decimal.Spelled
import QueryCost.Proofs.Json.Writing

namespace QueryCost.Json

open QueryCost.Decimal

set_option autoImplicit false

/-! ## The tree of a value -/

/-- The numeral that a double is spelled with, or `null` if it is spelled so. -/
def doubleTree (x : Float) : Written :=
  match Numeral.read? (jsonText x).toList with
  | some (n, []) => .number n
  | _ => .null

mutual

/-- What a value is written as. -/
def tree : Json → Written
  | .null => .null
  | .boolean b => .boolean b
  | .integer n => .number (.ofInt n)
  | .double x => doubleTree x
  | .string s => .string (some s)
  | .array items => .array (itemsTree items)
  | .object members => .object (membersTree members)

def itemsTree : List Json → List Written
  | [] => []
  | item :: rest => tree item :: itemsTree rest

def membersTree : List (String × Json) → List (Option String × Written)
  | [] => []
  | (name, value) :: rest => (some name, tree value) :: membersTree rest

end

theorem membersTree_eq_map (members : List (String × Json)) :
    membersTree members = members.map fun m => (some m.1, tree m.2) := by
  induction members with
  | nil => rfl
  | cons m members ih => rw [membersTree, ih, List.map_cons]

/-! ## The tokens between brackets -/

namespace Written

def itemsTokens : List Written → List Token
  | [] => []
  | item :: rest => item.tokens ++ moreItems rest

def membersTokens : List (Option String × Written) → List Token
  | [] => []
  | (name, value) :: rest => .string name :: .colon :: (value.tokens ++ moreMembers rest)

theorem tokens_array (items : List Written) :
    (array items).tokens = .bracketLeft :: (itemsTokens items ++ [.bracketRight]) := by
  cases items with
  | nil => rfl
  | cons item rest => rw [tokens, itemsTokens, List.append_assoc]

theorem tokens_object (members : List (Option String × Written)) :
    (object members).tokens = .braceLeft :: (membersTokens members ++ [.braceRight]) := by
  cases members with
  | nil => rfl
  | cons member rest => simp [tokens, membersTokens]

theorem itemsTokens_cons_cons (item second : Written) (rest : List Written) :
    itemsTokens (item :: second :: rest) =
      item.tokens ++ (.comma :: itemsTokens (second :: rest)) :=
  rfl

theorem membersTokens_cons_cons (name : Option String) (value : Written)
    (second : Option String × Written) (rest : List (Option String × Written)) :
    membersTokens ((name, value) :: second :: rest) =
      .string name :: .colon :: (value.tokens ++ (.comma :: membersTokens (second :: rest))) :=
  rfl

end Written

/-! ## Texts of the parts -/

open Written (itemsTokens membersTokens)

theorem text_jsonText (x : Float) : (doubleTree x).Text (jsonText x).toList := by
  unfold doubleTree
  rcases exists_numeral_jsonText x with ⟨n, strict, text⟩ | null
  · have read : Numeral.read? (n.text ++ []) = some (n, []) :=
      Numeral.read?_text_append strict nofun
    rw [List.append_nil] at read
    rw [← text, read]
    exact .single (.number strict)
  · rw [null]
    exact .single .null

/-- A new line and its blanks may stand in front of any text. -/
theorem text_newLine (level : Nat) {ts : List Token} {cs : List Char} (text : TokenText ts cs) :
    TokenText ts ((newLine level).toList ++ cs) := by
  refine text.blank_append fun c among => ?_
  simp only [newLine, String.toList_append, String.toList_ofList, List.mem_append,
    List.mem_replicate] at among
  rcases among with lineBreak | blank
  · exact .inr (.inr (.inl (List.mem_singleton.1 lineBreak)))
  · exact .inl blank.2

/-! ## Without blanks -/

mutual

theorem text_compact : ∀ j : Json, (tree j).Text (compact j).toList
  | .null => .single .null
  | .boolean true => .single .yes
  | .boolean false => .single .no
  | .integer n => text_integerText n
  | .double x => text_jsonText x
  | .string s => text_quote s
  | .array items => by
      have inside := (TokenText.single .bracketLeft).append
        ((text_compactItems items).append (.single .bracketRight))
      simpa [tree, Written.Text, Written.tokens_array, compact] using inside
  | .object members => by
      have inside := (TokenText.single .braceLeft).append
        ((text_compactMembers members).append (.single .braceRight))
      simpa [tree, Written.Text, Written.tokens_object, compact] using inside

theorem text_compactItems : ∀ items : List Json,
    TokenText (itemsTokens (itemsTree items)) (compactItems items).toList
  | [] => .done isBlanks_nil
  | [item] => by
      have whole : TokenText (tree item).tokens (compact item).toList := text_compact item
      simpa [itemsTree, itemsTokens, Written.moreItems, compactItems] using whole
  | item :: second :: rest => by
      have more := (TokenText.single .comma).append (text_compactItems (second :: rest))
      have whole := (text_compact item).append more
      simpa [itemsTree, Written.itemsTokens_cons_cons, compactItems] using whole

theorem text_compactMembers : ∀ members : List (String × Json),
    TokenText (membersTokens (membersTree members)) (compactMembers members).toList
  | [] => .done isBlanks_nil
  | [(name, value)] => by
      have whole := (text_quote name).append ((TokenText.single .colon).append (text_compact value))
      simpa [membersTree, membersTokens, Written.moreMembers, compactMembers] using whole
  | (name, value) :: (secondName, second) :: rest => by
      have more := (TokenText.single .comma).append
        (text_compactMembers ((secondName, second) :: rest))
      have whole := (text_quote name).append ((TokenText.single .colon).append
        ((text_compact value).append more))
      simpa [membersTree, Written.membersTokens_cons_cons, compactMembers] using whole

end

/-! ## Indented -/

mutual

theorem text_indented : ∀ (level : Nat) (j : Json), (tree j).Text (indented level j).toList
  | level, .null => by
      rw [indented]
      exact .single .null
  | level, .boolean true => by
      rw [indented]
      exact .single .yes
  | level, .boolean false => by
      rw [indented]
      exact .single .no
  | level, .integer n => by
      rw [indented]
      exact text_integerText n
  | level, .double x => by
      rw [indented]
      exact text_jsonText x
  | level, .string s => by
      rw [indented]
      exact text_quote s
  | level, .array [] => by
      rw [indented]
      exact (TokenText.single .bracketLeft).append (.single .bracketRight)
  | level, .array (item :: rest) => by
      have inside := (TokenText.single .bracketLeft).append
        ((text_indentedItems (level + 1) (item :: rest)).append
          (text_newLine level (.single .bracketRight)))
      simpa [tree, Written.Text, Written.tokens_array, indented] using inside
  | level, .object [] => by
      rw [indented]
      exact (TokenText.single .braceLeft).append (.single .braceRight)
  | level, .object (member :: rest) => by
      have inside := (TokenText.single .braceLeft).append
        ((text_indentedMembers (level + 1) (member :: rest)).append
          (text_newLine level (.single .braceRight)))
      simpa [tree, Written.Text, Written.tokens_object, indented] using inside

theorem text_indentedItems : ∀ (level : Nat) (items : List Json),
    TokenText (itemsTokens (itemsTree items)) (indentedItems level items).toList
  | _, [] => .done isBlanks_nil
  | level, [item] => by
      have whole := text_newLine level (text_indented level item)
      simpa [itemsTree, itemsTokens, Written.moreItems, indentedItems] using whole
  | level, item :: second :: rest => by
      have more := (TokenText.single .comma).append (text_indentedItems level (second :: rest))
      have whole := text_newLine level ((text_indented level item).append more)
      simpa [itemsTree, Written.itemsTokens_cons_cons, indentedItems] using whole

theorem text_indentedMembers : ∀ (level : Nat) (members : List (String × Json)),
    TokenText (membersTokens (membersTree members)) (indentedMembers level members).toList
  | _, [] => .done isBlanks_nil
  | level, [(name, value)] => by
      have blank : IsBlanks [' '] := by simp [IsBlanks]
      have whole := text_newLine level ((text_quote name).append
        ((TokenText.single .colon).append ((text_indented level value).blank_append blank)))
      simpa [membersTree, membersTokens, Written.moreMembers, indentedMembers] using whole
  | level, (name, value) :: (secondName, second) :: rest => by
      have blank : IsBlanks [' '] := by simp [IsBlanks]
      have more := (TokenText.single .comma).append
        (text_indentedMembers level ((secondName, second) :: rest))
      have whole := text_newLine level ((text_quote name).append
        ((TokenText.single .colon).append
          (((text_indented level value).append more).blank_append blank)))
      simpa [membersTree, Written.membersTokens_cons_cons, indentedMembers] using whole

end

/-! ## The reader takes either for the tree -/

theorem Written.ofText?_of_text {w : Written} {cs : List Char} (text : w.Text cs) :
    ofText? none cs = some w := by
  have read : read? none (Token.scan cs) = some (w, []) :=
    read?_eq_some_iff.2 ⟨by rw [scan_of_text text, List.append_nil], rfl⟩
  rw [ofText?, read]

theorem ofText?_compact (j : Json) : Written.ofText? none (compact j).toList = some (tree j) :=
  Written.ofText?_of_text (text_compact j)

theorem ofText?_pretty (j : Json) : Written.ofText? none (pretty j).toList = some (tree j) :=
  Written.ofText?_of_text (text_indented 0 j)

theorem Written.ofText?_written {j : Json} {text : String}
    (written : text ∈ [compact j, pretty j]) :
    Written.ofText? none text.toList = some (tree j) := by
  rcases List.mem_pair.1 written with rfl | rfl
  · exact ofText?_compact j
  · exact ofText?_pretty j

/-! ## Doubles -/

/-- The text of a double in JSON reads back as the same double. -/
def ReadsBack (x : Float) : Prop :=
  (Written.ofText? none (jsonText x).toList).bind Written.amount? = some x

instance : DecidablePred ReadsBack := fun x =>
  inferInstanceAs (Decidable ((Written.ofText? none (jsonText x).toList).bind _ = some x))

theorem readsBack_iff {x : Float} : ReadsBack x ↔ (doubleTree x).amount? = some x := by
  rw [ReadsBack, Written.ofText?_of_text (text_jsonText x), Option.bind_some]

-- The reader rounds in steps, and for the last of these that ends at a neighbour.
example : ReadsBack 0.1 ∧ ReadsBack (-0.0) ∧ ¬ReadsBack 2.2353866964749302e17 := by
  decide +kernel

mutual

/-- The doubles in a value. -/
def doubles : Json → List Float
  | .double x => [x]
  | .array items => itemsDoubles items
  | .object members => membersDoubles members
  | _ => []

def itemsDoubles : List Json → List Float
  | [] => []
  | item :: rest => doubles item ++ itemsDoubles rest

def membersDoubles : List (String × Json) → List Float
  | [] => []
  | (_, value) :: rest => doubles value ++ membersDoubles rest

end

theorem mem_membersDoubles {x : Float} {members : List (String × Json)} :
    x ∈ membersDoubles members ↔ ∃ m ∈ members, x ∈ m.2.doubles := by
  induction members with
  | nil => simp [membersDoubles]
  | cons m members ih => simp [membersDoubles, ih]

/-- The doubles in an object are those in its members. -/
theorem forall_mem_doubles_object {p : Float → Prop} {members : List (String × Json)} :
    (∀ x ∈ (object members).doubles, p x) ↔ ∀ m ∈ members, ∀ x ∈ m.2.doubles, p x := by
  simp only [doubles, mem_membersDoubles]
  exact ⟨fun all m among x inside => all x ⟨m, among, inside⟩,
    fun all x ⟨m, among, inside⟩ => all m among x inside⟩

theorem forall_mem_doubles_of_perm {p : Float → Prop} {members members' : List (String × Json)}
    (order : members.Perm members') :
    (∀ x ∈ (object members).doubles, p x) ↔ ∀ x ∈ (object members').doubles, p x := by
  simp only [forall_mem_doubles_object, order.mem_iff]

end QueryCost.Json
