/-
# QueryCost.Record -- the fields of a record by their names

A record is given by its members, each with a name.  A field may go by several
names; members under no name of any field are passed over.  A field that is given
twice, under whatever of its names, spoils the record, so the order of the members
never matters.
-/
namespace QueryCost.Record

set_option autoImplicit false

variable {α β : Type}

/-- The one member under any of these names; nothing outside if there are several. -/
def field? (names : List String) (members : List (String × α)) : Option (Option α) :=
  match members.filter (fun m => m.1 ∈ names) with
  | [] => some none
  | [m] => some (some m.2)
  | _ => none

/-- The fields of a record, each by the names it goes by. -/
def ofMembers? (fields : List (List String)) (members : List (String × α)) :
    Option (List (Option α)) :=
  fields.mapM (field? · members)

/-- The fields of a record that are listed in their order, from the first one on. -/
def ofItems? (fields : List (List String)) (items : List α) : Option (List (Option α)) :=
  if items.length ≤ fields.length then
    some (items.map some ++ List.replicate (fields.length - items.length) none)
  else none

/-- A field that stands for a default value if it is missing. -/
def orDefault (default : β) (read : α → Option β) : Option α → Option β
  | none => some default
  | some a => read a

end QueryCost.Record
