import Verbatim.Toml.Value

/-! Tables under construction. A table is written in pieces: under a header of its own, by headers
of tables inside it, or by keys with dots. Which pieces may follow depends on how the table was
made. -/

namespace Verbatim.Toml

inductive Making where
  /-- By a header of its own. -/
  | headed
  /-- By the header of a table inside it. -/
  | implied
  /-- By a key with dots. -/
  | dotted
  deriving DecidableEq, Repr

inductive Item where
  /-- A value cannot be extended. -/
  | value (value : Value)
  | table (making : Making) (items : List (String × Item))
  /-- A list of tables; only the last one can be extended. -/
  | tables (closed : List Value) (last : List (String × Item))

abbrev Items := List (String × Item)

mutual

def Item.close : Item → Value
  | .value value => value
  | .table _ items => .table (closeAll items)
  | .tables closed last => .array (closed ++ [.table (closeAll last)])

def closeAll : List (String × Item) → List (String × Value)
  | [] => []
  | (name, item) :: rest => (name, item.close) :: closeAll rest

end

def setItem (name : String) (item : Item) : Items → Items
  | [] => [(name, item)]
  | (other, old) :: rest =>
    if other = name then (name, item) :: rest else (other, old) :: setItem name item rest

/-- Change the table at a path, seen from a table that was made in the given way. Tables that are
missing on the way are made like `missing`. A key with dots does not go through a table that has a
header of its own. -/
def alterAt (missing : Making) (change : Making → Items → Option Items) :
    List String → Making → Items → Option Items
  | [], making, items => change making items
  | name :: path, _, items =>
    match items.lookup name with
    | none => do
      return setItem name (.table missing (← alterAt missing change path missing [])) items
    | some (.value _) => none
    | some (.tables closed last) => do
      return setItem name (.tables closed (← alterAt missing change path .headed last)) items
    | some (.table making inner) =>
      if missing = .dotted ∧ making = .headed then none
      else do
        return setItem name (.table making (← alterAt missing change path making inner)) items

/-- Add a value under a key, the last part of which is `name`. A name is given one value only, and
a key with dots ends in a table that such keys have made. -/
def insertValue (path : List String) (name : String) (value : Value) : Items → Option Items :=
  alterAt .dotted (fun making items =>
    if (items.lookup name).isSome || (!path.isEmpty && making ≠ .dotted) then none
    else some (items ++ [(name, .value value)])) path .headed

/-- All tables, and the path of the one that keys belong to. -/
structure Draft where
  items : Items
  current : List String

namespace Draft

def empty : Draft := ⟨[], []⟩

def close (draft : Draft) : Value := .table (closeAll draft.items)

/-- Change the table that holds the last part of a path, by headers. -/
def atHeader (draft : Draft) (path : List String) (change : String → Items → Option Items) :
    Option Draft := do
  let name ← path.getLast?
  let items ← alterAt .implied (fun _ items => change name items) path.dropLast .headed draft.items
  return ⟨items, path⟩

/-- A header opens a table that is new, or that is only known from headers of tables inside it. -/
def openTable (draft : Draft) (path : List String) : Option Draft :=
  draft.atHeader path fun name items =>
    match items.lookup name with
    | none => some (setItem name (.table .headed []) items)
    | some (.table .implied inner) => some (setItem name (.table .headed inner) items)
    | some _ => none

/-- A header with double brackets opens another table of a list. -/
def openElement (draft : Draft) (path : List String) : Option Draft :=
  draft.atHeader path fun name items =>
    match items.lookup name with
    | none => some (setItem name (.tables [] []) items)
    | some (.tables closed last) =>
      some (setItem name (.tables (closed ++ [.table (closeAll last)]) []) items)
    | some _ => none

def insert (draft : Draft) (key : List String) (value : Value) : Option Draft := do
  let name ← key.getLast?
  let items ← alterAt .implied (fun _ items => insertValue key.dropLast name value items)
    draft.current .headed draft.items
  return { draft with items }

end Draft

/-- A table in braces is complete. -/
def tableOfEntries (entries : List (List String × Value)) : Option Value :=
  (entries.foldlM (fun draft (key, value) => Draft.insert draft key value) Draft.empty).map
    Draft.close

end Verbatim.Toml
