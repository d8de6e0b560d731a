import DomainScaffold.Fields
import DomainScaffold.Json.Value

/-!
# Tables in TOML

A document fills tables in by keys and headers. A table can be opened once by its header; keys with
dots open tables of their own, which no header may open again, and do not reach into tables with a
header.

Results:
* `addKey_taken`: a key is given once.
* `editAt_value`: nothing is put into a value.
-/

namespace DomainScaffold.Toml

/-- How a table came to be. -/
inductive Origin where
  /-- By its header, or as an element of a list of tables. -/
  | header
  /-- By a header of a table inside. -/
  | implied
  /-- By a key with dots. -/
  | dotted
  deriving DecidableEq, Repr

/-- What stands under a key. -/
inductive Item where
  | value (v : Json)
  | table (origin : Origin) (entries : List (String × Item))
  /-- A list of tables with headers. -/
  | tables (elements : List (List (String × Item)))

/-- The entries of a table. -/
abbrev Entries := List (String × Item)

/-! ## Values -/

mutual

/-- The value of what stands under a key. -/
def Item.toJson : Item → Json
  | .value v => v
  | .table _ entries => .object (entriesToJson entries)
  | .tables elements => .list (elementsToJson elements)

/-- The values of entries. -/
def entriesToJson : List (String × Item) → List (String × Json)
  | [] => []
  | (key, item) :: rest => (key, item.toJson) :: entriesToJson rest

/-- The values of a list of tables. -/
def elementsToJson : List (List (String × Item)) → List Json
  | [] => []
  | entries :: rest => .object (entriesToJson entries) :: elementsToJson rest

end

/-! ## Changes -/

/-- Changes the table at the end of a path, and creates the tables on the way; a path of a key with
    dots, as opposed to that of a header, does not lead into tables with a header. -/
def editAt (dotted : Bool) (f : Origin → Entries → Option Entries) :
    List String → Origin → Entries → Option Entries
  | [], origin, entries => f origin entries
  | key :: path, _, entries =>
    match Fields.find? key entries with
    | none =>
      let origin := if dotted then .dotted else .implied
      (editAt dotted f path origin []).map fun inner => entries ++ [(key, .table origin inner)]
    | some (.value _) => none
    | some (.table origin inner) =>
      if dotted && origin = .header then none
      else
        (editAt dotted f path origin inner).map fun inner =>
          Fields.insert key (.table origin inner) entries
    | some (.tables elements) =>
      match elements.getLast? with
      | none => none
      | some last =>
        (editAt dotted f path .header last).map fun last =>
          Fields.insert key (.tables (elements.dropLast ++ [last])) entries

/-- Gives a value to a key with the given parts in front. -/
def addKey (path : List String) (key : String) (v : Json) : Origin → Entries → Option Entries :=
  editAt true
    (fun origin entries =>
      if (origin == .dotted) == path.isEmpty || Fields.has key entries then none
      else some (entries ++ [(key, .value v)])) path

/-- Opens the table of a header. -/
def openTable (path : List String) (key : String) : Entries → Option Entries :=
  editAt false
    (fun _ entries =>
      match Fields.find? key entries with
      | none => some (entries ++ [(key, .table .header [])])
      | some (.table .implied inner) => some (Fields.insert key (.table .header inner) entries)
      | some _ => none) path .header

/-- Adds a table to the list of a header. -/
def appendTable (path : List String) (key : String) : Entries → Option Entries :=
  editAt false
    (fun _ entries =>
      match Fields.find? key entries with
      | none => some (entries ++ [(key, .tables [[]])])
      | some (.tables elements) => some (Fields.insert key (.tables (elements ++ [[]])) entries)
      | some _ => none) path .header

/-- Gives a value to a key in the table of the last header. -/
def addBelow (header path : List String) (key : String) (v : Json) : Entries → Option Entries :=
  editAt false (addKey path key v) header .header

theorem addKey_taken {key : String} {entries : Entries} (h : Fields.has key entries = true)
    (v : Json) (origin : Origin) : addKey [] key v origin entries = none := by
  simp [addKey, editAt, h]

theorem editAt_value {key : String} {v : Json} {entries : Entries}
    (h : Fields.find? key entries = some (.value v)) (dotted : Bool)
    (f : Origin → Entries → Option Entries) (path : List String) (origin : Origin) :
    editAt dotted f (key :: path) origin entries = none := by
  simp [editAt, h]

end DomainScaffold.Toml
