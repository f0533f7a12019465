import FlowContract.Json.Value

/-!
Records in documents: values with named fields, written as a mapping or, without the names, as the
list of the fields in the order in which they are declared.
-/

namespace FlowContract.Json

/-- What stands under each name of a record. -/
abbrev Record := String → Option Value

namespace Record

/-- A field that has to be there. -/
def required {α : Type} (record : Record) (name : String) (decode : Value → Option α) :
    Option α :=
  (record name).bind decode

/-- A field that may be missing; null counts as missing. -/
def optional {α : Type} (record : Record) (name : String) (decode : Value → Option α) :
    Option (Option α) :=
  match record name with
  | none | some .null => some none
  | some v => (decode v).map some

end Record

namespace Value

/-- Reads a value as a record with the given names. A mapping may have further keys only if the
record is open; a list may break off early but not go on behind the last name. -/
def record? (names : List String) (isOpen : Bool) : Value → Option Record
  | .mapping entries =>
    if isOpen || entries.keys.all names.contains then some entries.find? else none
  | .list items =>
    if items.length ≤ names.length then some fun name => (names.zip items).lookup name else none
  | _ => none

/-- Reads a list, all of whose elements have to be readable. -/
def listOf? {α : Type} (decode : Value → Option α) (v : Value) : Option (List α) :=
  v.items?.bind fun items => items.mapM decode

/-- Reads a mapping with arbitrary keys, all of whose values have to be readable. -/
def mapOf? {α : Type} (decode : Value → Option α) (v : Value) : Option (SortedMap α) :=
  v.entries?.bind fun entries => entries.traverse fun _ value => decode value

/-- The list of strings as a value. -/
def ofStrings (names : List String) : Value := .list (names.map .string)

/-- A record as a mapping; fields without a value are left out. -/
def ofFields (fields : List (String × Option Value)) : Value :=
  .ofPairs (fields.filterMap fun (name, value) => value.map (name, ·))

end Value

end FlowContract.Json
