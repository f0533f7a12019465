import FlowContract.Json.Value
import FlowContract.Proofs.SortedMap

/-!
Documents without their nulls. A format names the places where null stands for nothing. What is
left of a document without the nulls in those places is said here, by recursion on the document
and with the places as the only knowledge of the format.
-/

namespace FlowContract

open Json (Value)

/-- A step from a value to members of it. -/
inductive Step where
  | key (name : String)
  | anyKey
  | anyIndex

/-- A place that the documents of a format have. The place without steps is the document. -/
abbrev Place := List Step

namespace Place

/-- The places as they are seen from the member under a key. -/
def under (places : List Place) (name : String) : List Place :=
  places.filterMap fun
    | .key other :: rest => if other = name then some rest else none
    | .anyKey :: rest => some rest
    | _ => none

/-- The places as they are seen from the elements of a list. -/
def inItems (places : List Place) : List Place :=
  places.filterMap fun
    | .anyIndex :: rest => some rest
    | _ => none

def behind (step : Step) (places : List Place) : List Place := places.map (step :: ·)

/-- Whether the document itself is among the places. -/
def here (places : List Place) : Bool := places.any List.isEmpty

@[simp] theorem under_nil (name : String) : under [] name = [] := rfl

@[simp] theorem under_cons_nil (places : List Place) (name : String) :
    under ([] :: places) name = under places name := rfl

@[simp] theorem under_cons_key (rest : Place) (places : List Place) (name other : String) :
    under ((.key other :: rest) :: places) name =
      if other = name then rest :: under places name else under places name := by
  by_cases hname : other = name <;> simp [under, hname]

@[simp] theorem under_append (places others : List Place) (name : String) :
    under (places ++ others) name = under places name ++ under others name :=
  List.filterMap_append

@[simp] theorem under_behind_key (places : List Place) (name other : String) :
    under (behind (.key other) places) name = if other = name then places else [] := by
  unfold under behind
  rw [List.filterMap_map]
  split
  · rename_i hname
    simp [hname]
  · rename_i hname
    simp [hname]

@[simp] theorem under_behind_anyKey (places : List Place) (name : String) :
    under (behind .anyKey places) name = places := by
  simp [under, behind, List.filterMap_map]

@[simp] theorem inItems_behind_anyIndex (places : List Place) :
    inItems (behind .anyIndex places) = places := by
  simp [inItems, behind, List.filterMap_map]

end Place

namespace Json.Value

mutual

/-- A value without the nulls that are members of mappings in some places. All else stays. -/
def withoutNulls : Value → List Place → Value
  | .list items, places => .list (itemsWithoutNulls items (Place.inItems places))
  | .mapping ⟨keys, sorted, get⟩, places => .mapping <| SortedMap.compact ⟨keys, sorted, fun i =>
      let places := Place.under places (keys.get i)
      if (get i).isNull && Place.here places then none else some ((get i).withoutNulls places)⟩
  | .null, _ => .null
  | .boolean value, _ => .boolean value
  | .number value, _ => .number value
  | .string value, _ => .string value
termination_by structural v => v

def itemsWithoutNulls : List Value → List Place → List Value
  | [], _ => []
  | item :: rest, places => item.withoutNulls places :: itemsWithoutNulls rest places
termination_by structural items => items

end

/-- What is left of a member that is seen with some places: nothing of a null in one of them. -/
def kept (v : Value) (places : List Place) : Option Value :=
  if v.isNull && Place.here places then none else some (v.withoutNulls places)

theorem itemsWithoutNulls_eq (items : List Value) (places : List Place) :
    itemsWithoutNulls items places = items.map (withoutNulls · places) := by
  induction items with
  | nil => rfl
  | cons head rest ih => simp only [itemsWithoutNulls, List.map_cons, ih]

theorem withoutNulls_list (items : List Value) (places : List Place) :
    (list items).withoutNulls places =
      .list (items.map (withoutNulls · (Place.inItems places))) := by
  rw [withoutNulls, itemsWithoutNulls_eq]

def entriesWithoutNulls (entries : SortedMap Value) (places : List Place) : SortedMap Value :=
  (entries.map fun key v => v.kept (Place.under places key)).compact

theorem withoutNulls_mapping (entries : SortedMap Value) (places : List Place) :
    (mapping entries).withoutNulls places = .mapping (entriesWithoutNulls entries places) := by
  obtain ⟨keys, sorted, get⟩ := entries
  rfl

theorem find?_entriesWithoutNulls (entries : SortedMap Value) (places : List Place)
    (key : String) :
    (entriesWithoutNulls entries places).find? key =
      (entries.find? key).bind (·.kept (Place.under places key)) := by
  rw [entriesWithoutNulls, SortedMap.find?_compact, SortedMap.find?_map]
  cases entries.find? key <;> rfl

theorem mem_keys_of_entriesWithoutNulls {entries : SortedMap Value} {places : List Place}
    {key : String} (h : key ∈ (entriesWithoutNulls entries places).keys) : key ∈ entries.keys := by
  obtain ⟨v, hv⟩ := SortedMap.mem_keys_iff.mp h
  rw [find?_entriesWithoutNulls] at hv
  obtain ⟨u, hu, -⟩ := Option.bind_eq_some_iff.mp hv
  exact SortedMap.mem_keys_iff.mpr ⟨u, hu⟩

theorem kept_of_ne_null {v : Value} (h : v ≠ .null) (places : List Place) :
    v.kept places = some (v.withoutNulls places) := by
  cases v <;> first | exact absurd rfl h | rfl

/-- That the value itself is among the places says nothing about its members. -/
theorem withoutNulls_here (v : Value) (places : List Place) :
    v.withoutNulls ([] :: places) = v.withoutNulls places := by
  cases v with
  | mapping entries => rw [withoutNulls_mapping, withoutNulls_mapping]; rfl
  | list items => rw [withoutNulls_list, withoutNulls_list]; rfl
  | _ => rfl

/-- A mapping none of whose members is seen with a place keeps them all, and keeps them whole. -/
theorem entriesWithoutNulls_eq_self {entries : SortedMap Value} {places : List Place}
    (h : ∀ key v, entries.find? key = some v → v.kept (Place.under places key) = some v) :
    entriesWithoutNulls entries places = entries := by
  apply SortedMap.ext_find?
  intro key
  rw [find?_entriesWithoutNulls]
  cases hfind : entries.find? key with
  | none => rfl
  | some v => exact h key v hfind

/-- Without places nothing is left out, at any depth. -/
@[simp] theorem withoutNulls_nil (v : Value) : v.withoutNulls [] = v := by
  induction v with
  | list items ih =>
    rw [withoutNulls_list]
    exact congrArg list ((List.map_congr_left ih).trans (List.map_id' items))
  | mapping entries ih =>
    rw [withoutNulls_mapping, entriesWithoutNulls_eq_self]
    intro key v hfind
    obtain ⟨i, -, rfl⟩ := SortedMap.find?_eq_some_iff.mp hfind
    simp only [kept, Place.under_nil, Place.here, List.any_nil, Bool.and_false, ih i]
    rfl
  | _ => rfl

end Json.Value

end FlowContract
