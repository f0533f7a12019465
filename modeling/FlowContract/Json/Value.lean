import FlowContract.Json.Number
import FlowContract.SortedMap

/-!
Document values. A mapping holds each key once and in ascending order, whatever the text it was
read from, so a value carries no trace of the order in which its keys were written.
-/

namespace FlowContract.Json

/-- A document, or a part of one. -/
inductive Value where
  | null
  | boolean (value : Bool)
  | number (value : Number)
  | string (value : String)
  | list (items : List Value)
  | mapping (entries : SortedMap Value)

namespace Value

instance : Inhabited Value := ⟨null⟩

/-- Induction over values: what holds of a list or mapping whenever it holds of all its members
holds of every value. -/
@[elab_as_elim, induction_eliminator]
theorem induct {motive : Value → Prop}
    (null : motive .null)
    (boolean : ∀ value, motive (.boolean value))
    (number : ∀ value, motive (.number value))
    (string : ∀ value, motive (.string value))
    (list : ∀ items, (∀ item ∈ items, motive item) → motive (.list items))
    (mapping : ∀ entries : SortedMap Value, (∀ i, motive (entries.get i)) →
      motive (.mapping entries))
    (v : Value) : motive v := by
  refine Value.rec (motive_1 := motive) (motive_2 := fun items => ∀ item ∈ items, motive item)
    (motive_3 := fun entries => ∀ i, motive (entries.get i)) null boolean number string
    (fun items h => list items h) (fun entries h => mapping entries h) ?_ ?_ ?_ v
  · simp
  · intro head tail hhead htail
    simp only [List.mem_cons, forall_eq_or_imp]
    exact ⟨hhead, htail⟩
  · intro keys sorted get h i
    exact h i

/-- The value of a list. -/
def items? : Value → Option (List Value)
  | .list items => some items
  | _ => none

/-- The entries of a mapping. -/
def entries? : Value → Option (SortedMap Value)
  | .mapping entries => some entries
  | _ => none

theorem items?_eq_some_iff {v : Value} {items : List Value} :
    v.items? = some items ↔ v = .list items := by
  cases v <;> simp [items?]

theorem entries?_eq_some_iff {v : Value} {entries : SortedMap Value} :
    v.entries? = some entries ↔ v = .mapping entries := by
  cases v <;> simp [entries?]

def string? : Value → Option String
  | .string value => some value
  | _ => none

def boolean? : Value → Option Bool
  | .boolean value => some value
  | _ => none

def isNull : Value → Bool
  | .null => true
  | _ => false

/-- The value under a key of a mapping; other values have no keys. -/
def get? (v : Value) (key : String) : Option Value :=
  v.entries?.bind (·.find? key)

/-- A mapping from pairs in any order. -/
def ofPairs (pairs : List (String × Value)) : Value := .mapping (.ofList pairs)

def ofNat (n : Nat) : Value := .number (.ofNat n)

def total : List Nat → Nat
  | [] => 0
  | n :: rest => n + total rest

mutual

/-- How many values a value consists of, itself included. -/
def size : Value → Nat
  | .null | .boolean _ | .number _ | .string _ => 1
  | .list items => 1 + sizeItems items
  | .mapping ⟨_, _, get⟩ => 1 + total (List.ofFn fun i => (get i).size)
termination_by structural v => v

def sizeItems : List Value → Nat
  | [] => 0
  | item :: rest => item.size + sizeItems rest
termination_by structural items => items

end

mutual

/-- Equality of documents: members are compared in place, numbers as numbers. -/
def equal : Value → Value → Bool
  | .null, .null => true
  | .boolean a, .boolean b => a == b
  | .number a, .number b => a == b
  | .string a, .string b => a == b
  | .list a, .list b => equalItems a b
  | .mapping ⟨keys, _, get⟩, .mapping ⟨keys', _, get'⟩ =>
    if h : keys = keys' then
      (List.ofFn fun i => (get i).equal (get' (i.cast (congrArg List.length h)))).all id
    else false
  | _, _ => false
termination_by structural v => v

/-- Equality of lists: the same number of elements, equal in place. -/
def equalItems : List Value → List Value → Bool
  | [], [] => true
  | a :: rest, b :: rest' => a.equal b && equalItems rest rest'
  | _, _ => false
termination_by structural items => items

end

instance : BEq Value := ⟨equal⟩

theorem sizeItems_eq (items : List Value) : sizeItems items = total (items.map size) := by
  induction items with
  | nil => rfl
  | cons head tail ih => simp only [sizeItems, List.map_cons, total, ih]

theorem size_pos (v : Value) : 0 < v.size := by
  cases v with
  | null | boolean _ | number _ | string _ => exact Nat.one_pos
  | list items => exact Nat.lt_of_lt_of_le Nat.one_pos (Nat.le_add_right 1 _)
  | mapping entries =>
    obtain ⟨keys, sorted, get⟩ := entries
    exact Nat.lt_of_lt_of_le Nat.one_pos (Nat.le_add_right 1 _)

private theorem le_total_of_mem {n : Nat} {l : List Nat} (h : n ∈ l) : n ≤ total l := by
  induction l with
  | nil => simp at h
  | cons head tail ih =>
    simp only [total]
    rcases List.mem_cons.mp h with rfl | h
    · omega
    · have := ih h
      omega

theorem size_lt_of_mem {item : Value} {items : List Value} (h : item ∈ items) :
    item.size < (list items).size := by
  have hle : item.size ≤ total (items.map size) :=
    le_total_of_mem (List.mem_map_of_mem h)
  simp only [size, sizeItems_eq]
  omega

theorem size_get_lt (entries : SortedMap Value) (i : Fin entries.keys.length) :
    (entries.get i).size < (mapping entries).size := by
  obtain ⟨keys, sorted, get⟩ := entries
  have hle : (get i).size ≤ total (List.ofFn fun i => (get i).size) :=
    le_total_of_mem (List.mem_ofFn.mpr ⟨i, rfl⟩)
  simp only [size]
  omega

end Value

end FlowContract.Json
