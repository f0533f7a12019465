/-!
Finite maps from names to values, held in ascending order of the names. The order and the
absence of repetitions are part of the type, so two maps with the same look-ups are equal and
every listing of a map is in order of its keys.
-/

namespace FlowContract

/-- A finite family of values over strictly ascending keys. The values are given by the position
of their key, so that a value type may contain maps of itself. -/
structure SortedMap (α : Type) where
  keys : List String
  sorted : keys.Pairwise (· < ·)
  get : Fin keys.length → α

namespace SortedMap

variable {α β : Type}

def empty : SortedMap α := ⟨[], List.Pairwise.nil, fun i => i.elim0⟩

instance : EmptyCollection (SortedMap α) := ⟨empty⟩

instance : Inhabited (SortedMap α) := ⟨empty⟩

/-- The pairs of the map, in ascending order of their keys. -/
def entries (m : SortedMap α) : List (String × α) :=
  List.ofFn fun i => (m.keys.get i, m.get i)

/-- The values of the map, in the order of their keys. -/
def values (m : SortedMap α) : List α :=
  List.ofFn m.get

def size (m : SortedMap α) : Nat := m.keys.length

/-- The value under a key, if the key is present. -/
def find? (m : SortedMap α) (key : String) : Option α :=
  (m.keys.finIdxOf? key).map m.get

def contains (m : SortedMap α) (key : String) : Bool :=
  m.keys.contains key

theorem map_fst_entries (m : SortedMap α) : m.entries.map Prod.fst = m.keys := by
  simp only [entries, List.map_ofFn]
  exact List.ofFn_getElem

/-- A map from pairs that are in ascending order already. -/
def ofSorted (entries : List (String × α))
    (sorted : (entries.map Prod.fst).Pairwise (· < ·)) : SortedMap α :=
  let values := (entries.map Prod.snd).toArray
  ⟨entries.map Prod.fst, sorted, fun i =>
    have : i.val < values.size := by
      have := i.isLt
      simpa [values] using this
    values[i.val]⟩

theorem entries_ofSorted (entries : List (String × α))
    (sorted : (entries.map Prod.fst).Pairwise (· < ·)) :
    (ofSorted entries sorted).entries = entries := by
  apply List.ext_getElem
  · simp only [ofSorted, SortedMap.entries, List.length_ofFn, List.length_map]
  · intro i hi hi'
    refine (List.getElem_ofFn _).trans (Prod.ext ?_ ?_)
    · exact List.getElem_map Prod.fst
    · exact List.getElem_map Prod.snd

/-- Two maps with the same pairs are the same map: the pairs determine the keys, and the keys
determine which value stands where. -/
theorem ext_entries {m n : SortedMap α} (h : m.entries = n.entries) : m = n := by
  have hkeys : m.keys = n.keys := by rw [← m.map_fst_entries, ← n.map_fst_entries, h]
  obtain ⟨keys, sorted, get⟩ := m
  obtain ⟨keys', sorted', get'⟩ := n
  cases hkeys
  congr 1
  funext i
  have hi := congrArg (fun l => l[i.val]?) h
  simp [entries] at hi
  exact hi

/-- Puts a pair into its place in an ascending list; a pair under the same key is replaced. -/
def insertEntry (key : String) (value : α) : List (String × α) → List (String × α)
  | [] => [(key, value)]
  | (k, v) :: rest =>
    if key < k then (key, value) :: (k, v) :: rest
    else if key = k then (key, value) :: rest
    else (k, v) :: insertEntry key value rest

theorem mem_keys_insertEntry {key k : String} {value : α} {l : List (String × α)} :
    k ∈ (insertEntry key value l).map Prod.fst ↔ k = key ∨ k ∈ l.map Prod.fst := by
  induction l with
  | nil => simp [insertEntry]
  | cons head rest ih =>
    obtain ⟨k', v'⟩ := head
    unfold insertEntry
    split
    · simp
    · split
      · rename_i h
        subst h
        simp
      · simp only [List.map_cons, List.mem_cons, ih]
        constructor
        · rintro (h | h | h)
          · exact .inr (.inl h)
          · exact .inl h
          · exact .inr (.inr h)
        · rintro (h | h | h)
          · exact .inr (.inl h)
          · exact .inl h
          · exact .inr (.inr h)

theorem sorted_insertEntry (key : String) (value : α) {l : List (String × α)}
    (h : (l.map Prod.fst).Pairwise (· < ·)) :
    ((insertEntry key value l).map Prod.fst).Pairwise (· < ·) := by
  induction l with
  | nil => simp [insertEntry]
  | cons head rest ih =>
    obtain ⟨k, v⟩ := head
    simp only [List.map_cons, List.pairwise_cons] at h
    unfold insertEntry
    split
    · rename_i hlt
      simp only [List.map_cons, List.pairwise_cons, List.mem_cons]
      refine ⟨?_, h⟩
      rintro k' (rfl | hk')
      · exact hlt
      · exact String.lt_trans hlt (h.1 k' hk')
    · split
      · rename_i heq
        subst heq
        simpa using h
      · rename_i hnlt hne
        simp only [List.map_cons, List.pairwise_cons]
        refine ⟨?_, ih h.2⟩
        intro k' hk'
        rcases mem_keys_insertEntry.mp hk' with rfl | hk'
        · exact Decidable.byContradiction fun hge =>
            hne (String.le_antisymm (String.not_lt.mp hge) (String.not_lt.mp hnlt))
        · exact h.1 k' hk'

/-- The map with one more pair; a value already under the key gives way. -/
def insert (m : SortedMap α) (key : String) (value : α) : SortedMap α :=
  ofSorted (insertEntry key value m.entries)
    (sorted_insertEntry key value (by rw [m.map_fst_entries]; exact m.sorted))

/-- A map from pairs in any order; of pairs with the same key the last one counts. -/
def ofList (pairs : List (String × α)) : SortedMap α :=
  let ascending := pairs.foldl
    (fun (acc : { l : List (String × α) // (l.map Prod.fst).Pairwise (· < ·) }) pair =>
      ⟨insertEntry pair.1 pair.2 acc.1, sorted_insertEntry pair.1 pair.2 acc.2⟩)
    ⟨[], by simp⟩
  ofSorted ascending.1 ascending.2

def erase (m : SortedMap α) (key : String) : SortedMap α :=
  ofSorted (m.entries.filter fun entry => entry.1 != key)
    (by
      have h : (m.entries.map Prod.fst).Pairwise (· < ·) := by
        rw [m.map_fst_entries]; exact m.sorted
      exact h.sublist ((List.filter_sublist).map _))

/-- Replaces every value, seeing its key. -/
def map (f : String → α → β) (m : SortedMap α) : SortedMap β :=
  ⟨m.keys, m.sorted, fun i => f (m.keys.get i) (m.get i)⟩

/-- Runs an action on every pair in order and keeps the results together with their keys. -/
def traverseEntries {μ : Type → Type} [Monad μ] (f : String → α → μ β) :
    (l : List (String × α)) → μ { r : List (String × β) // r.map Prod.fst = l.map Prod.fst }
  | [] => pure ⟨[], rfl⟩
  | (key, value) :: rest => do
    let result ← f key value
    let results ← traverseEntries f rest
    pure ⟨(key, result) :: results.1, by simp [results.2]⟩

/-- Runs an action on every pair in order of the keys; the results form a map over the same
keys. -/
def traverse {μ : Type → Type} [Monad μ] (f : String → α → μ β) (m : SortedMap α) :
    μ (SortedMap β) := do
  let results ← traverseEntries f m.entries
  pure (ofSorted results.1 (by rw [results.2, m.map_fst_entries]; exact m.sorted))

instance [BEq α] : BEq (SortedMap α) where
  beq m n := m.entries == n.entries

end SortedMap

end FlowContract
