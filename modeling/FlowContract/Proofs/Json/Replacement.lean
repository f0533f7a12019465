import FlowContract.Path
import FlowContract.Proofs.SortedMap

/-!
Documents that differ in one part. The part that stands in a place is replaced by another one, and
all else stays as it is; a mapping in a place gets one key more.
-/

namespace FlowContract

open Json (Value)

namespace SortedMap

variable {α : Type}

theorem mem_keys_insert {m : SortedMap α} {key other : String} {value : α} :
    other ∈ (m.insert key value).keys ↔ other = key ∨ other ∈ m.keys := by
  rw [← map_fst_entries, entries_insert, mem_keys_insertEntry, map_fst_entries]

/-- Maps with the same keys list them alike. -/
theorem keys_eq_of_mem_iff {β : Type} {m : SortedMap α} {n : SortedMap β}
    (h : ∀ key, key ∈ m.keys ↔ key ∈ n.keys) : m.keys = n.keys := by
  have hperm : m.keys.Perm n.keys :=
    (List.perm_ext_iff_of_nodup m.nodup_keys n.nodup_keys).mpr h
  apply hperm.eq_of_pairwise _ m.sorted n.sorted
  intro key other _ _ hlt hgt
  exact absurd (String.lt_trans hlt hgt) (String.lt_irrefl _)

theorem keys_insert_of_mem {m : SortedMap α} {key : String} (h : key ∈ m.keys) (value : α) :
    (m.insert key value).keys = m.keys := by
  apply keys_eq_of_mem_iff
  intro other
  rw [mem_keys_insert]
  constructor
  · rintro (rfl | hother)
    · exact h
    · exact hother
  · exact Or.inr

theorem find?_insert_self (m : SortedMap α) (key : String) (value : α) :
    (m.insert key value).find? key = some value := by
  rw [find?_insert, if_pos rfl]

theorem mem_entries_insert_self (m : SortedMap α) (key : String) (value : α) :
    (key, value) ∈ (m.insert key value).entries :=
  mem_entries_iff.mpr (m.find?_insert_self key value)

theorem find?_insert_of_ne {key other : String} (h : other ≠ key) (m : SortedMap α) (value : α) :
    (m.insert key value).find? other = m.find? other := by
  rw [find?_insert, if_neg h]

/-- Under a key that is there a value is exchanged in its place. -/
theorem entries_insert_of_find? {m : SortedMap α} {key : String} {old : α}
    (h : m.find? key = some old) (value : α) : (m.insert key value).entries =
      m.entries.map fun entry => (entry.1, if entry.1 = key then value else entry.2) := by
  rw [← entries_map fun name v => if name = key then value else v]
  refine congrArg entries (ext_find? fun name => ?_)
  rw [find?_insert, find?_map]
  split
  · rename_i hname
    rw [hname, h, Option.map_some]
  · rw [Option.map_id']

/-- What comes from the entries of a map does not change with a value from which the same comes. -/
theorem flatMap_entries_insert {β : Type} {m : SortedMap α} {key : String} {old value : α}
    {f : String × α → List β} (h : m.find? key = some old) (hf : f (key, value) = f (key, old)) :
    (m.insert key value).entries.flatMap f = m.entries.flatMap f := by
  rw [entries_insert_of_find? h, List.flatMap_map]
  apply List.flatMap_congr
  rintro ⟨name, v⟩ hmem
  by_cases hname : name = key
  · subst hname
    cases h.symm.trans (mem_entries_iff.mp hmem)
    rw [if_pos rfl, hf]
  · rw [if_neg hname]

end SortedMap

/-- What is made of the elements of a list and their positions does not change with an element of
which the same is made. -/
theorem map_zipIdx_set {α β : Type} {l : List α} {i : Nat} {old a : α} {f : α × Nat → β}
    (h : l[i]? = some old) (hf : f (a, i) = f (old, i)) :
    (l.set i a).zipIdx.map f = l.zipIdx.map f := by
  apply List.ext_getElem?
  intro j
  simp only [List.getElem?_map, List.getElem?_zipIdx, Nat.zero_add, List.getElem?_set]
  split
  · rename_i hij
    subst hij
    obtain ⟨hi, rfl⟩ := List.getElem?_eq_some_iff.mp h
    simp [hi, hf]
  · rfl

namespace Json.Value

/-- The document with another part in a place. Where nothing stands, nothing is replaced. -/
def replaceAt : Value → List Segment → Value → Value
  | _, [], new => new
  | mapping entries, .key name :: rest, new =>
    match entries.find? name with
    | some member => .mapping (entries.insert name (member.replaceAt rest new))
    | none => .mapping entries
  | list items, .index position :: rest, new =>
    .list (items.modify position (·.replaceAt rest new))
  | v, _ :: _, _ => v
termination_by structural _ segments => segments

/-- The document with one key more in the mapping in a place. -/
def withKey (v : Value) (path : Path) (key : String) (value : Value) : Value :=
  match path.resolve? v with
  | some (.mapping entries) => v.replaceAt path.segments (.mapping (entries.insert key value))
  | _ => v

variable {v u new : Value} {entries : SortedMap Value} {items : List Value}
  {segments : List Segment}

theorem replaceAt_nil (v new : Value) : v.replaceAt [] new = new := by
  cases v <;> rfl

theorem replaceAt_key {name : String} (hfind : entries.find? name = some u)
    (rest : List Segment) (new : Value) :
    (mapping entries).replaceAt (.key name :: rest) new =
      .mapping (entries.insert name (u.replaceAt rest new)) := by
  simp only [replaceAt, hfind]

theorem replaceAt_index {position : Nat} (hitem : items[position]? = some u)
    (rest : List Segment) (new : Value) :
    (list items).replaceAt (.index position :: rest) new =
      .list (items.set position (u.replaceAt rest new)) := by
  simp only [replaceAt, List.modify_eq_set, hitem, Option.getD_some]

/-! One step on the way to a part. -/

theorem exists_of_resolve?_key {name : String} {rest : List Segment}
    (h : (Path.mk (.key name :: rest)).resolve? v = some u) :
    ∃ entries member, v = .mapping entries ∧ entries.find? name = some member ∧
      (Path.mk rest).resolve? member = some u := by
  rw [Path.resolve?_cons] at h
  obtain ⟨member, hmember, hrest⟩ := Option.bind_eq_some_iff.mp h
  obtain ⟨entries, hentries, hfind⟩ := Option.bind_eq_some_iff.mp hmember
  exact ⟨entries, member, entries?_eq_some_iff.mp hentries, hfind, hrest⟩

theorem exists_of_resolve?_index {position : Nat} {rest : List Segment}
    (h : (Path.mk (.index position :: rest)).resolve? v = some u) :
    ∃ items item, v = .list items ∧ items[position]? = some item ∧
      (Path.mk rest).resolve? item = some u := by
  rw [Path.resolve?_cons] at h
  obtain ⟨item, hitem, hrest⟩ := Option.bind_eq_some_iff.mp h
  obtain ⟨items, hitems, hget⟩ := Option.bind_eq_some_iff.mp hitem
  exact ⟨items, item, items?_eq_some_iff.mp hitems, hget, hrest⟩

/-- To replace a part in a part is to replace the latter by what becomes of it. -/
theorem replaceAt_append {front rest : List Segment}
    (hresolve : (Path.mk front).resolve? v = some u) (new : Value) :
    v.replaceAt (front ++ rest) new = v.replaceAt front (u.replaceAt rest new) := by
  induction front generalizing v with
  | nil =>
    cases hresolve
    rw [List.nil_append, replaceAt_nil]
  | cons segment front ih =>
    cases segment with
    | key name =>
      obtain ⟨entries, member, rfl, hfind, hrest⟩ := exists_of_resolve?_key hresolve
      rw [List.cons_append, replaceAt_key hfind, replaceAt_key hfind, ih hrest]
    | index position =>
      obtain ⟨items, item, rfl, hitem, hrest⟩ := exists_of_resolve?_index hresolve
      rw [List.cons_append, replaceAt_index hitem, replaceAt_index hitem, ih hrest]

theorem isNull_iff : v.isNull = true ↔ v = .null := by
  cases v <;> simp [isNull]

/-- What has parts is not null. -/
theorem ne_null_of_resolve? (hresolve : (Path.mk segments).resolve? v = some u) (hu : u ≠ .null) :
    v ≠ .null := by
  rintro rfl
  cases segments with
  | nil =>
    cases hresolve
    exact hu rfl
  | cons segment rest => cases segment <;> cases hresolve

/-- Replacing a part does not make null of a document. -/
theorem replaceAt_ne_null (hnew : new ≠ .null)
    (hresolve : (Path.mk segments).resolve? v = some u) : v.replaceAt segments new ≠ .null := by
  cases segments with
  | nil =>
    rw [replaceAt_nil]
    exact hnew
  | cons segment rest =>
    cases segment with
    | key name =>
      obtain ⟨entries, member, rfl, hfind, -⟩ := exists_of_resolve?_key hresolve
      rw [replaceAt_key hfind]
      exact nofun
    | index position =>
      obtain ⟨items, item, rfl, hitem, -⟩ := exists_of_resolve?_index hresolve
      rw [replaceAt_index hitem]
      exact nofun

theorem withKey_of_resolve? {path : Path} (hresolve : path.resolve? v = some (.mapping entries))
    (key : String) (value : Value) :
    v.withKey path key value =
      v.replaceAt path.segments (.mapping (entries.insert key value)) := by
  simp only [withKey, hresolve]

end Json.Value

end FlowContract
