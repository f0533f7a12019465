import FlowContract.SortedMap

/-!
Look-ups in maps. A look-up and the listing of a map say the same, and each operation on maps is
known by what it does to look-ups.
-/

namespace FlowContract.SortedMap

variable {α β : Type}

theorem contains_iff {m : SortedMap α} {key : String} : m.contains key = true ↔ key ∈ m.keys :=
  List.contains_iff_mem

theorem isSome_find? (m : SortedMap α) (key : String) :
    (m.find? key).isSome = m.contains key := by
  simp [find?, contains]

/-- A pair is among the entries exactly if its value is found under its key. -/
theorem mem_entries_iff {m : SortedMap α} {key : String} {value : α} :
    (key, value) ∈ m.entries ↔ m.find? key = some value := by
  simp only [entries, List.mem_ofFn, Prod.mk.injEq, find?, Option.map_eq_some_iff,
    List.finIdxOf?_eq_some_iff]
  constructor
  · rintro ⟨i, rfl, rfl⟩
    refine ⟨i, ⟨rfl, fun j hj heq => ?_⟩, rfl⟩
    have h := List.pairwise_iff_getElem.mp m.sorted j i j.isLt i.isLt hj
    exact absurd (heq ▸ h) (String.lt_irrefl _)
  · rintro ⟨i, ⟨hkey, -⟩, hvalue⟩
    exact ⟨i, hkey, hvalue⟩

/-- Putting a pair into its place removes what stood under its key and nothing else. -/
theorem mem_insertEntry_iff {key k : String} {value v : α} {l : List (String × α)}
    (h : (l.map Prod.fst).Pairwise (· < ·)) :
    (k, v) ∈ insertEntry key value l ↔ if k = key then v = value else (k, v) ∈ l := by
  induction l with
  | nil =>
    rw [insertEntry, List.mem_singleton, Prod.mk.injEq]
    split
    · rename_i hk
      exact ⟨And.right, fun hv => ⟨hk, hv⟩⟩
    · rename_i hk
      exact ⟨fun heq => absurd heq.1 hk, fun hmem => absurd hmem List.not_mem_nil⟩
  | cons head rest ih =>
    obtain ⟨k', v'⟩ := head
    obtain ⟨hhead, hrest⟩ := List.pairwise_cons.mp h
    have hbehind (w : α) (hmem : (key, w) ∈ rest) : k' < key :=
      hhead key (List.mem_map_of_mem hmem)
    unfold insertEntry
    split
    · rename_i hlt
      have hno (w : α) : (key, w) ∉ (k', v') :: rest := fun hmem => by
        rcases List.mem_cons.mp hmem with heq | hmem
        · exact String.lt_irrefl _ ((Prod.mk.inj heq).1 ▸ hlt)
        · exact String.lt_irrefl _ (String.lt_trans hlt (hbehind w hmem))
      rw [List.mem_cons, Prod.mk.injEq]
      split
      · rename_i hk
        subst hk
        exact ⟨fun hor => hor.elim And.right fun hmem => absurd hmem (hno v),
          fun hv => .inl ⟨rfl, hv⟩⟩
      · rename_i hk
        exact ⟨fun hor => hor.elim (fun heq => absurd heq.1 hk) id, .inr⟩
    · split
      · rename_i hkey
        subst hkey
        rw [List.mem_cons, Prod.mk.injEq, List.mem_cons, Prod.mk.injEq]
        split
        · rename_i hk
          subst hk
          exact ⟨fun hor => hor.elim And.right fun hmem =>
            absurd (hbehind v hmem) (String.lt_irrefl _), fun hv => .inl ⟨rfl, hv⟩⟩
        · rename_i hk
          exact ⟨fun hor => hor.elim (fun heq => absurd heq.1 hk) .inr,
            fun hor => hor.elim (fun heq => absurd heq.1 hk) .inr⟩
      · rename_i hne
        rw [List.mem_cons, Prod.mk.injEq, ih hrest, List.mem_cons, Prod.mk.injEq]
        split
        · rename_i hk
          subst hk
          exact ⟨fun hor => hor.elim (fun heq => absurd heq.1 hne) id, .inr⟩
        · exact Iff.rfl

theorem entries_insert (m : SortedMap α) (key : String) (value : α) :
    (m.insert key value).entries = insertEntry key value m.entries :=
  entries_ofSorted _ _

/-- An insertion is seen under its key, and nowhere else. -/
theorem find?_insert (m : SortedMap α) (key key' : String) (value : α) :
    (m.insert key value).find? key' = if key' = key then some value else m.find? key' := by
  apply Option.ext
  intro v
  rw [← mem_entries_iff, entries_insert, mem_insertEntry_iff (m.map_fst_entries ▸ m.sorted)]
  split
  · exact ⟨fun hv => congrArg some hv.symm, fun hv => (Option.some.inj hv).symm⟩
  · exact mem_entries_iff

theorem entries_erase (m : SortedMap α) (key : String) :
    (m.erase key).entries = m.entries.filter fun entry => entry.1 != key :=
  entries_ofSorted _ _

/-- An erased key is not found; the others stay. -/
theorem find?_erase (m : SortedMap α) (key key' : String) :
    (m.erase key).find? key' = if key' = key then none else m.find? key' := by
  apply Option.ext
  intro v
  rw [← mem_entries_iff, entries_erase, List.mem_filter, mem_entries_iff]
  split
  · rename_i hkey
    exact ⟨fun hand => absurd hkey (bne_iff_ne.mp hand.2), nofun⟩
  · rename_i hkey
    exact ⟨And.left, fun hfind => ⟨hfind, bne_iff_ne.mpr hkey⟩⟩

theorem entries_map (f : String → α → β) (m : SortedMap α) :
    (m.map f).entries = m.entries.map fun entry => (entry.1, f entry.1 entry.2) := by
  simp only [map, entries, List.map_ofFn]
  rfl

/-- A replaced value is found where the old one was. -/
theorem find?_map (f : String → α → β) (m : SortedMap α) (key : String) :
    (m.map f).find? key = (m.find? key).map (f key) := by
  simp only [find?, map, Option.map_map]
  cases h : m.keys.finIdxOf? key with
  | none => rfl
  | some i =>
    have hkey : m.keys.get i = key := (List.finIdxOf?_eq_some_iff.mp h).1
    exact congrArg some (congrArg (f · (m.get i)) hkey)

end FlowContract.SortedMap
