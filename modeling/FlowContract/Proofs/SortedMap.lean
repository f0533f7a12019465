import FlowContract.SortedMap.Lookup
import Mathlib.Data.List.Forall2
import Mathlib.Data.List.Induction
import Mathlib.Data.List.Nodup
import Mathlib.Data.List.Perm.Basic

/-!
Maps as families of look-ups: which map a list of pairs makes, what is left of a map whose values
may be missing, and what comes of an action on every value.
-/

namespace FlowContract.SortedMap

variable {α β ε : Type}

theorem nodup_keys (m : SortedMap α) : m.keys.Nodup := by
  apply List.Pairwise.imp _ m.sorted
  intro key key' hlt heq
  exact String.lt_irrefl _ (heq ▸ hlt)

theorem find?_get (m : SortedMap α) (i : Fin m.keys.length) :
    m.find? (m.keys.get i) = some (m.get i) :=
  mem_entries_iff.mp (List.mem_ofFn.mpr ⟨i, rfl⟩)

theorem find?_eq_some_iff {m : SortedMap α} {key : String} {value : α} :
    m.find? key = some value ↔ ∃ i, m.keys.get i = key ∧ m.get i = value := by
  rw [← mem_entries_iff]
  simp only [entries, List.mem_ofFn, Prod.mk.injEq]

theorem mem_keys_iff {m : SortedMap α} {key : String} :
    key ∈ m.keys ↔ ∃ value, m.find? key = some value := by
  rw [← contains_iff, ← isSome_find?, Option.isSome_iff_exists]

theorem find?_eq_none_iff {m : SortedMap α} {key : String} :
    m.find? key = none ↔ key ∉ m.keys := by
  rw [mem_keys_iff, Option.eq_none_iff_forall_ne_some, not_exists]

/-- Maps are known by their look-ups. -/
theorem ext_find? {m n : SortedMap α} (h : ∀ key, m.find? key = n.find? key) : m = n := by
  apply ext_entries
  have hnodup (m : SortedMap α) : m.entries.Nodup := by
    apply List.Nodup.of_map Prod.fst
    rw [m.map_fst_entries]
    exact m.nodup_keys
  have hsorted (m : SortedMap α) : m.entries.Pairwise (·.1 < ·.1) := by
    rw [← List.pairwise_map (f := Prod.fst) (R := (· < ·)), m.map_fst_entries]
    exact m.sorted
  have hperm : m.entries.Perm n.entries := by
    rw [List.perm_ext_iff_of_nodup (hnodup m) (hnodup n)]
    rintro ⟨key, value⟩
    rw [mem_entries_iff, mem_entries_iff, h]
  refine hperm.eq_of_pairwise ?_ (hsorted m) (hsorted n)
  intro a b _ _ hab hba
  exact absurd (String.lt_trans hab hba) (String.lt_irrefl _)

theorem ofList_concat (pairs : List (String × α)) (key : String) (value : α) :
    ofList (pairs ++ [(key, value)]) = (ofList pairs).insert key value := by
  apply ext_entries
  rw [entries_insert]
  unfold ofList
  simp only [List.foldl_append, List.foldl_cons, List.foldl_nil, entries_ofSorted]

/-- Under names that differ from each other, every pair is found. -/
theorem find?_ofList {pairs : List (String × α)} (h : (pairs.map Prod.fst).Nodup) {key : String}
    {value : α} : (ofList pairs).find? key = some value ↔ (key, value) ∈ pairs := by
  -- A pair overwrites those in front of it, so the list is taken apart from its end.
  induction pairs using List.reverseRecOn with
  | nil => exact ⟨nofun, nofun⟩
  | append_singleton pairs last ih =>
    obtain ⟨name, content⟩ := last
    rw [List.map_append, List.map_singleton, List.nodup_append] at h
    obtain ⟨hnodup, -, hfresh⟩ := h
    rw [ofList_concat, find?_insert, List.mem_append, List.mem_singleton, Prod.mk.injEq]
    split
    · rename_i hkey
      subst hkey
      have hno : (key, value) ∉ pairs := by
        intro hmem
        exact hfresh key (List.mem_map_of_mem hmem) key List.mem_cons_self rfl
      simp [hno, eq_comm]
    · rename_i hkey
      rw [ih hnodup]
      simp [hkey]

theorem mem_keys_ofList {pairs : List (String × α)} (h : (pairs.map Prod.fst).Nodup)
    {key : String} : key ∈ (ofList pairs).keys ↔ key ∈ pairs.map Prod.fst := by
  rw [mem_keys_iff, List.mem_map]
  constructor
  · rintro ⟨value, hfind⟩
    exact ⟨(key, value), (find?_ofList h).mp hfind, rfl⟩
  · rintro ⟨⟨name, value⟩, hmem, rfl⟩
    exact ⟨value, (find?_ofList h).mpr hmem⟩

theorem sublist_map_fst (l : List (String × Option α)) :
    ((l.filterMap fun (key, value) => value.map (key, ·)).map Prod.fst).Sublist
      (l.map Prod.fst) := by
  induction l with
  | nil => exact .slnil
  | cons head rest ih =>
    obtain ⟨key, value⟩ := head
    cases value with
    | none => exact .cons key ih
    | some value => exact .cons_cons key ih

/-- The map of the values that are there. -/
def compact (m : SortedMap (Option α)) : SortedMap α :=
  ofSorted (m.entries.filterMap fun (key, value) => value.map (key, ·)) (by
    have hsorted : (m.entries.map Prod.fst).Pairwise (· < ·) := by
      rw [m.map_fst_entries]
      exact m.sorted
    exact hsorted.sublist (sublist_map_fst m.entries))

theorem find?_compact (m : SortedMap (Option α)) (key : String) :
    m.compact.find? key = (m.find? key).join := by
  apply Option.ext
  intro value
  rw [← mem_entries_iff, compact, entries_ofSorted, List.mem_filterMap, Option.join_eq_some_iff,
    ← mem_entries_iff]
  constructor
  · rintro ⟨⟨name, content⟩, hmem, hpair⟩
    obtain ⟨_, rfl, heq⟩ := Option.map_eq_some_iff.mp hpair
    cases heq
    exact hmem
  · intro hmem
    exact ⟨_, hmem, rfl⟩

theorem find?_compact_map (m : SortedMap α) (part : String → α → Option β) (key : String) :
    (m.map part).compact.find? key = (m.find? key).bind (part key) := by
  rw [find?_compact, find?_map]
  cases m.find? key <;> rfl

/-- What is picked out of the entries of a map is again a map. -/
theorem entries_compact_map (m : SortedMap α) (part : String → α → Option β) :
    (m.map part).compact.entries =
      m.entries.filterMap fun entry => (part entry.1 entry.2).map (entry.1, ·) := by
  rw [compact, entries_ofSorted, entries_map, List.filterMap_map]
  rfl

section Monad

variable {μ : Type → Type} [Monad μ] [LawfulMonad μ]

theorem traverseEntries_eq_pure {f : String → α → μ β} {l : List (String × α)}
    (results : { r : List (String × β) // r.map Prod.fst = l.map Prod.fst })
    (h : List.Forall₂ (fun entry result => f entry.1 entry.2 = pure result.2) l results.1) :
    traverseEntries f l = pure results := by
  obtain ⟨results, hkeys⟩ := results
  induction l generalizing results with
  | nil =>
    cases h
    rfl
  | cons head rest ih =>
    obtain ⟨key, value⟩ := head
    cases h with
    | @cons _ result _ others hhead hrest =>
      obtain ⟨name, b⟩ := result
      obtain ⟨rfl, hothers⟩ := List.cons.inj hkeys
      rw [traverseEntries, hhead, pure_bind, ih others hothers hrest, pure_bind]

theorem traverse_eq_pure {f : String → α → μ β} {m : SortedMap α} {result : Fin m.keys.length → β}
    (h : ∀ i, f (m.keys.get i) (m.get i) = pure (result i)) :
    m.traverse f = pure ⟨m.keys, m.sorted, result⟩ := by
  let target : SortedMap β := ⟨m.keys, m.sorted, result⟩
  have hkeys : target.entries.map Prod.fst = m.entries.map Prod.fst := by
    rw [map_fst_entries, map_fst_entries]
  have hentries : List.Forall₂ (fun entry result => f entry.1 entry.2 = pure result.2)
      m.entries target.entries := by
    rw [List.forall₂_iff_get]
    simp only [entries, List.length_ofFn, List.get_eq_getElem, List.getElem_ofFn]
    exact ⟨rfl, fun i hi _ => h ⟨i, hi⟩⟩
  have htraverse := traverseEntries_eq_pure ⟨target.entries, hkeys⟩ hentries
  rw [traverse, htraverse, pure_bind]
  exact congrArg pure (ext_entries (entries_ofSorted _ _))

end Monad

theorem traverseEntries_eq_some {f : String → α → Option β} {l : List (String × α)}
    {results : { r : List (String × β) // r.map Prod.fst = l.map Prod.fst }}
    (h : traverseEntries f l = some results) : ∀ entry ∈ l, ∃ b, f entry.1 entry.2 = some b := by
  induction l with
  | nil => exact nofun
  | cons head rest ih =>
    obtain ⟨b, hhead, h⟩ := Option.bind_eq_some_iff.mp h
    obtain ⟨others, hrest, -⟩ := Option.bind_eq_some_iff.mp h
    exact List.forall_mem_cons.mpr ⟨⟨b, hhead⟩, ih hrest⟩

/-- An action that may fail has a result for a map if it has one for each of its values. -/
theorem traverse_eq_some_iff {f : String → α → Option β} {m : SortedMap α}
    {results : SortedMap β} : m.traverse f = some results ↔
      results.keys = m.keys ∧ ∀ key, results.find? key = (m.find? key).bind (f key) := by
  have hresults {result : Fin m.keys.length → β}
      (hresult : ∀ i, f (m.keys.get i) (m.get i) = some (result i)) (key : String) :
      (mk m.keys m.sorted result).find? key = (m.find? key).bind (f key) := by
    cases hfind : m.find? key with
    | none =>
      rw [find?_eq_none_iff] at hfind
      exact find?_eq_none_iff.mpr hfind
    | some value =>
      obtain ⟨i, rfl, rfl⟩ := find?_eq_some_iff.mp hfind
      rw [Option.bind_some, hresult]
      exact (mk m.keys m.sorted result).find?_get i
  constructor
  · intro h
    obtain ⟨_, hentries, -⟩ := Option.bind_eq_some_iff.mp h
    choose result hresult using fun i =>
      traverseEntries_eq_some hentries _ (mem_entries_iff.mpr (m.find?_get i))
    cases h.symm.trans (traverse_eq_pure hresult)
    exact ⟨rfl, hresults hresult⟩
  · rintro ⟨hkeys, hfind⟩
    have hread (i : Fin m.keys.length) : ∃ b, f (m.keys.get i) (m.get i) = some b := by
      have hkey : m.keys.get i ∈ results.keys := by
        rw [hkeys]
        exact List.get_mem m.keys i
      obtain ⟨b, hb⟩ := mem_keys_iff.mp hkey
      rw [hfind, find?_get] at hb
      exact ⟨b, hb⟩
    choose result hresult using hread
    rw [traverse_eq_pure hresult]
    refine congrArg some (ext_find? fun key => ?_)
    rw [hresults hresult, hfind]

theorem traverseEntries_eq_ok {f : String → α → Except ε β} {l : List (String × α)}
    {results : { r : List (String × β) // r.map Prod.fst = l.map Prod.fst }}
    (h : traverseEntries f l = .ok results) : ∀ entry ∈ l, ∃ b, f entry.1 entry.2 = .ok b := by
  induction l with
  | nil => exact nofun
  | cons head rest ih =>
    obtain ⟨key, value⟩ := head
    rw [traverseEntries] at h
    cases hhead : f key value with
    | error error =>
      rw [hhead] at h
      cases h
    | ok b =>
      rw [hhead] at h
      cases hrest : traverseEntries f rest with
      | error error =>
        simp only [hrest, bind, Except.bind] at h
        cases h
      | ok others =>
        intro entry hentry
        rcases List.mem_cons.mp hentry with rfl | hentry
        · exact ⟨b, hhead⟩
        · exact ih hrest entry hentry

theorem traverseEntries_cons_eq_error_iff {f : String → α → Except ε β} {key : String} {value : α}
    {rest : List (String × α)} {error : ε} :
    traverseEntries f ((key, value) :: rest) = .error error ↔
      f key value = .error error ∨
        (∃ b, f key value = .ok b) ∧ traverseEntries f rest = .error error := by
  rw [traverseEntries]
  cases hhead : f key value with
  | error error' => simp [bind, Except.bind]
  | ok b =>
    cases hrest : traverseEntries f rest with
    | error error' => simp [bind, Except.bind]
    | ok others => simp [bind, Except.bind, pure, Except.pure]

/-- An action that fails on pairs in ascending order has failed so on the first that it fails on. -/
theorem traverseEntries_eq_error_iff {f : String → α → Except ε β} {l : List (String × α)}
    {error : ε} (hsorted : (l.map Prod.fst).Pairwise (· < ·)) :
    traverseEntries f l = .error error ↔ ∃ key value, (key, value) ∈ l ∧
      f key value = .error error ∧
      ∀ earlier value', (earlier, value') ∈ l → earlier < key → ∃ b, f earlier value' = .ok b := by
  induction l with
  | nil => simp [traverseEntries, pure, Except.pure]
  | cons head rest ih =>
    obtain ⟨first, content⟩ := head
    obtain ⟨hfirst, hrest⟩ := List.pairwise_cons.mp hsorted
    have hbehind {key : String} {value : α} (hmem : (key, value) ∈ rest) : first < key :=
      hfirst key (List.mem_map_of_mem hmem)
    rw [traverseEntries_cons_eq_error_iff, ih hrest]
    constructor
    · rintro (herror | ⟨hok, key, value, hmem, herror, hearlier⟩)
      · refine ⟨first, content, List.mem_cons_self, herror, ?_⟩
        intro earlier value' hmem hlt
        rcases List.mem_cons.mp hmem with heq | hmem
        · cases heq
          exact absurd hlt (String.lt_irrefl _)
        · exact absurd (String.lt_trans hlt (hbehind hmem)) (String.lt_irrefl _)
      · refine ⟨key, value, List.mem_cons_of_mem _ hmem, herror, ?_⟩
        intro earlier value' hmem' hlt
        rcases List.mem_cons.mp hmem' with heq | hmem'
        · cases heq
          exact hok
        · exact hearlier earlier value' hmem' hlt
    · rintro ⟨key, value, hmem, herror, hearlier⟩
      rcases List.mem_cons.mp hmem with heq | hmem
      · cases heq
        exact .inl herror
      · refine .inr ⟨hearlier first content List.mem_cons_self (hbehind hmem), ?_⟩
        refine ⟨key, value, hmem, herror, ?_⟩
        intro earlier value' hmem'
        exact hearlier earlier value' (List.mem_cons_of_mem _ hmem')

theorem traverse_eq_ok {f : String → α → Except ε β} {m : SortedMap α} {results : SortedMap β}
    (h : m.traverse f = .ok results) :
    ∃ result : Fin m.keys.length → β, (∀ i, f (m.keys.get i) (m.get i) = .ok (result i)) ∧
      results = ⟨m.keys, m.sorted, result⟩ := by
  have hall (i : Fin m.keys.length) : ∃ b, f (m.keys.get i) (m.get i) = .ok b := by
    unfold traverse at h
    cases hentries : traverseEntries f m.entries with
    | error error =>
      rw [hentries] at h
      cases h
    | ok _ => exact traverseEntries_eq_ok hentries _ (List.mem_ofFn.mpr ⟨i, rfl⟩)
  choose result hresult using hall
  refine ⟨result, hresult, ?_⟩
  rw [traverse_eq_pure hresult] at h
  exact (Except.ok.inj h).symm

/-- An action that fails on a map has failed so on the value under the least key that it fails on.
-/
theorem traverse_eq_error_iff {f : String → α → Except ε β} {m : SortedMap α} {error : ε} :
    m.traverse f = .error error ↔ ∃ key value, m.find? key = some value ∧
      f key value = .error error ∧
      ∀ earlier value', m.find? earlier = some value' → earlier < key →
        ∃ b, f earlier value' = .ok b := by
  have hentries : m.traverse f = .error error ↔ traverseEntries f m.entries = .error error := by
    unfold traverse
    cases traverseEntries f m.entries with
    | error error' => simp [bind, Except.bind]
    | ok results => simp [bind, Except.bind, pure, Except.pure]
  have hsorted : (m.entries.map Prod.fst).Pairwise (· < ·) := by
    rw [m.map_fst_entries]
    exact m.sorted
  rw [hentries, traverseEntries_eq_error_iff hsorted]
  simp only [mem_entries_iff]

end FlowContract.SortedMap
