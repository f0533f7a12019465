import FlowContract.Json.Record
import FlowContract.Proofs.SortedMap

/-!
Records and the values that they are read from and written as. A list of fields is the same record
as the mapping that has them under their names, and what is written of a record has each field under
its name, or nothing there if the field has no value.
-/

namespace FlowContract

open Json (Value)

/-- Under names that differ from each other, the first pair with a name is the only one. -/
theorem SortedMap.find?_ofList_eq_lookup {α : Type} {pairs : List (String × α)}
    (h : (pairs.map Prod.fst).Nodup) (key : String) :
    (ofList pairs).find? key = pairs.lookup key := by
  apply Option.ext
  intro value
  rw [find?_ofList h]
  induction pairs with
  | nil => simp
  | cons head rest ih =>
    obtain ⟨name, content⟩ := head
    obtain ⟨hname, hrest⟩ := List.nodup_cons.mp h
    rw [List.mem_cons, Prod.mk.injEq, List.lookup_cons]
    by_cases hkey : key = name
    · subst hkey
      have hno : (key, value) ∉ rest := fun hmem => hname (List.mem_map.mpr ⟨_, hmem, rfl⟩)
      simp [hno, eq_comm]
    · have hother : (key == name) = false := beq_eq_false_iff_ne.mpr hkey
      simp [hkey, hother, ih hrest]

namespace Json.Value

theorem record?_list {names : List String} {items : List Value} (hnodup : names.Nodup)
    (hlength : items.length ≤ names.length) :
    (list items).record? names true = (ofPairs (names.zip items)).record? names true := by
  have hpairs : ((names.zip items).map Prod.fst).Nodup := by
    rw [List.zip_eq_zip_take_min, List.map_fst_zip (by simp)]
    exact List.Nodup.sublist (List.take_sublist _ _) hnodup
  simp only [record?, ofPairs, Bool.true_or, if_true, hlength]
  refine congrArg some (funext fun name => ?_)
  exact (SortedMap.find?_ofList_eq_lookup hpairs name).symm

theorem get?_ofFields {fields : List (String × Option Value)}
    (hnodup : (fields.map Prod.fst).Nodup) {name : String} {field : Option Value}
    (h : (name, field) ∈ fields) : (ofFields fields).get? name = field := by
  have hwritten := List.Nodup.sublist (SortedMap.sublist_map_fst fields) hnodup
  apply Option.ext
  intro v
  change (SortedMap.ofList _).find? name = some v ↔ _
  rw [SortedMap.find?_ofList hwritten, List.mem_filterMap]
  constructor
  · rintro ⟨⟨other, content⟩, hmem, hpair⟩
    obtain ⟨_, rfl, heq⟩ := Option.map_eq_some_iff.mp hpair
    cases heq
    cases List.inj_on_of_nodup_map hnodup h hmem rfl
    rfl
  · rintro rfl
    exact ⟨_, h, rfl⟩

theorem get?_ofFields_eq_none {fields : List (String × Option Value)}
    (hnodup : (fields.map Prod.fst).Nodup) {name : String} (h : name ∉ fields.map Prod.fst) :
    (ofFields fields).get? name = none := by
  have hsublist := SortedMap.sublist_map_fst fields
  change (SortedMap.ofList _).find? name = none
  rw [SortedMap.find?_eq_none_iff, SortedMap.mem_keys_ofList (List.Nodup.sublist hsublist hnodup)]
  exact fun hmem => h (hsublist.subset hmem)

end Json.Value

end FlowContract
