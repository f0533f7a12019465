import FlowContract.Proofs.Json.Reading
import Mathlib.Data.List.Perm.Basic

/-!
Documents that differ in the order of members only, at any depth.
-/

namespace FlowContract.Json

/-- Members under the same name. -/
inductive Named {α : Type} (alike : α → α → Prop) : String × α → String × α → Prop
  | intro (name : String) {a a' : α} (values : alike a a') : Named alike (name, a) (name, a')

/-- The same documents but for the order of members. -/
inductive Reordered : Document → Document → Prop
  | null : Reordered .null .null
  | boolean (value : Bool) : Reordered (.boolean value) (.boolean value)
  | number (value : Option Number) : Reordered (.number value) (.number value)
  | string (value : String) : Reordered (.string value) (.string value)
  | list {items items' : List Document} (elements : List.Forall₂ Reordered items items') :
      Reordered (.list items) (.list items')
  | mapping {members arranged members' : List (String × Document)}
      (entries : List.Forall₂ (Named Reordered) members arranged)
      (order : arranged.Perm members') : Reordered (.mapping members) (.mapping members')

/-- Lists that agree element by element once one of them has been rearranged. -/
def Matching {α : Type} (alike : α → α → Prop) (l l' : List α) : Prop :=
  ∃ arranged, List.Forall₂ alike l arranged ∧ arranged.Perm l'

theorem forall₂_flip_of_mem {α : Type} {alike : α → α → Prop} {l l' : List α}
    (hsymm : ∀ a ∈ l, ∀ a', alike a a' → alike a' a) (h : List.Forall₂ alike l l') :
    List.Forall₂ alike l' l := by
  induction h with
  | nil => exact .nil
  | cons hhead _ ih =>
    exact .cons (hsymm _ List.mem_cons_self _ hhead)
      (ih fun a ha => hsymm a (List.mem_cons_of_mem _ ha))

namespace Matching

variable {α : Type} {alike : α → α → Prop} {l l' : List α}

theorem symm (hsymm : ∀ a ∈ l, ∀ a', alike a a' → alike a' a) (h : Matching alike l l') :
    Matching alike l' l := by
  obtain ⟨arranged, hagree, horder⟩ := h
  obtain ⟨middle, hmiddle, hperm⟩ :=
    List.perm_comp_forall₂ horder.symm (forall₂_flip_of_mem hsymm hagree)
  exact ⟨middle, hmiddle, hperm⟩

/-- What holds of all elements of one list holds of all elements of the other one. -/
theorem forall_mem_iff (h : Matching alike l l') {holds : α → Prop}
    (hiff : ∀ a ∈ l, ∀ a', alike a a' → (holds a ↔ holds a')) :
    (∀ a ∈ l, holds a) ↔ ∀ a ∈ l', holds a := by
  obtain ⟨arranged, hagree, horder⟩ := h
  simp only [← horder.mem_iff]
  clear horder
  induction hagree with
  | nil => simp
  | cons hhead _ ih =>
    simp only [List.forall_mem_cons, hiff _ List.mem_cons_self _ hhead,
      ih fun a ha => hiff a (List.mem_cons_of_mem _ ha)]

theorem eq_nil_iff (h : Matching alike l l') : l = [] ↔ l' = [] := by
  obtain ⟨arranged, hagree, horder⟩ := h
  rw [← List.length_eq_zero_iff, ← List.length_eq_zero_iff, hagree.length_eq, horder.length_eq]

end Matching

namespace Reordered

variable {document document' : Document}

theorem refl (document : Document) : Reordered document document := by
  induction document with
  | null => exact .null
  | boolean value => exact .boolean value
  | number value => exact .number value
  | string value => exact .string value
  | list items ih => exact .list (List.forall₂_same.mpr ih)
  | mapping members ih =>
    exact .mapping (List.forall₂_same.mpr fun member hmem => .intro member.1 (ih member hmem))
      (.refl _)

theorem symm (h : Reordered document document') : Reordered document' document := by
  induction document generalizing document' with
  | null | boolean | number | string =>
    cases h
    exact refl _
  | list items ih =>
    cases h with
    | list elements => exact .list (forall₂_flip_of_mem (fun item hmem _ => ih item hmem) elements)
  | mapping members ih =>
    cases h with
    | mapping entries order =>
      have hsymm : ∀ member ∈ members, ∀ member', Named Reordered member member' →
          Named Reordered member' member := by
        rintro _ hmem _ ⟨name, values⟩
        exact .intro name (ih _ hmem values)
      obtain ⟨arranged, hagree, horder⟩ := Matching.symm hsymm ⟨_, entries, order⟩
      exact .mapping hagree horder

theorem empty (h : Reordered (.mapping []) document) : document = .mapping [] := by
  cases h with
  | mapping entries order =>
    cases entries
    obtain rfl := List.nil_perm.mp order
    rfl

theorem single {name : String} {item : Document}
    (h : Reordered (.mapping [(name, item)]) document) :
    ∃ item', document = .mapping [(name, item')] ∧ Reordered item item' := by
  cases h with
  | mapping entries order =>
    cases entries with
    | cons hhead htail =>
      obtain ⟨_, values⟩ := hhead
      cases htail
      obtain rfl := List.singleton_perm.mp order
      exact ⟨_, rfl, values⟩

/-- The order of members does not matter to a reader. -/
theorem readable_iff (h : Reordered document document') (nesting : Nat) :
    document.Readable nesting ↔ document'.Readable nesting := by
  induction document generalizing document' nesting with
  | null | boolean | number | string =>
    cases h
    rfl
  | list items ih =>
    cases h with
    | list elements =>
      cases nesting with
      | zero => simp [Document.Readable, Document.depth]
      | succ nesting =>
        rw [Document.readable_list_iff, Document.readable_list_iff]
        exact Matching.forall_mem_iff ⟨_, elements, .refl _⟩
          fun item hitem _ halike => ih item hitem halike nesting
  | mapping members ih =>
    cases h with
    | mapping entries order =>
      cases nesting with
      | zero => simp [Document.Readable, Document.depth]
      | succ nesting =>
        rw [Document.readable_mapping_iff, Document.readable_mapping_iff]
        refine Matching.forall_mem_iff ⟨_, entries, order⟩ ?_
        rintro _ hmem _ ⟨name, values⟩
        exact ih _ hmem values nesting

end Reordered

end FlowContract.Json
