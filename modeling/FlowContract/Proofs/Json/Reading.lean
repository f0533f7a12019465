import FlowContract.Proofs.Json.Outlining

/-!
What readers make of a document: its value, if all its numbers are in range and it is not nested too
deep. Who passes over a document asks for neither.
-/

namespace FlowContract.Json

theorem Except.bind_eq_ok_iff {ε α β : Type} {x : Except ε α} {f : α → Except ε β} {b : β} :
    (x >>= f) = .ok b ↔ ∃ a, x = .ok a ∧ f a = .ok b := by
  cases x <;> simp [bind, Except.bind]

namespace Document

theorem readItems_outlined {items : List Document}
    (ih : ∀ item ∈ items, ∀ s, item.Outlined s → ∀ nesting v,
      s.read nesting = .ok v ↔ item.depth ≤ nesting ∧ item.value? = some v)
    {inner : List Syntax} (h : OutlinedItems items inner) (nesting : Nat) (values : List Value) :
    Syntax.readItems nesting inner = .ok values ↔
      depthOfItems items ≤ nesting ∧ valuesOfItems items = some values := by
  induction items generalizing inner values with
  | nil =>
    obtain rfl : inner = [] := h
    simp [Syntax.readItems, depthOfItems, valuesOfItems]
  | cons item items ihItems =>
    obtain ⟨s, others, rfl, hs, hothers⟩ := h
    have hitem := ih item List.mem_cons_self s hs nesting
    have hitems := ihItems (fun other hmem => ih other (List.mem_cons_of_mem _ hmem)) hothers
    simp only [Syntax.readItems, Except.bind_eq_ok_iff, hitem, hitems, pure, Except.pure,
      Except.ok.injEq, depthOfItems, valuesOfItems, Option.bind_eq_bind, Option.bind_eq_some_iff,
      Option.some.injEq, max_le_iff]
    grind

theorem readMembers_outlined {members : List (String × Document)}
    (ih : ∀ member ∈ members, ∀ s, member.2.Outlined s → ∀ nesting v,
      s.read nesting = .ok v ↔ member.2.depth ≤ nesting ∧ member.2.value? = some v)
    {inner : List (Key × Syntax)} (h : OutlinedMembers members inner) (nesting : Nat)
    (pairs : List (String × Value)) :
    Syntax.readMembers nesting inner = .ok pairs ↔
      depthOfMembers members ≤ nesting ∧ valuesOfMembers members = some pairs := by
  induction members generalizing inner pairs with
  | nil =>
    obtain rfl : inner = [] := h
    simp [Syntax.readMembers, depthOfMembers, valuesOfMembers]
  | cons member members ihMembers =>
    obtain ⟨name, item⟩ := member
    obtain ⟨key, s, others, rfl, hkey, hs, hothers⟩ := h
    have hitem := ih _ List.mem_cons_self s hs nesting
    have hmembers := ihMembers (fun other hmem => ih other (List.mem_cons_of_mem _ hmem)) hothers
    simp only [Syntax.readMembers, Except.bind_eq_ok_iff, hkey, hitem, hmembers, pure, Except.pure,
      Except.ok.injEq, depthOfMembers, valuesOfMembers, Option.bind_eq_bind,
      Option.bind_eq_some_iff, Option.some.injEq, max_le_iff]
    grind

/-- A document is read if it is not nested too deep and none of its numbers is out of range. -/
theorem read_outlined (document : Document) {s : Syntax} (h : document.Outlined s) (nesting : Nat)
    (v : Value) :
    s.read nesting = .ok v ↔ document.depth ≤ nesting ∧ document.value? = some v := by
  induction document generalizing s nesting v with
  | null | boolean | string =>
    obtain ⟨start, stop, rfl⟩ := h
    simp [Syntax.read, depth, value?]
  | number value =>
    obtain ⟨start, stop, reading, rfl, hreading⟩ := h
    simp only [Syntax.read, depth, value?, ← hreading, Nat.zero_le, true_and]
    cases reading <;> simp [Except.toOption]
  | list items ih =>
    obtain ⟨start, inner, stop, rfl, hinner⟩ := h
    have hitems := readItems_outlined (fun item hmem s hs => ih item hmem hs) hinner
    cases nesting with
    | zero => simp [Syntax.read, depth]
    | succ nesting =>
      simp only [Syntax.read, Nat.succ_ne_zero, if_false, Nat.add_sub_cancel, Ending.read,
        Except.bind_eq_ok_iff, hitems, pure, Except.pure, Except.ok.injEq, exists_const, true_and,
        depth, value?, Option.map_eq_some_iff, Nat.add_le_add_iff_right, and_assoc, exists_and_left]
  | mapping members ih =>
    obtain ⟨start, inner, stop, rfl, hinner⟩ := h
    have hmembers := readMembers_outlined (fun member hmem s hs => ih member hmem hs) hinner
    cases nesting with
    | zero => simp [Syntax.read, depth]
    | succ nesting =>
      simp only [Syntax.read, Nat.succ_ne_zero, if_false, Nat.add_sub_cancel, Ending.read,
        Except.bind_eq_ok_iff, hmembers, pure, Except.pure, Except.ok.injEq, exists_const, true_and,
        depth, value?, Option.map_eq_some_iff, Nat.add_le_add_iff_right, and_assoc, exists_and_left]

theorem depthOfItems_le_iff {items : List Document} {nesting : Nat} :
    depthOfItems items ≤ nesting ↔ ∀ item ∈ items, item.depth ≤ nesting := by
  induction items with
  | nil => simp [depthOfItems]
  | cons item items ih => simp [depthOfItems, ih]

theorem depthOfMembers_le_iff {members : List (String × Document)} {nesting : Nat} :
    depthOfMembers members ≤ nesting ↔ ∀ member ∈ members, member.2.depth ≤ nesting := by
  induction members with
  | nil => simp [depthOfMembers]
  | cons member members ih => simp [depthOfMembers, ih]

theorem exists_valuesOfItems_iff {items : List Document} :
    (∃ values, valuesOfItems items = some values) ↔
      ∀ item ∈ items, ∃ v, item.value? = some v := by
  induction items with
  | nil => simp [valuesOfItems]
  | cons item items ih =>
    simp only [valuesOfItems, Option.bind_eq_bind, Option.bind_eq_some_iff, List.forall_mem_cons,
      ← ih]
    grind

theorem exists_valuesOfMembers_iff {members : List (String × Document)} :
    (∃ pairs, valuesOfMembers members = some pairs) ↔
      ∀ member ∈ members, ∃ v, member.2.value? = some v := by
  induction members with
  | nil => simp [valuesOfMembers]
  | cons member members ih =>
    simp only [valuesOfMembers, Option.bind_eq_bind, Option.bind_eq_some_iff, List.forall_mem_cons,
      ← ih]
    grind

/-- Whether a document can be read where so many lists and mappings may enclose one another. -/
def Readable (document : Document) (nesting : Nat) : Prop :=
  document.depth ≤ nesting ∧ ∃ v, document.value? = some v

theorem readable_list_iff {items : List Document} {nesting : Nat} :
    (list items).Readable (nesting + 1) ↔ ∀ item ∈ items, item.Readable nesting := by
  simp only [Readable, depth, value?, Nat.add_le_add_iff_right, depthOfItems_le_iff,
    Option.map_eq_some_iff, forall_and, ← exists_valuesOfItems_iff]
  grind

theorem readable_mapping_iff {members : List (String × Document)} {nesting : Nat} :
    (mapping members).Readable (nesting + 1) ↔ ∀ member ∈ members, member.2.Readable nesting := by
  simp only [Readable, depth, value?, Nat.add_le_add_iff_right, depthOfMembers_le_iff,
    Option.map_eq_some_iff, forall_and, ← exists_valuesOfMembers_iff]
  grind

/-- Elements are read if each of them is. -/
theorem exists_readItems_iff {items : List Document} {inner : List Syntax}
    (h : OutlinedItems items inner) (nesting : Nat) :
    (∃ values, Syntax.readItems nesting inner = .ok values) ↔
      ∀ item ∈ items, item.Readable nesting := by
  simp only [readItems_outlined (fun item _ s hs => item.read_outlined hs) h, exists_and_left,
    depthOfItems_le_iff, exists_valuesOfItems_iff, Readable, forall_and]

theorem skipItems_outlined {items : List Document}
    (ih : ∀ item ∈ items, ∀ s, item.Outlined s → s.skip = .ok ()) {inner : List Syntax}
    (h : OutlinedItems items inner) : Syntax.skipItems inner = .ok () := by
  induction items generalizing inner with
  | nil =>
    obtain rfl : inner = [] := h
    rfl
  | cons item items ihItems =>
    obtain ⟨s, others, rfl, hs, hothers⟩ := h
    rw [Syntax.skipItems, ih item List.mem_cons_self s hs]
    exact ihItems (fun other hmem => ih other (List.mem_cons_of_mem _ hmem)) hothers

theorem skipMembers_outlined {members : List (String × Document)}
    (ih : ∀ member ∈ members, ∀ s, member.2.Outlined s → s.skip = .ok ())
    {inner : List (Key × Syntax)} (h : OutlinedMembers members inner) :
    Syntax.skipMembers inner = .ok () := by
  induction members generalizing inner with
  | nil =>
    obtain rfl : inner = [] := h
    rfl
  | cons member members ihMembers =>
    obtain ⟨key, s, others, rfl, -, hs, hothers⟩ := h
    rw [Syntax.skipMembers, ih member List.mem_cons_self s hs]
    exact ihMembers (fun other hmem => ih other (List.mem_cons_of_mem _ hmem)) hothers

/-- Any document can be passed over. -/
theorem skip_outlined (document : Document) {s : Syntax} (h : document.Outlined s) :
    s.skip = .ok () := by
  induction document generalizing s with
  | null | boolean | string =>
    obtain ⟨start, stop, rfl⟩ := h
    rfl
  | number value =>
    obtain ⟨start, stop, reading, rfl, -⟩ := h
    rfl
  | list items ih =>
    obtain ⟨start, inner, stop, rfl, hinner⟩ := h
    rw [Syntax.skip, skipItems_outlined (fun item hmem s hs => ih item hmem hs) hinner]
    rfl
  | mapping members ih =>
    obtain ⟨start, inner, stop, rfl, hinner⟩ := h
    rw [Syntax.skip, skipMembers_outlined (fun item hmem s hs => ih item hmem hs) hinner]
    rfl

/-- What a text holds decides about the value that is read from it. -/
theorem SpelledBy.ofText_eq_ok_iff {document : Document} {text : String}
    (h : document.SpelledBy text) (v : Value) : Value.ofText text = .ok v ↔
      document.depth ≤ Syntax.nestingLimit ∧ document.value? = some v := by
  obtain ⟨s, hs, houtline⟩ := h.outlined
  rw [← document.read_outlined hs]
  simp only [Value.ofText, Value.ofSymbols, houtline, Outline.read]
  cases s.read Syntax.nestingLimit <;> simp [bind, Except.bind, Except.mapError, pure, Except.pure]

end Document

end FlowContract.Json
