import FlowContract.Proofs.Definitions.Classification
import FlowContract.Proofs.Equality

/-!
Equal documents. Equality of documents is coarser than identity, so that a document can be loaded
again in other numerals. Main statement: a document that equals one that is parsed is parsed as
well, as definitions that equal those of the other one. Shapes never compare numbers, and a reader
passes on as they are the parts that may hold some.
-/

namespace FlowContract

open Json (Value Record)

/-- Equality as the editor compares with it. -/
abbrev Equals {α : Type} [BEq α] (a b : α) : Prop := (a == b) = true

/-- One step of the comparison of two documents: they are of one form and have equal parts. -/
inductive Json.Value.EqualParts : Value → Value → Prop where
  | null : EqualParts .null .null
  | boolean (value : Bool) : EqualParts (.boolean value) (.boolean value)
  | number (value value' : Json.Number) : EqualParts (.number value) (.number value')
  | string (value : String) : EqualParts (.string value) (.string value)
  | list {items items' : List Value} (h : List.Forall₂ Equals items items') :
      EqualParts (.list items) (.list items')
  | mapping {keys : List String} (sorted : keys.Pairwise (· < ·))
      {get get' : Fin keys.length → Value} (h : ∀ i, Equals (get i) (get' i)) :
      EqualParts (.mapping ⟨keys, sorted, get⟩) (.mapping ⟨keys, sorted, get'⟩)

theorem Json.Value.forall₂_of_equalItems {items items' : List Value}
    (h : equalItems items items' = true) : List.Forall₂ Equals items items' := by
  induction items generalizing items' with
  | nil =>
    cases items' with
    | nil => exact .nil
    | cons head rest => cases h
  | cons head rest ih =>
    cases items' with
    | nil => cases h
    | cons head' rest' =>
      obtain ⟨hhead, hrest⟩ := Bool.and_eq_true_iff.mp h
      exact .cons hhead (ih hrest)

theorem Json.Value.equalParts {v u : Value} (h : Equals v u) : v.EqualParts u := by
  change v.equal u = true at h
  cases v with
  | null =>
    cases u with
    | null => exact .null
    | _ => cases h
  | boolean value =>
    cases u with
    | boolean value' =>
      cases eq_of_beq (a := value) h
      exact .boolean value
    | _ => cases h
  | number value =>
    cases u with
    | number value' => exact .number value value'
    | _ => cases h
  | string value =>
    cases u with
    | string value' =>
      cases eq_of_beq (a := value) h
      exact .string value
    | _ => cases h
  | list items =>
    cases u with
    | list items' => exact .list (forall₂_of_equalItems h)
    | _ => cases h
  | mapping entries =>
    obtain ⟨keys, sorted, get⟩ := entries
    cases u with
    | mapping entries' =>
      obtain ⟨keys', sorted', get'⟩ := entries'
      simp only [equal] at h
      split at h
      · rename_i hkeys
        subst hkeys
        simp only [List.all_eq_true, List.mem_ofFn] at h
        exact .mapping sorted fun i => h _ ⟨i, rfl⟩
      · cases h
    | _ => cases h

/-- Under each key of one mapping there is nothing, or else something equal under the same key of
the other one. -/
theorem SortedMap.rel_find? {α : Type} [BEq α] {keys : List String}
    (sorted : keys.Pairwise (· < ·)) {get get' : Fin keys.length → α}
    (h : ∀ i, Equals (get i) (get' i)) (key : String) :
    Option.Rel Equals ((SortedMap.mk keys sorted get).find? key)
      ((SortedMap.mk keys sorted get').find? key) := by
  unfold SortedMap.find?
  cases keys.finIdxOf? key with
  | none => exact .none
  | some i => exact .some (h i)

namespace Shape

theorem admitsString_of_equal {allowed : Option NameSet} {v u : Value} (h : Equals v u)
    (hv : AdmitsString allowed v) : AdmitsString allowed u := by
  obtain ⟨value, rfl, hvalue⟩ := hv
  cases Value.equalParts h with
  | string => exact ⟨value, rfl, hvalue⟩

theorem forall_items_of_equal {items items' : List Value} {P : Value → Prop}
    (h : List.Forall₂ Equals items items') (hP : ∀ v u, Equals v u → P v → P u)
    (hitems : ∀ item ∈ items, P item) : ∀ item ∈ items', P item := by
  induction h with
  | nil => exact hitems
  | cons hhead _ ih =>
    obtain ⟨hfirst, hrest⟩ := List.forall_mem_cons.mp hitems
    exact List.forall_mem_cons.mpr ⟨hP _ _ hhead hfirst, ih hrest⟩

theorem admits_of_equal {shape : Shape} {v u : Value} (h : Equals v u) (hv : shape.Admits v) :
    shape.Admits u := by
  induction shape generalizing v u with
  | scalar kind nullable =>
    rcases hv with hkind | ⟨hnullable, rfl⟩
    · refine .inl ?_
      cases Value.equalParts h with
      | number => cases kind <;> simp_all [ScalarKind.Admits]
      | list => cases kind <;> simp_all [ScalarKind.Admits]
      | mapping => cases kind <;> simp_all [ScalarKind.Admits]
      | _ => exact hkind
    · cases Value.equalParts h
      exact .inr ⟨hnullable, rfl⟩
  | choice allowed => exact admitsString_of_equal h hv
  | strings allowed least greatest =>
    obtain ⟨items, rfl, hleast, hgreatest, hitems⟩ := hv
    cases Value.equalParts h with
    | list hequal =>
      rw [hequal.length_eq] at hleast hgreatest
      refine ⟨_, rfl, hleast, hgreatest, forall_items_of_equal hequal ?_ hitems⟩
      intro item item' hitem hadmits
      exact admitsString_of_equal hitem hadmits
  | record fields closed ih =>
    rw [admits_record_iff] at hv ⊢
    obtain ⟨entries, rfl, hfields, hclosed⟩ := hv
    cases Value.equalParts h with
    | @mapping keys sorted get get' hequal =>
      refine ⟨_, rfl, fun field hfield => ?_, hclosed⟩
      obtain ⟨hadmits, hpresent⟩ := hfields field hfield
      refine ⟨fun value' hvalue' => ?_, hpresent⟩
      have hrel := SortedMap.rel_find? sorted hequal field.name
      rw [hvalue'] at hrel
      generalize hvalue : (SortedMap.mk keys sorted get).find? field.name = found at hrel
      cases hrel with
      | some hmember => exact ih field hfield hmember (hadmits _ hvalue)
  | keyed predicate shape ih =>
    obtain ⟨entries, rfl, hentries⟩ := hv
    cases Value.equalParts h with
    | @mapping keys sorted get get' hequal =>
      refine ⟨_, rfl, fun key value' hvalue' => ?_⟩
      obtain ⟨i, hi⟩ := List.mem_ofFn.mp hvalue'
      cases hi
      obtain ⟨hkey, hvalue⟩ := hentries _ _ (List.mem_ofFn.mpr ⟨i, rfl⟩)
      exact ⟨hkey, ih (hequal i) hvalue⟩
  | sequence element least greatest ih =>
    obtain ⟨items, rfl, hleast, hgreatest, hitems⟩ := hv
    cases Value.equalParts h with
    | list hequal =>
      rw [hequal.length_eq] at hleast hgreatest
      refine ⟨_, rfl, hleast, hgreatest, forall_items_of_equal hequal ?_ hitems⟩
      intro item item' hitem hadmits
      exact ih hitem hadmits
  | union variants ih =>
    simp only [Admits, admitsSome_iff] at hv ⊢
    obtain ⟨variant, hvariant, hadmits⟩ := hv
    exact ⟨variant, hvariant, ih variant hvariant h hadmits⟩
  | orNull inner ih =>
    rcases hv with rfl | hv
    · cases Value.equalParts h
      exact .inl rfl
    · exact .inr (ih h hv)
  | anyMapping =>
    obtain ⟨entries, rfl⟩ := hv
    cases Value.equalParts h
    exact ⟨_, rfl⟩

end Shape

section Rel

variable {α β γ δ : Type} {R : α → β → Prop} {S : γ → δ → Prop}

theorem rel_bind {x : Option α} {y : Option β} {f : α → Option γ} {g : β → Option δ}
    (h : Option.Rel R x y) (hf : ∀ a b, R a b → Option.Rel S (f a) (g b)) :
    Option.Rel S (x.bind f) (y.bind g) := by
  cases h with
  | none => exact .none
  | some hab => exact hf _ _ hab

theorem rel_map {x : Option α} {y : Option β} {f : α → γ} {g : β → δ} (h : Option.Rel R x y)
    (hf : ∀ a b, R a b → S (f a) (g b)) : Option.Rel S (x.map f) (y.map g) := by
  cases h with
  | none => exact .none
  | some hab => exact .some (hf _ _ hab)

theorem rel_or {x x' : Option α} {y y' : Option β} (h : Option.Rel R x y)
    (h' : Option.Rel R x' y') : Option.Rel R (x.or x') (y.or y') := by
  cases h with
  | none => exact h'
  | some hab => exact .some hab

end Rel

/-- A reader respects equality: of equal documents it reads equal things, or can read neither. -/
def Respects {α : Type} [BEq α] (decode : Value → Option α) : Prop :=
  ∀ v u, Equals v u → Option.Rel Equals (decode v) (decode u)

def Alike (record record' : Record) : Prop :=
  ∀ name, Option.Rel Equals (record name) (record' name)

namespace Respects

variable {α β : Type} [BEq α] [BEq β] {decode : Value → Option α}

theorem string? : Respects Value.string? := by
  intro v u h
  cases Value.equalParts h with
  | string => exact .some BEq.rfl
  | _ => exact .none

theorem boolean? : Respects Value.boolean? := by
  intro v u h
  cases Value.equalParts h with
  | boolean => exact .some BEq.rfl
  | _ => exact .none

theorem itself : Respects some := by
  intro v u h
  exact .some h

/-- Equal things have to be made of equal parts. -/
theorem made (hdecode : Respects decode) {make : α → β}
    (hmake : ∀ a b, Equals a b → Equals (make a) (make b)) :
    Respects fun v => (decode v).map make := by
  intro v u h
  exact rel_map (hdecode v u h) hmake

theorem listOf? (hdecode : Respects decode) : Respects (Value.listOf? decode) := by
  intro v u h
  cases Value.equalParts h with
  | list hitems =>
    simp only [Value.listOf?, Value.items?, Option.bind_some]
    clear h
    induction hitems with
    | nil => exact .some rfl
    | cons hhead _ ih =>
      simp only [List.mapM_cons]
      refine rel_bind (hdecode _ _ hhead) fun a b hab => ?_
      exact rel_bind ih fun as bs habs => .some (by simp [Equals, hab, habs])
  | _ => exact .none

theorem traverseEntries (hdecode : Respects decode) {l l' : List (String × Value)}
    (h : List.Forall₂ Equals l l') :
    Option.Rel (fun results results' => Equals results.1 results'.1)
      (SortedMap.traverseEntries (fun _ => decode) l)
      (SortedMap.traverseEntries (fun _ => decode) l') := by
  induction h with
  | nil => exact .some rfl
  | @cons head head' rest rest' hhead _ ih =>
    obtain ⟨hkey, hvalue⟩ := Bool.and_eq_true_iff.mp hhead
    refine rel_bind (hdecode _ _ hvalue) fun a b hab => ?_
    refine rel_bind ih fun results results' hresults => .some ?_
    have hpair : Equals (head.1, a) (head'.1, b) := Bool.and_eq_true_iff.mpr ⟨hkey, hab⟩
    exact Bool.and_eq_true_iff.mpr ⟨hpair, hresults⟩

theorem mapOf? (hdecode : Respects decode) : Respects (Value.mapOf? decode) := by
  intro v u h
  cases Value.equalParts h with
  | @mapping keys sorted get get' hequal =>
    have hentries : List.Forall₂ Equals (SortedMap.mk keys sorted get).entries
        (SortedMap.mk keys sorted get').entries := by
      rw [List.forall₂_iff_get]
      simp only [SortedMap.entries, List.length_ofFn, List.get_eq_getElem, List.getElem_ofFn]
      exact ⟨trivial, fun i hi _ => Bool.and_eq_true_iff.mpr ⟨BEq.rfl, hequal ⟨i, hi⟩⟩⟩
    simp only [Value.mapOf?, Value.entries?, Option.bind_some, SortedMap.traverse]
    have hmaps {m n : SortedMap α} (h : Equals m.entries n.entries) : Equals m n := h
    refine rel_bind (hdecode.traverseEntries hentries) fun results results' hresults => .some ?_
    apply hmaps
    rw [SortedMap.entries_ofSorted, SortedMap.entries_ofSorted]
    exact hresults
  | _ => exact .none

theorem lookup_zip {names : List String} {items items' : List Value}
    (h : List.Forall₂ Equals items items') (name : String) :
    Option.Rel Equals ((names.zip items).lookup name) ((names.zip items').lookup name) := by
  induction h generalizing names with
  | nil =>
    rw [List.zip_nil_right]
    exact .none
  | cons hhead _ ih =>
    cases names with
    | nil => exact .none
    | cons first others =>
      simp only [List.zip_cons_cons, List.lookup_cons]
      cases name == first with
      | true => exact .some hhead
      | false => exact ih

/-- Equal documents are mappings with the same keys, or lists of the same length, so that they are
records of the same names or neither is one. -/
theorem record? {names : List String} {isOpen : Bool} {v u : Value} (h : Equals v u) :
    Option.Rel Alike (v.record? names isOpen) (u.record? names isOpen) := by
  cases Value.equalParts h with
  | mapping sorted hequal =>
    simp only [Value.record?]
    split
    · exact .some (SortedMap.rel_find? sorted hequal)
    · exact .none
  | list hitems =>
    simp only [Value.record?, ← hitems.length_eq]
    split
    · exact .some (lookup_zip hitems)
    · exact .none
  | _ => exact .none

theorem required (hdecode : Respects decode) {record record' : Record}
    (h : Alike record record') (name : String) :
    Option.Rel Equals (record.required name decode) (record'.required name decode) :=
  rel_bind (h name) hdecode

theorem optional (hdecode : Respects decode) {record record' : Record}
    (h : Alike record record') (name : String) :
    Option.Rel Equals (record.optional name decode) (record'.optional name decode) := by
  unfold Record.optional
  have hname := h name
  generalize record name = found at hname
  generalize record' name = found' at hname
  cases hname with
  | none => exact .some rfl
  | @some v u hequal =>
    have hread : Option.Rel Equals ((decode v).map some) ((decode u).map some) :=
      rel_map (hdecode v u hequal) fun _ _ hab => hab
    cases Value.equalParts hequal with
    | null => exact .some rfl
    | _ => exact hread

end Respects

open Respects

theorem Reference.respects : Respects decode := by
  intro v u h
  refine rel_bind (record? h) fun record record' halike => ?_
  refine rel_bind (string?.required halike "$ref") fun target target' htarget => ?_
  cases eq_of_beq htarget
  exact .some BEq.rfl

theorem Datatype.respects : Respects decode := by
  intro v u h
  refine rel_bind (record? h) fun record record' halike => ?_
  refine rel_bind (Reference.respects.listOf?.required halike "oneOf") fun names names' hnames => ?_
  cases eq_of_beq hnames
  exact .some BEq.rfl

theorem ParamDefinition.respects : Respects decode := by
  intro v u h
  refine rel_bind (record? h) fun record record' halike => ?_
  refine rel_bind (string?.required halike "type") fun _ _ htype => ?_
  refine rel_bind (string?.optional halike "title") fun _ _ htitle => ?_
  refine rel_bind (string?.optional halike "help_text") fun _ _ hhelp => ?_
  refine rel_bind (string?.optional halike "format") fun _ _ hformat => ?_
  refine rel_bind (itself.optional halike "items") fun _ _ hitems => ?_
  refine rel_bind (itself.optional halike "properties") fun _ _ hproperties => .some ?_
  change equal _ _ = true
  simp only [equal, Bool.and_eq_true]
  exact ⟨⟨⟨⟨⟨htype, htitle⟩, hhelp⟩, hformat⟩, hitems⟩, hproperties⟩

/-- The forms of a source are tried on equal documents with equal results, so that the same one is
the first that fits. -/
theorem SourceDefinition.respects : Respects decode := by
  intro v u h
  refine rel_or ?_ (rel_or ?_ ?_)
  · refine rel_map (Reference.respects v u h) fun type type' htype => ?_
    cases eq_of_beq htype
    exact BEq.rfl
  · refine rel_bind (record? h) fun record record' halike => ?_
    refine rel_bind (Reference.respects.required halike "items") fun items items' hitems => ?_
    cases eq_of_beq hitems
    exact .some BEq.rfl
  · refine rel_bind (record? h) fun record record' halike => ?_
    have hanyOf := Reference.respects.listOf?.required halike "anyOf"
    refine rel_bind hanyOf fun types types' htypes => ?_
    cases eq_of_beq htypes
    exact .some BEq.rfl

theorem Slots.respects {α : Type} [BEq α] {declaration : Value → Option α}
    (hdeclaration : Respects declaration) : Respects (Slots.decode declaration) := by
  intro v u h
  refine rel_bind (record? h) fun record record' halike => ?_
  refine rel_bind (hdeclaration.mapOf?.optional halike "properties") fun _ _ hproperties => ?_
  refine rel_bind (string?.listOf?.optional halike "required") fun _ _ hrequired => .some ?_
  exact Bool.and_eq_true_iff.mpr ⟨hproperties, hrequired⟩

namespace OperatorDefinition

theorem respects_typeTags : Respects decodeTypeTags := by
  intro v u h
  refine rel_bind (record? h) fun record record' halike => ?_
  exact string?.listOf?.required halike "enum"

theorem respects : Respects decode := by
  intro v u h
  have hparams := Slots.respects ParamDefinition.respects
  have hsources := Slots.respects SourceDefinition.respects
  refine rel_bind (record? h) fun record record' halike => ?_
  refine rel_bind (string?.optional halike "title") fun _ _ htitle => ?_
  refine rel_bind (string?.optional halike "description") fun _ _ hdescription => ?_
  refine rel_bind (string?.optional halike "help_text") fun _ _ hhelp => ?_
  have hinner : Option.Rel Alike
      (record.required "properties" (Value.record? ["type", "params", "sources"] false))
      (record'.required "properties" (Value.record? ["type", "params", "sources"] false)) :=
    rel_bind (halike "properties") fun _ _ hproperties => record? hproperties
  refine rel_bind hinner fun properties properties' halike => ?_
  refine rel_bind (respects_typeTags.required halike "type") fun _ _ htags => ?_
  refine rel_bind (hparams.required halike "params") fun _ _ hparams => ?_
  refine rel_bind (hsources.optional halike "sources") fun _ _ hsources => .some ?_
  change equal _ _ = true
  simp only [equal, Bool.and_eq_true]
  exact ⟨⟨⟨⟨⟨htitle, hdescription⟩, hhelp⟩, htags⟩, hparams⟩, hsources⟩

end OperatorDefinition

/-- Equal mappings have the same keys, which tell the kind. -/
theorem Definition.respects : Respects decode := by
  intro v u h
  have hdatatype : Respects fun v => (Datatype.decode v).map datatype :=
    Datatype.respects.made fun _ _ hequal => hequal
  have hoperator : Respects fun v => (OperatorDefinition.decode v).map operator :=
    OperatorDefinition.respects.made fun _ _ hequal => hequal
  cases Value.equalParts h with
  | @mapping keys sorted get get' hequal =>
    have hkind : DefinitionKind.classify ⟨keys, sorted, get⟩ =
        DefinitionKind.classify ⟨keys, sorted, get'⟩ := rfl
    simp only [decode, Value.entries?, Option.bind_some, ← hkind]
    cases DefinitionKind.classify ⟨keys, sorted, get⟩ with
    | datatype => exact hdatatype _ _ h
    | operator => exact hoperator _ _ h
  | _ => exact .none

theorem SchemaDocument.respects : Respects decode := by
  intro v u h
  have hcatalog : Respects Catalog.codec.decode :=
    Definition.respects.mapOf?.made fun _ _ hequal => hequal
  refine rel_bind (record? h) fun record record' halike => ?_
  refine rel_bind (string?.optional halike "$schema") fun _ _ hschema => ?_
  refine rel_bind (string?.optional halike "$ref") fun _ _ hroot => ?_
  refine rel_bind (string?.optional halike "title") fun _ _ htitle => ?_
  refine rel_bind (string?.optional halike "description") fun _ _ hdescription => ?_
  refine rel_bind (hcatalog.required halike "definitions") fun _ _ hdefinitions => .some ?_
  change (_ && _) = true
  simp only [Bool.and_eq_true]
  exact ⟨⟨⟨⟨hschema, hroot⟩, htitle⟩, hdescription⟩, hdefinitions⟩

theorem DescriptorInput.respects : Respects decode := by
  intro v u h
  refine rel_bind (record? h) fun record record' halike => ?_
  refine rel_bind (string?.required halike "name") fun _ _ hname => ?_
  refine rel_bind (string?.required halike "type") fun _ _ htype => ?_
  refine rel_bind (itself.optional halike "schema") fun _ _ hschema => ?_
  refine rel_bind (boolean?.optional halike "forceAsSource") fun _ _ hforce => .some ?_
  change (_ && _) = true
  simp only [Bool.and_eq_true]
  exact ⟨⟨⟨hname, htype⟩, hschema⟩, hforce⟩

theorem Descriptor.respects : Respects decode := by
  intro v u h
  refine rel_bind (record? h) fun record record' halike => ?_
  refine rel_bind (string?.required halike "title") fun _ _ htitle => ?_
  refine rel_bind (string?.optional halike "desc") fun _ _ hdesc => ?_
  refine rel_bind (string?.optional halike "description") fun _ _ hdescription => ?_
  refine rel_bind (string?.optional halike "helpUrl") fun _ _ hhelp => ?_
  refine rel_bind (DescriptorInput.respects.listOf?.optional halike "inputs") fun _ _ hinputs => ?_
  refine rel_bind (string?.listOf?.optional halike "required") fun _ _ hrequired => ?_
  refine rel_bind (string?.required halike "outputType") fun type type' htype => .some ?_
  cases eq_of_beq htype
  change (_ && _) = true
  simp only [Bool.and_eq_true]
  exact ⟨⟨⟨⟨⟨⟨htitle, hdesc⟩, hdescription⟩, hhelp⟩, hinputs⟩, hrequired⟩, BEq.rfl⟩

/-- With a format that respects equality, a document that equals one that is parsed is parsed as
something equal. -/
theorem Codec.Parses.of_equal {α : Type} [BEq α] {f : Codec α}
    {parse : Value → Except Rejection α} (hparses : f.Parses parse) (hf : Respects f.decode)
    {v u : Value} {a : α} (h : Equals v u) (hparse : parse v = .ok a) :
    ∃ b, parse u = .ok b ∧ Equals a b := by
  obtain ⟨hadmits, hdecode⟩ := (hparses v a).mp hparse
  have hread := hf v u h
  rw [hdecode] at hread
  generalize hother : f.decode u = other at hread
  cases hread with
  | @some _ b hequal =>
    exact ⟨b, (hparses u b).mpr ⟨Shape.admits_of_equal h hadmits, hother⟩, hequal⟩

theorem Definitions.parse_of_equal {representation : Representation} {raw raw' : Value}
    {definitions : Definitions} (h : Equals raw raw')
    (hparse : parse representation raw = .ok definitions) :
    ∃ definitions', parse representation raw' = .ok definitions' ∧
      Equals definitions definitions' := by
  cases representation with
  | catalog =>
    obtain ⟨document, hdocument, rfl⟩ := Except.map_eq_ok_iff.mp hparse
    obtain ⟨document', hdocument', hequal⟩ :=
      SchemaDocument.parses.of_equal SchemaDocument.respects h hdocument
    refine ⟨⟨raw', .catalog document'⟩, ?_, Bool.and_eq_true_iff.mpr ⟨h, hequal⟩⟩
    exact Except.map_eq_ok_iff.mpr ⟨document', hdocument', rfl⟩
  | operatorList version =>
    obtain ⟨list, hlist, rfl⟩ := Except.map_eq_ok_iff.mp hparse
    have hrespects : Respects (DescriptorList.codec version).decode :=
      Descriptor.respects.listOf?.made fun _ _ hequal =>
        Bool.and_eq_true_iff.mpr ⟨BEq.rfl, hequal⟩
    obtain ⟨list', hlist', hequal⟩ :=
      (DescriptorList.parses version).of_equal hrespects h hlist
    refine ⟨⟨raw', .operatorList list'⟩, ?_, Bool.and_eq_true_iff.mpr ⟨h, hequal⟩⟩
    exact Except.map_eq_ok_iff.mpr ⟨list', hlist', rfl⟩

end FlowContract
