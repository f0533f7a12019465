import FlowContract.Proofs.Definitions.Pointwise
import Mathlib.Tactic.Tauto

/-!
The two revisions of descriptor lists against each other. What they ask of a descriptor is the same
but for its inputs and its output type, and for each of these two one revision asks what the other
one does and something more. Main statement: the lists of the first revision whose inputs are not
forced to be sources are those of the second one with output types that the first one knows, and
both revisions read them alike.
-/

namespace FlowContract

open Json (Value)

namespace DescriptorInput

/-- Without the key that the second revision has dropped, no input is forced to be a source. -/
theorem forceAsSource_of_decode {v : Value} {input : DescriptorInput}
    (hadmits : (shape .v2).Admits v) (h : decode v = some input) : input.forceAsSource = none := by
  obtain ⟨hadmits, habsent⟩ := admits_v2_iff.mp hadmits
  obtain ⟨entries, rfl, -⟩ := Shape.admits_closed_iff.mp hadmits
  simp only [decode, bind, pure, Option.bind_eq_some_iff] at h
  obtain ⟨record, hrecord, name, -, typeName, -, schema, -, forceAsSource, hforce, heq⟩ := h
  obtain rfl := Codec.eq_of_record?_mapping hrecord
  cases heq
  have hfind : entries.find? "forceAsSource" = none := habsent
  simp only [Json.Record.optional, hfind, Option.some.injEq] at hforce
  exact hforce.symm

end DescriptorInput

namespace OutputType

theorem ofName_ne_other {name : String} (h : name ∈ fixed) (other : String) :
    ofName name ≠ .other other := by
  simp only [fixed, List.mem_cons, List.not_mem_nil, or_false] at h
  rcases h with rfl | rfl | rfl | rfl <;> exact nofun

end OutputType

namespace Descriptor

/-- Some input of a descriptor has the key that the second revision has dropped. -/
def ForcesSource (v : Value) : Prop :=
  ∃ i u, (Path.mk [.key "inputs", .index i, .key "forceAsSource"]).resolve? v = some u

/-- The output type of a descriptor is one that the first revision knows. -/
def HasFixedOutput (v : Value) : Prop :=
  ∃ name ∈ OutputType.fixed, v.get? "outputType" = some (.string name)

/-! What is asked of a descriptor, with the two keys apart for which the revisions differ. -/

def commonFields : List Field := [
  .mandatory "title" .string,
  .optional "desc" .string,
  .optional "description" .string,
  .optional "helpUrl" .string,
  .optional "required" (Shape.list .string).nullable]

def inputsField (version : SchemaVersion) : Field :=
  .optional "inputs" (Shape.list (DescriptorInput.shape version)).nullable

def outputTypeField (version : SchemaVersion) : Field :=
  .mandatory "outputType" (outputTypeShape version)

theorem admits_iff {version : SchemaVersion} {v : Value} :
    (shape version).Admits v ↔ ∃ entries, v = .mapping entries ∧
      ((∀ field ∈ commonFields, field.Admits entries) ∧ ∀ key ∈ entries.keys,
        key ∈ ["title", "desc", "description", "helpUrl", "inputs", "required", "outputType"]) ∧
      (inputsField version).Admits entries ∧ (outputTypeField version).Admits entries := by
  rw [shape, Shape.admits_closed_iff]
  refine exists_congr fun entries => and_congr_right fun _ => ?_
  have hkeys (key : String) : (∃ field ∈ [Field.mandatory "title" .string,
      .optional "desc" .string, .optional "description" .string, .optional "helpUrl" .string,
      inputsField version, .optional "required" (Shape.list .string).nullable,
      outputTypeField version], field.name = key) ↔
      key ∈ ["title", "desc", "description", "helpUrl", "inputs", "required", "outputType"] := by
    exact List.mem_map.symm
  simp only [← hkeys, commonFields, List.forall_mem_cons]
  unfold inputsField outputTypeField
  tauto

theorem forcesSource_iff {entries : SortedMap Value} :
    ForcesSource (.mapping entries) ↔ ∃ items, entries.find? "inputs" = some (.list items) ∧
      ∃ item ∈ items, item.get? "forceAsSource" ≠ none := by
  have hresolve (i : Nat) (u : Value) :
      (Path.mk [.key "inputs", .index i, .key "forceAsSource"]).resolve? (.mapping entries) =
        some u ↔ ∃ items, entries.find? "inputs" = some (.list items) ∧ ∃ item,
          items[i]? = some item ∧ item.get? "forceAsSource" = some u := by
    have hroot (w : Value) : (Path.mk []).resolve? w = some w := rfl
    simp only [Path.resolve?_cons, Segment.follow?, Value.get?, Value.entries?, Option.bind_some,
      hroot, Option.bind_eq_some_iff, Value.items?_eq_some_iff]
    constructor
    · rintro ⟨_, hinputs, item, ⟨items, rfl, hitem⟩, _, hforce, heq⟩
      cases heq
      exact ⟨items, hinputs, item, hitem, hforce⟩
    · rintro ⟨items, hinputs, item, hitem, hforce⟩
      exact ⟨_, hinputs, item, ⟨items, rfl, hitem⟩, u, hforce, rfl⟩
  simp only [ForcesSource, hresolve]
  constructor
  · rintro ⟨i, u, items, hinputs, item, hitem, hforce⟩
    exact ⟨items, hinputs, item, List.mem_of_getElem? hitem, by simp [hforce]⟩
  · rintro ⟨items, hinputs, item, hmem, hforce⟩
    obtain ⟨i, hitem⟩ := List.getElem?_of_mem hmem
    obtain ⟨u, hu⟩ := Option.ne_none_iff_exists'.mp hforce
    exact ⟨i, u, items, hinputs, item, hitem, hu⟩

theorem inputsField_admits_v2_iff {entries : SortedMap Value} :
    (inputsField .v2).Admits entries ↔
      (inputsField .v1).Admits entries ∧ ¬ ForcesSource (.mapping entries) := by
  simp only [inputsField, Field.Admits, Field.optional, Bool.false_eq_true, false_implies, and_true,
    Shape.admits_nullable_iff, Shape.admits_list_iff, DescriptorInput.admits_v2_iff,
    forcesSource_iff]
  constructor
  · intro h
    refine ⟨fun v hv => ?_, ?_⟩
    · refine (h v hv).imp_right ?_
      rintro ⟨items, rfl, hitems⟩
      exact ⟨items, rfl, fun item hitem => (hitems item hitem).1⟩
    · rintro ⟨items, hinputs, item, hitem, hforce⟩
      rcases h _ hinputs with hnull | ⟨_, heq, hitems⟩
      · cases hnull
      · cases heq
        exact hforce (hitems item hitem).2
  · rintro ⟨h, hforces⟩ v hv
    refine (h v hv).imp_right ?_
    rintro ⟨items, rfl, hitems⟩
    refine ⟨items, rfl, fun item hitem => ⟨hitems item hitem, ?_⟩⟩
    exact Decidable.byContradiction fun hforce => hforces ⟨items, hv, item, hitem, hforce⟩

theorem outputTypeShape_v1_admits_iff {v : Value} :
    (outputTypeShape .v1).Admits v ↔ ∃ name ∈ OutputType.fixed, v = .string name := by
  have hkeys (name : String) :
      name ∈ (NameSet.ofList OutputType.fixed).keys ↔ name ∈ OutputType.fixed := by
    have hnames : (OutputType.fixed.map fun name => (name, ())).map Prod.fst = OutputType.fixed :=
      rfl
    rw [NameSet.ofList, SortedMap.mem_keys_ofList (by decide), hnames]
  simp [outputTypeShape, Shape.oneOf, Shape.Admits, Shape.AdmitsString, hkeys, and_comm]

theorem outputTypeShape_v2_admits_iff {v : Value} :
    (outputTypeShape .v2).Admits v ↔ ∃ name, v = .string name ∧ name ≠ "" := by
  simp [outputTypeShape, Shape.nonEmptyString, Shape.Admits, ScalarKind.Admits]

/-- The output types of the first revision are some of those of the second one. -/
theorem outputTypeField_admits_v1_iff {entries : SortedMap Value} :
    (outputTypeField .v1).Admits entries ↔
      (outputTypeField .v2).Admits entries ∧ HasFixedOutput (.mapping entries) := by
  have hnonempty : ∀ name ∈ OutputType.fixed, name ≠ "" := by decide
  constructor
  · rintro ⟨hadmits, hpresent⟩
    obtain ⟨v, hv⟩ := SortedMap.mem_keys_iff.mp (hpresent rfl)
    obtain ⟨name, hname, rfl⟩ := outputTypeShape_v1_admits_iff.mp (hadmits v hv)
    refine ⟨⟨fun u hu => ?_, hpresent⟩, name, hname, hv⟩
    obtain rfl := Option.some.inj (hv.symm.trans hu)
    exact outputTypeShape_v2_admits_iff.mpr ⟨name, rfl, hnonempty name hname⟩
  · rintro ⟨⟨-, hpresent⟩, name, hname, hv⟩
    refine ⟨fun u hu => ?_, hpresent⟩
    obtain rfl := Option.some.inj (hv.symm.trans hu)
    exact outputTypeShape_v1_admits_iff.mpr ⟨name, hname, rfl⟩

theorem admits_v1_iff_admits_v2 {v : Value} :
    (shape .v1).Admits v ∧ ¬ ForcesSource v ↔ (shape .v2).Admits v ∧ HasFixedOutput v := by
  simp only [admits_iff]
  constructor
  · rintro ⟨⟨entries, rfl, hcommon, hinputs, houtput⟩, hforces⟩
    obtain ⟨houtput, hfixed⟩ := outputTypeField_admits_v1_iff.mp houtput
    have hinputs := inputsField_admits_v2_iff.mpr ⟨hinputs, hforces⟩
    exact ⟨⟨entries, rfl, hcommon, hinputs, houtput⟩, hfixed⟩
  · rintro ⟨⟨entries, rfl, hcommon, hinputs, houtput⟩, hfixed⟩
    obtain ⟨hinputs, hforces⟩ := inputsField_admits_v2_iff.mp hinputs
    have houtput := outputTypeField_admits_v1_iff.mpr ⟨houtput, hfixed⟩
    exact ⟨⟨entries, rfl, hcommon, hinputs, houtput⟩, hforces⟩

/-! What is read from the two keys. -/

variable {entries : SortedMap Value} {v : Value} {path : Path} {descriptor : Descriptor}

theorem of_decode (h : decode (.mapping entries) = some descriptor) :
    (∃ name, entries.find? "outputType" = some (.string name) ∧
      descriptor.outputType = .ofName name) ∧
    Json.Record.optional entries.find? "inputs" (Value.listOf? DescriptorInput.decode) =
      some descriptor.inputs := by
  simp only [decode, bind, pure, Option.bind_eq_some_iff] at h
  obtain ⟨record, hrecord, title, -, desc, -, description, -, helpUrl, -, inputs, hinputs,
    required, -, output, houtput, heq⟩ := h
  obtain rfl := Codec.eq_of_record?_mapping hrecord
  cases heq
  obtain ⟨v, hv, hstring⟩ := Option.bind_eq_some_iff.mp houtput
  cases v with
  | string value =>
    cases hstring
    exact ⟨⟨output, hv, rfl⟩, hinputs⟩
  | _ => cases hstring

/-- Each input of a descriptor has been read from an element of its list of inputs. -/
theorem exists_element_of_decode (h : decode (.mapping entries) = some descriptor)
    {input : DescriptorInput} (hinput : input ∈ descriptor.allInputs) :
    ∃ items, entries.find? "inputs" = some (.list items) ∧
      ∃ item ∈ items, DescriptorInput.decode item = some input := by
  obtain ⟨-, hinputs⟩ := of_decode h
  cases hread : descriptor.inputs with
  | none =>
    rw [allInputs, hread] at hinput
    cases hinput
  | some inputs =>
    rw [allInputs, hread, Option.getD_some] at hinput
    rw [hread, Json.Record.optional] at hinputs
    split at hinputs
    · cases hinputs
    · cases hinputs
    · rename_i v _ hv
      obtain ⟨_, hlist, heq⟩ := Option.map_eq_some_iff.mp hinputs
      cases heq
      obtain ⟨items, hitems, hdecode⟩ := Option.bind_eq_some_iff.mp hlist
      obtain rfl := Value.items?_eq_some_iff.mp hitems
      obtain ⟨i, hi⟩ := List.getElem?_of_mem hinput
      rw [getElem?_of_forall₂ (Codec.mapM_eq_some_iff.mp hdecode),
        Option.bind_eq_some_iff] at hi
      obtain ⟨item, hitem, hinput⟩ := hi
      exact ⟨items, hv, item, List.mem_of_getElem? hitem, hinput⟩

theorem outputType_of_parse {version : SchemaVersion}
    (h : parse version v path = .ok descriptor) :
    v.get? "outputType" = some (.string descriptor.outputType.name) := by
  obtain ⟨hadmits, hdecode⟩ := parse_eq_ok_iff.mp h
  obtain ⟨entries, rfl, -⟩ := admits_iff.mp hadmits
  obtain ⟨⟨name, hname, houtput⟩, -⟩ := of_decode hdecode
  rw [houtput, OutputType.name_ofName]
  exact hname

theorem ne_other_of_parse_v1 (h : parse .v1 v path = .ok descriptor) (name : String) :
    descriptor.outputType ≠ .other name := by
  obtain ⟨hadmits, hdecode⟩ := parse_eq_ok_iff.mp h
  obtain ⟨entries, rfl, -, -, houtput⟩ := admits_iff.mp hadmits
  obtain ⟨-, fixed, hfixed, hfind⟩ := outputTypeField_admits_v1_iff.mp houtput
  obtain ⟨⟨_, hname, houtput⟩, -⟩ := of_decode hdecode
  cases hfind.symm.trans hname
  rw [houtput]
  exact OutputType.ofName_ne_other hfixed name

theorem forceAsSource_of_parse_v2 (h : parse .v2 v path = .ok descriptor)
    {input : DescriptorInput} (hinput : input ∈ descriptor.allInputs) :
    input.forceAsSource = none := by
  obtain ⟨hadmits, hdecode⟩ := parse_eq_ok_iff.mp h
  obtain ⟨entries, rfl, -, hinputs, -⟩ := admits_iff.mp hadmits
  obtain ⟨items, hfind, item, hitem, hread⟩ := exists_element_of_decode hdecode hinput
  have hvalue : (Shape.list (DescriptorInput.shape .v2)).nullable.Admits (.list items) :=
    hinputs.1 _ hfind
  rcases Shape.admits_nullable_iff.mp hvalue with hnull | hlist
  · cases hnull
  · obtain ⟨_, heq, hitems⟩ := Shape.admits_list_iff.mp hlist
    cases heq
    exact DescriptorInput.forceAsSource_of_decode (hitems item hitem) hread

end Descriptor

namespace DescriptorList

/-- Some input of some operator has the key that the second revision has dropped. -/
def ForcesSource (v : Value) : Prop :=
  ∃ i operator, (Path.root.index i).resolve? v = some operator ∧ Descriptor.ForcesSource operator

/-- The output types of all operators are ones that the first revision knows. -/
def HasFixedOutputs (v : Value) : Prop :=
  ∀ i operator, (Path.root.index i).resolve? v = some operator →
    Descriptor.HasFixedOutput operator

variable {version : SchemaVersion} {v : Value} {items : List Value} {list : DescriptorList}

theorem resolve?_index (items : List Value) (i : Nat) :
    (Path.root.index i).resolve? (.list items) = items[i]? := by
  change items[i]?.bind some = items[i]?
  exact Option.bind_fun_some _

theorem forcesSource_iff : ForcesSource (.list items) ↔
    ∃ item ∈ items, Descriptor.ForcesSource item := by
  simp only [ForcesSource, resolve?_index, List.mem_iff_getElem?]
  constructor
  · rintro ⟨i, item, hitem, hforces⟩
    exact ⟨item, ⟨i, hitem⟩, hforces⟩
  · rintro ⟨item, ⟨i, hitem⟩, hforces⟩
    exact ⟨i, item, hitem, hforces⟩

theorem hasFixedOutputs_iff : HasFixedOutputs (.list items) ↔
    ∀ item ∈ items, Descriptor.HasFixedOutput item := by
  simp only [HasFixedOutputs, resolve?_index, List.mem_iff_getElem?]
  constructor
  · rintro h item ⟨i, hitem⟩
    exact h i item hitem
  · intro h i item hitem
    exact h item ⟨i, hitem⟩

theorem exists_parse_iff_admits : (∃ list, parse version v = .ok list) ↔
    ∃ items, v = .list items ∧ ∀ item ∈ items, (Descriptor.shape version).Admits item :=
  ((codec_sound version).exists_parse_iff (parses version)).trans Shape.admits_list_iff

theorem parse_v1_iff_parse_v2 :
    (∃ list, parse .v1 v = .ok list) ∧ ¬ ForcesSource v ↔
      (∃ list, parse .v2 v = .ok list) ∧ HasFixedOutputs v := by
  simp only [exists_parse_iff_admits]
  constructor
  · rintro ⟨⟨items, rfl, hitems⟩, hforces⟩
    have hboth (item : Value) (hitem : item ∈ items) := Descriptor.admits_v1_iff_admits_v2.mp
      ⟨hitems item hitem, fun h => hforces (forcesSource_iff.mpr ⟨item, hitem, h⟩)⟩
    exact ⟨⟨items, rfl, fun item hitem => (hboth item hitem).1⟩,
      hasFixedOutputs_iff.mpr fun item hitem => (hboth item hitem).2⟩
  · rintro ⟨⟨items, rfl, hitems⟩, hfixed⟩
    have hboth (item : Value) (hitem : item ∈ items) := Descriptor.admits_v1_iff_admits_v2.mpr
      ⟨hitems item hitem, hasFixedOutputs_iff.mp hfixed item hitem⟩
    refine ⟨⟨items, rfl, fun item hitem => (hboth item hitem).1⟩, fun hforces => ?_⟩
    obtain ⟨item, hitem, h⟩ := forcesSource_iff.mp hforces
    exact (hboth item hitem).2 h

/-- Which operators a list has does not depend on the revision. -/
theorem decode_of_parse (h : parse version v = .ok list) :
    v.listOf? Descriptor.decode = some list.operators := by
  obtain ⟨-, hdecode⟩ := (parses version v list).mp h
  obtain ⟨operators, hoperators, rfl⟩ := Option.map_eq_some_iff.mp hdecode
  exact hoperators

theorem exists_element_of_parse (h : parse version v = .ok list) {i : Nat}
    {descriptor : Descriptor} (hdescriptor : list.operators[i]? = some descriptor) :
    ∃ item, (Path.root.index i).resolve? v = some item ∧
      Descriptor.parse version item .root = .ok descriptor := by
  obtain ⟨items, _, rfl, -⟩ := of_parse h
  rw [(madeOf_of_parse h).operator, Option.bind_eq_some_iff] at hdescriptor
  obtain ⟨item, hitem, hparse⟩ := hdescriptor
  refine ⟨item, (resolve?_index items i).trans hitem, ?_⟩
  cases hresult : Descriptor.parse version item .root with
  | error rejection =>
    rw [hresult] at hparse
    cases hparse
  | ok result =>
    rw [hresult] at hparse
    exact congrArg Except.ok (Option.some.inj hparse)

theorem exists_element_of_mem (h : parse version v = .ok list) {descriptor : Descriptor}
    (hdescriptor : descriptor ∈ list.operators) :
    ∃ item, Descriptor.parse version item .root = .ok descriptor := by
  obtain ⟨i, hi⟩ := List.getElem?_of_mem hdescriptor
  obtain ⟨item, -, hparse⟩ := exists_element_of_parse h hi
  exact ⟨item, hparse⟩

end DescriptorList

/-- The two revisions differ in two points, the key that forces an input to be a source and the set
of output types: without the one and within the other they accept the same lists, and they read the
same operators from a list that both accept. In a list of the first revision no output type is
foreign to it, in one of the second revision no input is forced to be a source, and in both an
output type has the name that stands in the document. -/
theorem revisions_differ_in_two_points :
    (∀ raw, (∃ list, DescriptorList.parse .v1 raw = .ok list) ∧
        ¬ DescriptorList.ForcesSource raw ↔
      (∃ list, DescriptorList.parse .v2 raw = .ok list) ∧ DescriptorList.HasFixedOutputs raw) ∧
    (∀ raw list list', DescriptorList.parse .v1 raw = .ok list →
      DescriptorList.parse .v2 raw = .ok list' → list.operators = list'.operators) ∧
    (∀ raw list, DescriptorList.parse .v1 raw = .ok list →
      ∀ descriptor ∈ list.operators, ∀ name, descriptor.outputType ≠ .other name) ∧
    (∀ raw list, DescriptorList.parse .v2 raw = .ok list →
      ∀ descriptor ∈ list.operators, ∀ input ∈ descriptor.allInputs,
        input.forceAsSource = none) ∧
    ∀ version raw list i descriptor, DescriptorList.parse version raw = .ok list →
      list.operators[i]? = some descriptor →
      ((Path.root.index i).key "outputType").resolve? raw =
        some (.string descriptor.outputType.name) := by
  refine ⟨fun raw => DescriptorList.parse_v1_iff_parse_v2, ?_, ?_, ?_, ?_⟩
  · intro raw list list' h h'
    have hread := DescriptorList.decode_of_parse h
    rw [DescriptorList.decode_of_parse h', Option.some.injEq] at hread
    exact hread.symm
  · intro raw list h descriptor hdescriptor name
    obtain ⟨item, hparse⟩ := DescriptorList.exists_element_of_mem h hdescriptor
    exact Descriptor.ne_other_of_parse_v1 hparse name
  · intro raw list h descriptor hdescriptor input hinput
    obtain ⟨item, hparse⟩ := DescriptorList.exists_element_of_mem h hdescriptor
    exact Descriptor.forceAsSource_of_parse_v2 hparse hinput
  · intro version raw list i descriptor h hdescriptor
    obtain ⟨item, hitem, hparse⟩ := DescriptorList.exists_element_of_parse h hdescriptor
    rw [Path.key, Path.resolve?_push, hitem]
    exact Descriptor.outputType_of_parse hparse

end FlowContract
