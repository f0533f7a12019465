import FlowContract.Definitions.Reference
import FlowContract.Proofs.Json.Nulls
import FlowContract.Proofs.Shape.Meaning

/-!
Formats of document parts: a shape, a reader and a writer that are to agree with each other. A
format is sound if everything of its shape can be read, and if writing what was read gives the part
back without its nulls. Soundness of a list, a mapping or a record follows from soundness of its
members, so that the formats of the definitions are put together from small ones.
-/

namespace FlowContract

open Json (Value Record)

theorem Shape.admits_closed_iff {fields : List Field} {v : Value} :
    (Shape.closed fields).Admits v ↔ ∃ entries, v = .mapping entries ∧
      (∀ field ∈ fields, field.Admits entries) ∧
      ∀ key ∈ entries.keys, ∃ field ∈ fields, field.name = key := by
  rw [Shape.closed, admits_record_iff]
  simp only [forall_const]

theorem Shape.admits_list_iff {element : Shape} {v : Value} :
    (Shape.list element).Admits v ↔ ∃ items, v = .list items ∧
      ∀ item ∈ items, element.Admits item := by
  simp [Shape.list, Shape.Admits]

/-- A closed mapping may have one optional key more if it does not have it. -/
theorem Shape.admits_closed_concat_iff {fields : List Field} {name : String} {shape : Shape}
    (hfresh : ∀ field ∈ fields, field.name ≠ name) {v : Value} :
    (Shape.closed fields).Admits v ↔
      (Shape.closed (fields ++ [.optional name shape])).Admits v ∧ v.get? name = none := by
  simp only [admits_closed_iff, List.forall_mem_append, List.forall_mem_singleton]
  constructor
  · rintro ⟨entries, rfl, hfields, hclosed⟩
    have habsent : entries.find? name = none := by
      rw [SortedMap.find?_eq_none_iff]
      intro hkey
      obtain ⟨field, hfield, hname⟩ := hclosed name hkey
      exact hfresh field hfield hname
    refine ⟨⟨entries, rfl, ⟨hfields, fun v hv => ?_, nofun⟩, fun key hkey => ?_⟩, habsent⟩
    · exact nomatch habsent.symm.trans hv
    · obtain ⟨field, hfield, hname⟩ := hclosed key hkey
      exact ⟨field, List.mem_append_left _ hfield, hname⟩
  · rintro ⟨⟨entries, rfl, ⟨hfields, -⟩, hclosed⟩, habsent⟩
    refine ⟨entries, rfl, hfields, fun key hkey => ?_⟩
    obtain ⟨field, hfield, rfl⟩ := hclosed key hkey
    rcases List.mem_append.mp hfield with hfield | hlast
    · exact ⟨field, hfield, rfl⟩
    · obtain rfl := List.mem_singleton.mp hlast
      exact absurd hkey (SortedMap.find?_eq_none_iff.mp habsent)

/-- A shape with a reader and a writer, and the places where null stands for nothing. -/
structure Codec (α : Type) where
  shape : Shape
  nullable : List Place
  decode : Value → Option α
  encode : α → Value

namespace Codec

variable {α β : Type}

/-- A value is read as something which is written as the value without its nulls. The written value
has the same shape and reads the same. -/
structure Carries (f : Codec α) (v : Value) (a : α) : Prop where
  decoded : f.decode v = some a
  encoded : f.encode a = v.withoutNulls f.nullable
  admitted : f.shape.Admits (v.withoutNulls f.nullable)
  redecoded : f.decode (v.withoutNulls f.nullable) = some a

/-- Everything of the shape is carried. Null is not, which leaves it to stand for nothing. -/
structure Sound (f : Codec α) : Prop where
  solid : ¬ f.shape.Admits .null
  carries : ∀ v, f.shape.Admits v → ∃ a, f.Carries v a

theorem Sound.ne_null {f : Codec α} (hf : f.Sound) {v : Value} (h : f.shape.Admits v) :
    v ≠ .null := by
  intro heq
  exact hf.solid (heq ▸ h)

/-- Where nothing may be null, what is read has to be written as it was. -/
theorem sound_of_plain {f : Codec α} (hplain : f.nullable = []) (hsolid : ¬ f.shape.Admits .null)
    (h : ∀ v, f.shape.Admits v → ∃ a, f.decode v = some a ∧ f.encode a = v) : f.Sound where
  solid := hsolid
  carries v hv := by
    obtain ⟨a, hdecode, hencode⟩ := h v hv
    have hv' : v.withoutNulls f.nullable = v := by rw [hplain, Value.withoutNulls_nil]
    refine ⟨a, hdecode, ?_, ?_, ?_⟩
    · rw [hv', hencode]
    · rwa [hv']
    · rwa [hv']

def text : Codec String := ⟨.string, [], Value.string?, .string⟩

def flag : Codec Bool := ⟨.boolean, [], Value.boolean?, .boolean⟩

/-- A mapping that is not looked into. -/
def fragment : Codec Value := ⟨.anyMapping, [], some, id⟩

theorem text_sound : text.Sound := by
  apply sound_of_plain rfl
  · simp [text, Shape.string, Shape.Admits, ScalarKind.Admits]
  · intro v hv
    obtain ⟨value, rfl⟩ : ∃ value, v = .string value := by
      simpa [text, Shape.string, Shape.Admits, ScalarKind.Admits] using hv
    exact ⟨value, rfl, rfl⟩

theorem flag_sound : flag.Sound := by
  apply sound_of_plain rfl
  · simp [flag, Shape.boolean, Shape.Admits, ScalarKind.Admits]
  · intro v hv
    obtain ⟨value, rfl⟩ : ∃ value, v = .boolean value := by
      simpa [flag, Shape.boolean, Shape.Admits, ScalarKind.Admits] using hv
    exact ⟨value, rfl, rfl⟩

theorem fragment_sound : fragment.Sound := by
  apply sound_of_plain rfl
  · simp [fragment, Shape.Admits]
  · intro v _
    exact ⟨v, rfl, rfl⟩

/-- The same reader and writer for a narrower shape. -/
def narrowed (f : Codec α) (shape : Shape) : Codec α := { f with shape }

theorem Sound.narrowed {f : Codec α} (hf : f.Sound) (hplain : f.nullable = []) {shape : Shape}
    (h : ∀ v, shape.Admits v → f.shape.Admits v) : (f.narrowed shape).Sound := by
  refine sound_of_plain (f := f.narrowed shape) hplain ?_ ?_
  · intro hnull
    exact hf.solid (h _ hnull)
  · intro v hv
    obtain ⟨a, ha⟩ := hf.carries v (h v hv)
    refine ⟨a, ha.decoded, ?_⟩
    have hencoded := ha.encoded
    rwa [hplain, Value.withoutNulls_nil] at hencoded

/-- A list is read by reading each of its elements. -/
theorem mapM_eq_some_iff {ι : Type} {read : ι → Option α} {l : List ι} {results : List α} :
    l.mapM read = some results ↔ List.Forall₂ (fun a b => read a = some b) l results := by
  induction l generalizing results with
  | nil => simp [eq_comm]
  | cons head rest ih =>
    simp only [List.mapM_cons, bind, pure, Option.bind_eq_some_iff, Option.some.injEq, ih,
      List.forall₂_cons_left_iff]
    constructor
    · rintro ⟨b, hb, others, hothers, rfl⟩
      exact ⟨b, others, hb, hothers, rfl⟩
    · rintro ⟨b, others, hb, hothers, rfl⟩
      exact ⟨b, hb, others, hothers, rfl⟩

theorem of_listOf? {decode : Value → Option α} {v : Value} {as : List α}
    (h : v.listOf? decode = some as) : ∃ items, v = .list items ∧ as.length = items.length := by
  obtain ⟨items, hitems, hread⟩ := Option.bind_eq_some_iff.mp h
  obtain rfl := Value.items?_eq_some_iff.mp hitems
  exact ⟨items, rfl, (mapM_eq_some_iff.mp hread).length_eq.symm⟩

def listOf (f : Codec α) : Codec (List α) where
  shape := .list f.shape
  nullable := Place.behind .anyIndex f.nullable
  decode := Value.listOf? f.decode
  encode l := .list (l.map f.encode)

theorem Sound.items {f : Codec α} (hf : f.Sound) {items : List Value}
    (h : ∀ item ∈ items, f.shape.Admits item) :
    ∃ as, items.mapM f.decode = some as ∧
      as.map f.encode = items.map (Value.withoutNulls · f.nullable) ∧
      (∀ item ∈ items, f.shape.Admits (item.withoutNulls f.nullable)) ∧
      (items.map (Value.withoutNulls · f.nullable)).mapM f.decode = some as := by
  induction items with
  | nil => exact ⟨[], rfl, rfl, List.forall_mem_nil _, rfl⟩
  | cons head rest ih =>
    obtain ⟨a, ha⟩ := hf.carries head (h head List.mem_cons_self)
    obtain ⟨as, hdecode, hencode, hadmits, hredecode⟩ :=
      ih fun item hitem => h item (List.mem_cons_of_mem _ hitem)
    refine ⟨a :: as, ?_, ?_, ?_, ?_⟩
    · simp [ha.decoded, hdecode]
    · simp [ha.encoded, hencode]
    · simpa [ha.admitted] using hadmits
    · simp [ha.redecoded, hredecode]

theorem Sound.listOf {f : Codec α} (hf : f.Sound) : f.listOf.Sound where
  solid := by simp [Codec.listOf, Shape.admits_list_iff]
  carries v hv := by
    obtain ⟨items, rfl, hitems⟩ := Shape.admits_list_iff.mp hv
    obtain ⟨as, hdecode, hencode, hadmits, hredecode⟩ := hf.items hitems
    have hnulls : (Value.list items).withoutNulls f.listOf.nullable =
        .list (items.map (Value.withoutNulls · f.nullable)) := by
      rw [Value.withoutNulls_list]
      simp only [Codec.listOf, Place.inItems_behind_anyIndex]
    refine ⟨as, hdecode, ?_, ?_, ?_⟩
    · rw [hnulls, ← hencode]
      rfl
    · rw [hnulls]
      refine Shape.admits_list_iff.mpr ⟨_, rfl, ?_⟩
      simpa using hadmits
    · rw [hnulls]
      exact hredecode

def mapOf (f : Codec α) : Codec (SortedMap α) where
  shape := .keyed .any f.shape
  nullable := Place.behind .anyKey f.nullable
  decode := Value.mapOf? f.decode
  encode m := .mapping (m.map fun _ => f.encode)

theorem Sound.mapOf {f : Codec α} (hf : f.Sound) : f.mapOf.Sound where
  solid := by simp [Codec.mapOf, Shape.Admits]
  carries v hv := by
    obtain ⟨entries, rfl, hentries⟩ := hv
    have hmember (i : Fin entries.keys.length) : f.shape.Admits (entries.get i) :=
      (hentries _ _ (List.mem_ofFn.mpr ⟨i, rfl⟩)).2
    choose result hresult using fun i => hf.carries _ (hmember i)
    have hnulls : (Value.mapping entries).withoutNulls f.mapOf.nullable =
        .mapping (entries.map fun _ v => v.withoutNulls f.nullable) := by
      rw [Value.withoutNulls_mapping]
      refine congrArg Value.mapping (SortedMap.ext_find? fun key => ?_)
      rw [Value.find?_entriesWithoutNulls, SortedMap.find?_map]
      cases hfind : entries.find? key with
      | none => rfl
      | some v =>
        obtain ⟨i, rfl, rfl⟩ := SortedMap.find?_eq_some_iff.mp hfind
        have hkept := Value.kept_of_ne_null (hf.ne_null (hmember i))
        simp only [Codec.mapOf, Place.under_behind_anyKey, Option.bind_some, hkept,
          Option.map_some]
    refine ⟨⟨entries.keys, entries.sorted, result⟩, ?_, ?_, ?_, ?_⟩
    · exact SortedMap.traverse_eq_pure fun i => (hresult i).decoded
    · rw [hnulls]
      have hencode : (fun i => f.encode (result i)) =
          fun i => (entries.get i).withoutNulls f.nullable := by
        funext i
        exact (hresult i).encoded
      simp only [Codec.mapOf, SortedMap.map, hencode]
    · rw [hnulls]
      refine ⟨_, rfl, fun key v hv => ⟨trivial, ?_⟩⟩
      obtain ⟨i, hi⟩ := List.mem_ofFn.mp hv
      cases hi
      exact (hresult i).admitted
    · rw [hnulls]
      exact SortedMap.traverse_eq_pure (m := entries.map _) fun i => (hresult i).redecoded

/-- The same shape for what is made of the parts that are read. -/
def wrapped (f : Codec α) (make : α → β) (inner : β → α) : Codec β where
  shape := f.shape
  nullable := f.nullable
  decode v := (f.decode v).map make
  encode b := f.encode (inner b)

theorem Sound.wrapped {f : Codec α} (hf : f.Sound) {make : α → β} {inner : β → α}
    (h : ∀ a, inner (make a) = a) : (f.wrapped make inner).Sound where
  solid := hf.solid
  carries v hv := by
    obtain ⟨a, ha⟩ := hf.carries v hv
    refine ⟨make a, ?_, ?_, ha.admitted, ?_⟩
    · simp only [Codec.wrapped, ha.decoded, Option.map_some]
    · simp only [Codec.wrapped, h, ha.encoded]
    · simp only [Codec.wrapped, ha.redecoded, Option.map_some]

/-! Records. Reading one takes a key after the other out of a mapping, and it is the same keys that
are read when the mapping has lost its nulls. -/

section Record

variable {f : Codec α} {places : List Place} {entries : SortedMap Value} {name : String}

/-- A mapping, or what is left of it without its nulls. -/
def IsOrKept (places : List Place) (entries m : SortedMap Value) : Prop :=
  m = entries ∨ m = Value.entriesWithoutNulls entries places

/-- A declared key is read as something, with the nulls or without, and what is left under the key
is what is written for it. -/
structure KeyCarried (places : List Place) (entries : SortedMap Value) (field : Field)
    (read : Record → Option β) (b : β) (written : Option Value) : Prop where
  read : ∀ m, IsOrKept places entries m → read m.find? = some b
  written : (Value.entriesWithoutNulls entries places).find? field.name = written
  admits : field.Admits (Value.entriesWithoutNulls entries places)

theorem find?_of_ne_null {inner : List Place} {v : Value} (hv : v ≠ .null)
    (hplaces : Place.under places name = inner ∨ Place.under places name = [] :: inner)
    (hfind : entries.find? name = some v) :
    (Value.entriesWithoutNulls entries places).find? name = some (v.withoutNulls inner) := by
  rw [Value.find?_entriesWithoutNulls, hfind, Option.bind_some, Value.kept_of_ne_null hv]
  rcases hplaces with hplaces | hplaces
  · rw [hplaces]
  · rw [hplaces, Value.withoutNulls_here]

theorem Sound.mandatory (hf : f.Sound) (places : List Place)
    (hplaces : Place.under places name = f.nullable)
    (h : (Field.mandatory name f.shape).Admits entries) :
    ∃ a, KeyCarried places entries (.mandatory name f.shape) (·.required name f.decode) a
      (some (f.encode a)) := by
  obtain ⟨hadmits, hpresent⟩ := h
  obtain ⟨v, hfind⟩ : ∃ v, entries.find? name = some v :=
    SortedMap.mem_keys_iff.mp (hpresent rfl)
  have hv := hadmits v hfind
  obtain ⟨a, ha⟩ := hf.carries v hv
  have hkept := find?_of_ne_null (hf.ne_null hv) (.inl hplaces) hfind
  refine ⟨a, ?_, ?_, ?_⟩
  · rintro m (rfl | rfl)
    · simp only [Record.required, hfind, Option.bind_some, ha.decoded]
    · simp only [Record.required, hkept, Option.bind_some, ha.redecoded]
  · rw [ha.encoded]
    exact hkept
  · refine ⟨fun u hu => ?_, fun _ => SortedMap.mem_keys_iff.mpr ⟨_, hkept⟩⟩
    obtain rfl := Option.some.inj (hkept.symm.trans hu)
    exact ha.admitted

theorem optional_of_find? {record : Record} {decode : Value → Option α} {v : Value} {a : α}
    (hfind : record name = some v) (hv : v ≠ .null) (hdecode : decode v = some a) :
    record.optional name decode = some (some a) := by
  unfold Record.optional
  rw [hfind]
  cases v <;> first | exact absurd rfl hv | simp [hdecode]

/-- A key that may be missing, with a shape that has null or does not. -/
theorem Sound.optionalKey (hf : f.Sound) (places : List Place) {shape : Shape}
    (hshape : ∀ v, shape.Admits v ↔ f.shape.Admits v ∨ (v = .null ∧ shape.Admits .null))
    (hplaces : Place.under places name = f.nullable ∧ ¬ shape.Admits .null ∨
      Place.under places name = [] :: f.nullable)
    (h : (Field.optional name shape).Admits entries) :
    ∃ o, KeyCarried places entries (.optional name shape) (·.optional name f.decode) o
      (o.map f.encode) := by
  obtain ⟨hadmits, -⟩ := h
  -- Nothing is left of a key that is missing, nor of one that holds null: both are read as nothing.
  have hlost (hkept : (Value.entriesWithoutNulls entries places).find? name = none)
      (hread : Record.optional entries.find? name f.decode = some none) :
      ∃ o, KeyCarried places entries (.optional name shape) (·.optional name f.decode) o
        (o.map f.encode) := by
    refine ⟨none, ?_, hkept, ?_, nofun⟩
    · rintro m (rfl | rfl)
      · exact hread
      · simp only [Record.optional, hkept]
    · intro u hu
      exact nomatch hkept.symm.trans hu
  cases hfind : entries.find? name with
  | none =>
    apply hlost
    · rw [Value.find?_entriesWithoutNulls, hfind, Option.bind_none]
    · simp only [Record.optional, hfind]
  | some v =>
    rcases (hshape v).mp (hadmits v hfind) with hv | ⟨rfl, hnull⟩
    · obtain ⟨a, ha⟩ := hf.carries v hv
      have hkept := find?_of_ne_null (hf.ne_null hv) (hplaces.imp_left And.left) hfind
      refine ⟨some a, ?_, ?_, ?_, nofun⟩
      · rintro m (rfl | rfl)
        · exact optional_of_find? hfind (hf.ne_null hv) ha.decoded
        · exact optional_of_find? hkept (hf.ne_null ha.admitted) ha.redecoded
      · rw [Option.map_some, ha.encoded]
        exact hkept
      · intro u hu
        obtain rfl := Option.some.inj (hkept.symm.trans hu)
        exact (hshape _).mpr (.inl ha.admitted)
    · have hplaces' := hplaces.resolve_left fun h => h.2 hnull
      apply hlost
      · rw [Value.find?_entriesWithoutNulls, hfind, hplaces']
        rfl
      · simp only [Record.optional, hfind]

theorem Sound.optional (hf : f.Sound) (places : List Place)
    (hplaces : Place.under places name = f.nullable)
    (h : (Field.optional name f.shape).Admits entries) :
    ∃ o, KeyCarried places entries (.optional name f.shape) (·.optional name f.decode) o
      (o.map f.encode) := by
  refine hf.optionalKey places (fun v => ?_) (.inl ⟨hplaces, hf.solid⟩) h
  simp [hf.solid]

theorem Sound.nullable (hf : f.Sound) (places : List Place)
    (hplaces : Place.under places name = [] :: f.nullable)
    (h : (Field.optional name f.shape.nullable).Admits entries) :
    ∃ o, KeyCarried places entries (.optional name f.shape.nullable) (·.optional name f.decode) o
      (o.map f.encode) := by
  refine hf.optionalKey places (fun v => ?_) (.inr hplaces) h
  simp only [Shape.admits_nullable_iff, true_or, and_true]
  exact or_comm

theorem record?_mapping {names : List String} (h : ∀ key ∈ entries.keys, key ∈ names) :
    (Value.mapping entries).record? names false = some entries.find? := by
  simp only [Value.record?, Bool.false_or]
  rw [if_pos]
  simpa using h

theorem eq_of_record?_mapping {names : List String} {record : Record}
    (h : (Value.mapping entries).record? names false = some record) : record = entries.find? := by
  simp only [Value.record?] at h
  split at h
  · exact (Option.some.inj h).symm
  · cases h

theorem record?_mapping_eq_none (names : List String) (hkey : name ∈ entries.keys)
    (h : name ∉ names) : (Value.mapping entries).record? names false = none := by
  simp only [Value.record?, Bool.false_or]
  rw [if_neg]
  simpa using ⟨name, hkey, h⟩

/-- A list of fields is a mapping if it tells what stands under each key. -/
theorem ofFields_eq {fields : List (String × Option Value)} (hnodup : (fields.map Prod.fst).Nodup)
    (hkeys : ∀ key ∈ entries.keys, key ∈ fields.map Prod.fst)
    (h : ∀ pair ∈ fields, entries.find? pair.1 = pair.2) :
    Value.ofFields fields = .mapping entries := by
  have hwritten := hnodup.sublist (SortedMap.sublist_map_fst fields)
  refine congrArg Value.mapping (SortedMap.ext_find? fun key => Option.ext fun v => ?_)
  rw [SortedMap.find?_ofList hwritten, List.mem_filterMap]
  constructor
  · rintro ⟨⟨name, value⟩, hmem, hpair⟩
    obtain ⟨_, rfl, heq⟩ := Option.map_eq_some_iff.mp hpair
    cases heq
    exact h _ hmem
  · intro hfind
    have hkey := hkeys key (SortedMap.mem_keys_iff.mpr ⟨v, hfind⟩)
    obtain ⟨⟨name, value⟩, hmem, rfl⟩ := List.mem_map.mp hkey
    obtain rfl : value = some v := (h _ hmem).symm.trans hfind
    exact ⟨_, hmem, rfl⟩

theorem bind_some {x : Option α} {read : α → Option β} {a : α} {b : β} (hx : x = some a)
    (hread : read a = some b) : x >>= read = some b := by
  rw [hx]
  exact hread

/-- The keys of a record are read in one go, with the nulls or without, and what is left of them is
what is written. -/
structure RecordCarried (f : Codec α) (fields : List Field) (entries : SortedMap Value) (a : α)
    (written : List (String × Option Value)) : Prop where
  read : ∀ m, IsOrKept f.nullable entries m → (∀ key ∈ m.keys, key ∈ written.map Prod.fst) →
    f.decode (.mapping m) = some a
  encoded : f.encode a = .ofFields written
  kept : ∀ pair ∈ written, (Value.entriesWithoutNulls entries f.nullable).find? pair.1 = pair.2
  admits : ∀ field ∈ fields, field.Admits (Value.entriesWithoutNulls entries f.nullable)

/-- A record is sound if its keys are carried in every mapping that has them as declared. -/
theorem sound_of_record {fields : List Field} (names : List String)
    (hshape : f.shape = .closed fields) (hnodup : names.Nodup)
    (hnames : ∀ field ∈ fields, field.name ∈ names)
    (h : ∀ entries : SortedMap Value, (∀ field ∈ fields, field.Admits entries) →
      (∀ key ∈ entries.keys, ∃ field ∈ fields, field.name = key) →
      ∃ a written, written.map Prod.fst = names ∧ RecordCarried f fields entries a written) :
    f.Sound where
  solid := by
    rw [hshape, Shape.admits_closed_iff]
    rintro ⟨entries, heq, -⟩
    cases heq
  carries v hv := by
    rw [hshape, Shape.admits_closed_iff] at hv
    obtain ⟨entries, rfl, hfields, hclosed⟩ := hv
    obtain ⟨a, written, rfl, hcarried⟩ := h entries hfields hclosed
    have hclosed' : ∀ key ∈ (Value.entriesWithoutNulls entries f.nullable).keys,
        ∃ field ∈ fields, field.name = key := by
      intro key hkey
      exact hclosed key (Value.mem_keys_of_entriesWithoutNulls hkey)
    have hknown {m : SortedMap Value} (hm : ∀ key ∈ m.keys, ∃ field ∈ fields, field.name = key) :
        ∀ key ∈ m.keys, key ∈ written.map Prod.fst := by
      intro key hkey
      obtain ⟨field, hfield, rfl⟩ := hm key hkey
      exact hnames field hfield
    refine ⟨a, hcarried.read _ (.inl rfl) (hknown hclosed), ?_, ?_, ?_⟩
    · rw [Value.withoutNulls_mapping, hcarried.encoded]
      exact ofFields_eq hnodup (hknown hclosed') hcarried.kept
    · rw [Value.withoutNulls_mapping, hshape, Shape.admits_closed_iff]
      exact ⟨_, rfl, hcarried.admits, hclosed'⟩
    · rw [Value.withoutNulls_mapping]
      exact hcarried.read _ (.inr rfl) (hknown hclosed')

end Record

end Codec

end FlowContract
