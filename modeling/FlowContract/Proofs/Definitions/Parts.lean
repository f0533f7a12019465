import FlowContract.Proofs.Definitions.Pointwise
import FlowContract.Proofs.Definitions.Sources
import FlowContract.Proofs.Json.Replacement
import Mathlib.Logic.Function.Basic

/-!
Parts of what is read. A reader goes from a document to a definition, and the parts of the one
become parts of the other. Main statement: where each reader on the way keeps what the next one has
read, an exchange of what the last one reads, deep in the document, is an exchange of the part that
was read from it, and of nothing else.
-/

namespace FlowContract

open Json (Value Record)
open Codec

/-- Where something keeps a part of its own, if it has this part: how the part is found and how it
is exchanged for another one. What was exchanged is found, and can be put back as if nothing had
been done. -/
structure Part (α β : Type) where
  find? : α → Option β
  exchange : β → α → α
  found : ∀ {a b}, find? a = some b → ∀ b', find? (exchange b' a) = some b'
  back : ∀ {a b}, find? a = some b → ∀ b', exchange b (exchange b' a) = a

namespace Part

variable {α β γ : Type}

/-- The part of a part. -/
def comp (outer : Part α β) (inner : Part β γ) : Part α γ where
  find? a := (outer.find? a).bind inner.find?
  exchange c a :=
    match outer.find? a with
    | some b => outer.exchange (inner.exchange c b) a
    | none => a
  found := by
    intro a c h c'
    obtain ⟨b, hb, hc⟩ := Option.bind_eq_some_iff.mp h
    simp only [hb, outer.found hb, Option.bind_some, inner.found hc]
  back := by
    intro a c h c'
    obtain ⟨b, hb, hc⟩ := Option.bind_eq_some_iff.mp h
    simp only [hb, outer.found hb, inner.back hc, outer.back hb]

/-- A field that is always there. -/
def field (get : α → β) (set : β → α → α) (found : ∀ b a, get (set b a) = b)
    (back : ∀ b a, set (get a) (set b a) = a) : Part α β where
  find? a := some (get a)
  exchange := set
  found _ b' := congrArg some (found b' _)
  back h b' := by
    cases h
    exact back b' _

/-- A field that may be missing. -/
def optional (get : α → Option β) (set : Option β → α → α) (found : ∀ b a, get (set b a) = b)
    (back : ∀ b a, set (get a) (set b a) = a) : Part α β where
  find? := get
  exchange b := set (some b)
  found _ b' := found (some b') _
  back h b' := by
    rw [← h]
    exact back (some b') _

/-- What a map has under a name. -/
def entry (name : String) : Part (SortedMap α) α where
  find? m := m.find? name
  exchange value m := m.insert name value
  found _ value := SortedMap.find?_insert_self _ name value
  back := by
    intro m old h value
    refine SortedMap.ext_find? fun key => ?_
    rw [SortedMap.find?_insert, SortedMap.find?_insert]
    split
    · rename_i hkey
      rw [hkey, h]
    · rfl

/-- What a list has in a position. -/
def element (position : Nat) : Part (List α) α where
  find? l := l[position]?
  exchange a l := l.set position a
  found := by
    intro l old h a
    obtain ⟨hposition, -⟩ := List.getElem?_eq_some_iff.mp h
    exact List.getElem?_set_self hposition
  back := by
    intro l old h a
    obtain ⟨hposition, rfl⟩ := List.getElem?_eq_some_iff.mp h
    rw [List.set_set, List.set_getElem_self]

end Part

/-- A list is read position by position. -/
theorem listOf?_eq_some_iff {α : Type} {decode : Value → Option α} {items : List Value}
    {as : List α} : (Value.list items).listOf? decode = some as ↔
      as.length = items.length ∧ ∀ i : Nat, as[i]? = items[i]?.bind decode := by
  change items.mapM decode = some as ↔ _
  rw [mapM_eq_some_iff]
  constructor
  · intro h
    exact ⟨h.length_eq.symm, getElem?_of_forall₂ h⟩
  · rintro ⟨hlength, hget⟩
    refine List.forall₂_iff_get.mpr ⟨hlength.symm, fun i hi hi' => ?_⟩
    have hread := hget i
    rw [List.getElem?_eq_getElem hi, List.getElem?_eq_getElem hi', Option.bind_some] at hread
    exact hread.symm

/-- A reader keeps what stands in a place as one of the parts of what it reads: the part is what
stands there, as a reader of its own reads it. Whatever else can be read there, the part is then
this, and all others are what they were. Null is left out, which a reader may pass over. -/
def Keeps {α β : Type} (read : Value → Option α) (segments : List Segment)
    (readPart : Value → Option β) (part : Part α β) : Prop :=
  ∀ v a u, read v = some a → (Path.mk segments).resolve? v = some u → u ≠ .null →
    ∃ b, readPart u = some b ∧ part.find? a = some b ∧
      ∀ u' b', u' ≠ .null → readPart u' = some b' →
        read (v.replaceAt segments u') = some (part.exchange b' a)

/-! A record in which one field has another value. -/

section Record

variable {α : Type} {record : Record} {name other : String} {v : Value} {decode : Value → Option α}

theorem record?_insert {names : List String} {isOpen : Bool} {entries : SortedMap Value} {u : Value}
    (h : (Value.mapping entries).record? names isOpen = some record)
    (hfind : entries.find? name = some u) (v : Value) :
    (Value.mapping (entries.insert name v)).record? names isOpen =
      some (Function.update record name (some v)) := by
  have hkeys := SortedMap.keys_insert_of_mem (SortedMap.mem_keys_iff.mpr ⟨u, hfind⟩) v
  simp only [Value.record?, hkeys] at h ⊢
  split at h
  · rename_i hnames
    cases h
    rw [if_pos hnames]
    refine congrArg some (funext fun key => ?_)
    rw [SortedMap.find?_insert, Function.update_apply]
  · cases h

@[simp] theorem required_update_self :
    Record.required (Function.update record name (some v)) name decode = decode v := by
  simp [Record.required]

@[simp] theorem required_update_of_ne (h : other ≠ name) :
    Record.required (Function.update record name (some v)) other decode =
      record.required other decode := by
  simp [Record.required, h]

theorem optional_update_self (hv : v ≠ .null) :
    Record.optional (Function.update record name (some v)) name decode = (decode v).map some := by
  unfold Record.optional
  rw [Function.update_self]
  cases v <;> first | exact absurd rfl hv | rfl

@[simp] theorem optional_update_of_ne (h : other ≠ name) :
    Record.optional (Function.update record name (some v)) other decode =
      record.optional other decode := by
  unfold Record.optional
  rw [Function.update_of_ne h]

end Record

namespace Keeps

variable {α β γ : Type} {read : Value → Option α} {segments : List Segment}

/-- What is kept of what is kept is kept. -/
theorem comp {rest : List Segment} {readPart : Value → Option β} {readInner : Value → Option γ}
    {outer : Part α β} {inner : Part β γ} (houter : Keeps read segments readPart outer)
    (hinner : Keeps readPart rest readInner inner) :
    Keeps read (segments ++ rest) readInner (outer.comp inner) := by
  intro v a w hread hresolve hw
  have hwithin := Path.resolve?_within ⟨segments⟩ ⟨rest⟩ v
  obtain ⟨u, hu, hrest⟩ := Option.bind_eq_some_iff.mp (hwithin.symm.trans hresolve)
  have hsolid := Value.ne_null_of_resolve? hrest hw
  obtain ⟨b, hb, hfind, hexchange⟩ := houter v a u hread hu hsolid
  obtain ⟨c, hc, hfind', hexchange'⟩ := hinner u b w hb hrest hw
  refine ⟨c, hc, ?_, fun w' c' hw' hc' => ?_⟩
  · simp only [Part.comp, hfind, Option.bind_some, hfind']
  · have hnew := Value.replaceAt_ne_null hw' hrest
    rw [Value.replaceAt_append hu, hexchange _ _ hnew (hexchange' w' c' hw' hc')]
    simp only [Part.comp, hfind]

/-- What is kept is kept in whatever is made of it. -/
theorem map {readPart : Value → Option β} {part : Part α β} (h : Keeps read segments readPart part)
    (make : α → γ) (outer : Part γ α) (hfind : ∀ a, outer.find? (make a) = some a)
    (hexchange : ∀ a a', outer.exchange a' (make a) = make a') :
    Keeps (fun v => (read v).map make) segments readPart (outer.comp part) := by
  intro v c u hread hresolve hu
  obtain ⟨a, ha, rfl⟩ := Option.map_eq_some_iff.mp hread
  obtain ⟨b, hb, hpart, hread'⟩ := h v a u ha hresolve hu
  refine ⟨b, hb, ?_, fun u' b' hu' hb' => ?_⟩
  · simp only [Part.comp, hfind, Option.bind_some, hpart]
  · simp only [Part.comp, hfind, hexchange, hread' u' b' hu' hb', Option.map_some]

theorem mapOf {decode : Value → Option α} (name : String) :
    Keeps (Value.mapOf? decode) [.key name] decode (Part.entry name) := by
  intro v members u hread hresolve _
  obtain ⟨entries, _, rfl, hu, heq⟩ := Value.exists_of_resolve?_key hresolve
  cases heq
  obtain ⟨hkeys, hmembers⟩ := SortedMap.traverse_eq_some_iff.mp hread
  have hname : name ∈ entries.keys := SortedMap.mem_keys_iff.mpr ⟨u, hu⟩
  obtain ⟨b, hb⟩ : ∃ b, members.find? name = some b := by
    rw [← SortedMap.mem_keys_iff, hkeys]
    exact hname
  have hdecode : decode u = some b := by rw [← hb, hmembers, hu, Option.bind_some]
  refine ⟨b, hdecode, hb, fun u' b' _ hdecode' => ?_⟩
  rw [Value.replaceAt_key hu, Value.replaceAt_nil]
  refine SortedMap.traverse_eq_some_iff.mpr ⟨?_, fun key => ?_⟩
  · rw [SortedMap.keys_insert_of_mem hname, ← hkeys]
    exact SortedMap.keys_insert_of_mem (hkeys ▸ hname) b'
  · simp only [Part.entry, SortedMap.find?_insert]
    split
    · rw [Option.bind_some, hdecode']
    · exact hmembers key

theorem listOf {decode : Value → Option α} (position : Nat) :
    Keeps (Value.listOf? decode) [.index position] decode (Part.element position) := by
  intro v as u hread hresolve _
  obtain ⟨items, _, rfl, hu, heq⟩ := Value.exists_of_resolve?_index hresolve
  cases heq
  obtain ⟨hlength, hget⟩ := listOf?_eq_some_iff.mp hread
  obtain ⟨hposition, -⟩ := List.getElem?_eq_some_iff.mp hu
  have hposition' : position < as.length := hlength ▸ hposition
  have hdecode : decode u = some as[position] := by
    rw [← List.getElem?_eq_getElem hposition', hget, hu, Option.bind_some]
  refine ⟨_, hdecode, List.getElem?_eq_getElem hposition', fun u' b' _ hdecode' => ?_⟩
  rw [Value.replaceAt_index hu, Value.replaceAt_nil]
  refine listOf?_eq_some_iff.mpr ⟨?_, fun i => ?_⟩
  · simp only [Part.element, List.length_set, hlength]
  · simp only [Part.element, List.getElem?_set, hposition, hposition', if_true]
    split
    · rw [Option.bind_some, hdecode']
    · exact hget i

/-- A record keeps a field if it is read field by field, and is then the same but for this field. -/
theorem record {names : List String} {name : String} {fields : Record → Option α}
    {readPart : Value → Option β} {part : Part α β}
    (hread : ∀ v, read v = (v.record? names false).bind fields)
    (h : ∀ record a u, fields record = some a → record name = some u → u ≠ .null →
      ∃ b, readPart u = some b ∧ part.find? a = some b ∧
        ∀ u' b', u' ≠ .null → readPart u' = some b' →
          fields (Function.update record name (some u')) = some (part.exchange b' a)) :
    Keeps read [.key name] readPart part := by
  intro v a u ha hresolve hu
  obtain ⟨entries, _, rfl, hfind, heq⟩ := Value.exists_of_resolve?_key hresolve
  cases heq
  rw [hread] at ha
  obtain ⟨record, hrecord, ha⟩ := Option.bind_eq_some_iff.mp ha
  have hname : record name = some u := by rwa [eq_of_record?_mapping hrecord]
  obtain ⟨b, hb, hpart, hexchange⟩ := h record a u ha hname hu
  refine ⟨b, hb, hpart, fun u' b' hu' hb' => ?_⟩
  rw [Value.replaceAt_key hfind, Value.replaceAt_nil, hread, record?_insert hrecord hfind,
    Option.bind_some]
  exact hexchange u' b' hu' hb'

end Keeps

end FlowContract
