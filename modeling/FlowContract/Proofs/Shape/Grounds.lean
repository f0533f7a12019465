import FlowContract.Proofs.Shape.Places

/-!
What rejections rest on. A check goes down into a value and a shape together; whatever it says comes
from one of the shapes that it meets, about the part of the value that it has met there. Main
statement: what is expected in a place is what a shape accepts that is applied there and has refused
what stands there, except that a list of strings asks of an element what it asks of a list.
-/

namespace FlowContract

open Json (Value)

theorem Path.within_root (base : Path) : base.within .root = base := by
  simp only [within, root, List.append_nil]

namespace Shape

/-- The check of a value against a shape comes to the check of a part of it against a shape, in the
place of this part. -/
inductive Visits : Shape → Value → List Segment → Shape → Value → Prop where
  | here (shape : Shape) (v : Value) : Visits shape v [] shape v
  | field {fields : List Field} {closed : Bool} {entries : SortedMap Value} {field : Field}
      {v u : Value} {rest : List Segment} {target : Shape} (hfield : field ∈ fields)
      (hfind : entries.find? field.name = some v) (h : Visits field.shape v rest target u) :
      Visits (record fields closed) (.mapping entries) (.key field.name :: rest) target u
  | member {predicate : KeyPredicate} {value : Shape} {entries : SortedMap Value} {name : String}
      {v u : Value} {rest : List Segment} {target : Shape} (hname : predicate.Admits name)
      (hfind : entries.find? name = some v) (h : Visits value v rest target u) :
      Visits (keyed predicate value) (.mapping entries) (.key name :: rest) target u
  | element {element : Shape} {least : Nat} {greatest : Option Nat} {items : List Value}
      {position : Nat} {v u : Value} {rest : List Segment} {target : Shape}
      (hwithin : withinBounds least greatest items.length = true)
      (hitem : items[position]? = some v) (h : Visits element v rest target u) :
      Visits (sequence element least greatest) (.list items) (.index position :: rest) target u
  | variant {variants : List Shape} {variant target : Shape} {v u : Value}
      {segments : List Segment} (hvariant : variant ∈ variants)
      (h : Visits variant v segments target u) : Visits (union variants) v segments target u
  | inner {inner target : Shape} {v u : Value} {segments : List Segment} (hnull : v ≠ .null)
      (h : Visits inner v segments target u) : Visits (orNull inner) v segments target u

variable {shape target : Shape} {v u : Value} {segments : List Segment}

theorem Visits.applies (h : shape.Visits v segments target u) : shape.Applies segments target := by
  induction h with
  | here shape v => exact .here shape
  | field hfield _ _ ih => exact .field hfield ih
  | member _ _ _ ih => exact .member _ ih
  | element _ _ _ ih => exact .element _ ih
  | variant hvariant _ ih => exact .variant hvariant ih
  | inner _ _ ih => exact .inner ih

theorem Visits.resolve? (h : shape.Visits v segments target u) :
    (Path.mk segments).resolve? v = some u := by
  induction h with
  | here shape v => rfl
  | field _ hfind _ ih | member _ hfind _ ih =>
    rw [Path.resolve?_cons]
    exact Option.bind_eq_some_iff.mpr ⟨_, hfind, ih⟩
  | element _ hitem _ ih =>
    rw [Path.resolve?_cons]
    exact Option.bind_eq_some_iff.mpr ⟨_, hitem, ih⟩
  | variant _ _ ih => exact ih
  | inner _ _ ih => exact ih

/-- What a shape has to say against a value, in which place in it: that it is not what the shape
accepts, or that a mapping has a key that it may not have or lacks one that it has to have. -/
inductive Objects : Shape → Value → List Segment → String → String → Prop where
  | whole {shape : Shape} {v : Value} (h : ¬ shape.Admits v) :
      Objects shape v [] shape.expectation (describe v)
  | undeclared {fields : List Field} {entries : SortedMap Value} {key : String} {u : Value}
      (hfind : entries.find? key = some u) (hkey : ∀ field ∈ fields, field.name ≠ key) :
      Objects (record fields true) (.mapping entries) [.key key] (undeclared fields key)
        (describe u)
  | lacking {fields : List Field} {closed : Bool} {entries : SortedMap Value} {field : Field}
      (hfield : field ∈ fields) (hrequired : field.required = true)
      (hkey : field.name ∉ entries.keys) :
      Objects (record fields closed) (.mapping entries) [.key field.name] field.shape.expectation
        missing
  | key {predicate : KeyPredicate} {value : Shape} {entries : SortedMap Value} {key : String}
      (hkey : key ∈ entries.keys) (hpredicate : ¬ predicate.Admits key) :
      Objects (keyed predicate value) (.mapping entries) [.key key] predicate.describe
        s!"key `{key}`"

/-- A list of strings asks of an element that is not one of the strings what it asks of the whole
list. -/
inductive Misplaces : Shape → Value → List Segment → String → String → Prop where
  | element {allowed : Option NameSet} {least greatest : Nat} {items : List Value} {position : Nat}
      {item : Value} (hwithin : withinBounds least (some greatest) items.length = true)
      (hitem : items[position]? = some item) (hrefused : ¬ AdmitsString allowed item) :
      Misplaces (strings allowed least greatest) (.list items) [.index position]
        (strings allowed least greatest).expectation (describe item)

/-- All that a shape says against a value. -/
def Reason (shape : Shape) (v : Value) (own : List Segment) (expected actual : String) : Prop :=
  shape.Objects v own expected actual ∨ shape.Misplaces v own expected actual

/-- Wherever a list of strings is looked through, its elements are among the strings. -/
def StringsFit (shape : Shape) (v : Value) : Prop :=
  ∀ segments allowed least greatest items,
    shape.Visits v segments (strings allowed least greatest) (.list items) →
    withinBounds least (some greatest) items.length = true →
    ∀ item ∈ items, AdmitsString allowed item

end Shape

namespace Rejection

open Shape

/-- A rejection of a value that stands at a place: it is said by a shape that is visited, and so are
its alternatives. -/
inductive Grounded (reason : Shape → Value → List Segment → String → String → Prop) (base : Path)
    (shape : Shape) (v : Value) : Rejection → Prop where
  | intro {segments own : List Segment} {target : Shape} {u : Value} {expected actual : String}
      {alternatives : List Rejection} (hvisits : shape.Visits v segments target u)
      (hreason : reason target u own expected actual)
      (halternatives : ∀ rejection ∈ alternatives, Grounded reason base shape v rejection) :
      Grounded reason base shape v ⟨base.within ⟨segments ++ own⟩, expected, actual, alternatives⟩

variable {reason reason' : Shape → Value → List Segment → String → String → Prop} {base : Path}
  {shape : Shape} {v : Value} {rejection : Rejection}

theorem Grounded.alone {own : List Segment} {expected actual : String} (base : Path)
    (h : reason shape v own expected actual) :
    Grounded reason base shape v ⟨base.within ⟨own⟩, expected, actual, []⟩ :=
  .intro (.here shape v) h nofun

/-- What a shape says that is visited further in is said from further out. -/
theorem Grounded.outward {front : List Segment} {inner : Shape} {u : Value}
    (hvisits : ∀ {segments target w}, inner.Visits u segments target w →
      shape.Visits v (front ++ segments) target w)
    (h : Grounded reason (base.within ⟨front⟩) inner u rejection) :
    Grounded reason base shape v rejection := by
  induction h with
  | @intro segments own target w expected actual alternatives hinner hreason _ ih =>
    have hpath : (base.within ⟨front⟩).within ⟨segments ++ own⟩ =
        base.within ⟨front ++ segments ++ own⟩ := by
      simp only [Path.within, List.append_assoc]
    rw [hpath]
    exact .intro (hvisits hinner) hreason ih

/-- The same where the shape further in is applied to the value itself. -/
theorem Grounded.same {inner : Shape}
    (hvisits : ∀ {segments target w}, inner.Visits v segments target w →
      shape.Visits v segments target w)
    (h : Grounded reason base inner v rejection) : Grounded reason base shape v rejection := by
  rw [← base.within_root] at h
  exact h.outward hvisits

theorem Grounded.withAlternatives (h : Grounded reason base shape v rejection)
    {others : List Rejection} (hothers : ∀ other ∈ others, Grounded reason base shape v other) :
    Grounded reason base shape v { rejection with alternatives := others } := by
  cases h with
  | intro hvisits hreason _ => exact .intro hvisits hreason hothers

theorem Grounded.imp (h : Grounded reason base shape v rejection)
    (himp : ∀ {segments target u own expected actual}, shape.Visits v segments target u →
      reason target u own expected actual → reason' target u own expected actual) :
    Grounded reason' base shape v rejection := by
  induction h with
  | intro hvisits hreason _ ih => exact .intro hvisits (himp hvisits hreason) ih

end Rejection

namespace Shape

open Rejection

variable {shape : Shape} {v : Value} {base : Path} {rejection whole : Rejection}

/-! Where what is collected can come from, for each of the ways of collecting. -/

theorem mem_failUnless_iff {condition : Bool} :
    rejection ∈ failUnless condition whole ↔ condition = false ∧ rejection = whole := by
  cases condition <;> simp [failUnless]

theorem mem_listFailures_iff {isWithin : Bool} {items : List Value}
    {collect : Value × Nat → List Rejection} :
    rejection ∈ (if isWithin then items.zipIdx.flatMap collect else [whole]) ↔
      isWithin = false ∧ rejection = whole ∨
      isWithin = true ∧ ∃ position item, items[position]? = some item ∧
        rejection ∈ collect (item, position) := by
  cases isWithin with
  | false => simp
  | true =>
    simp only [if_true, List.mem_flatMap, Prod.exists, List.mem_zipIdx_iff_getElem?]
    rw [exists_comm]
    simp

theorem mem_entryFailures_iff {entries : SortedMap Value}
    {collect : String × Value → List Rejection} :
    rejection ∈ entries.entries.flatMap collect ↔
      ∃ key v, entries.find? key = some v ∧ rejection ∈ collect (key, v) := by
  simp only [List.mem_flatMap, Prod.exists, SortedMap.mem_entries_iff]

theorem mem_fieldFailures_iff {fields : List Field} {entries : SortedMap Value} :
    rejection ∈ fieldFailures fields entries base ↔ ∃ field ∈ fields,
      (∃ v, entries.find? field.name = some v ∧
        rejection ∈ field.shape.failures v (base.key field.name)) ∨
      (field.name ∉ entries.keys ∧ field.required = true ∧
        rejection = ⟨base.key field.name, field.shape.expectation, missing, []⟩) := by
  induction fields with
  | nil => simp [fieldFailures]
  | cons field rest ih =>
    obtain ⟨name, shape, required⟩ := field
    rw [fieldFailures, List.mem_append, ih, List.exists_mem_cons_iff]
    refine or_congr_left ?_
    simp only [← SortedMap.find?_eq_none_iff]
    cases entries.find? name with
    | some v => simp
    | none => simp [mem_failUnless_iff]

/-- What is collected from a union is said against all of the value, or it is the first mismatch
with one variant that carries those with other variants. -/
theorem of_mem_unionFailures {lists : List (List Rejection)}
    (hmem : rejection ∈ unionFailures whole lists) : rejection = whole ∨
      ∃ first others, rejection = { first with alternatives := others } ∧
        ∀ head ∈ first :: others, ∃ found ∈ lists, head ∈ found := by
  have hheads : ∀ head ∈ lists.filterMap List.head?, ∃ found ∈ lists, head ∈ found := by
    intro head hhead
    obtain ⟨found, hfound, hfirst⟩ := List.mem_filterMap.mp hhead
    exact ⟨found, hfound, List.mem_of_head? hfirst⟩
  unfold unionFailures at hmem
  split at hmem
  · exact absurd hmem List.not_mem_nil
  · split at hmem
    · exact .inl (List.mem_singleton.mp hmem)
    · rename_i first others heq
      rw [heq] at hheads
      exact .inr ⟨first, others, List.mem_singleton.mp hmem, hheads⟩

theorem not_admits_of_mem_failures (hmem : rejection ∈ shape.failures v base) :
    ¬ shape.Admits v := by
  rw [← failures_eq_nil_iff shape v base]
  exact List.ne_nil_of_mem hmem

/-- How anything that is collected comes about: a shape says it by itself, or it is collected from a
part of the value that the check comes to, or a union has gathered it from its variants. -/
@[elab_as_elim]
theorem mem_failures_induction
    {motive : (shape : Shape) → (v : Value) → (base : Path) → (rejection : Rejection) →
      rejection ∈ shape.failures v base → Prop}
    (alone : ∀ {shape : Shape} {v : Value} {base : Path} {rejection : Rejection}
      {own : List Segment} (hmem : rejection ∈ shape.failures v base),
      shape.Reason v own rejection.expected rejection.actual →
      rejection.path = base.within ⟨own⟩ → rejection.alternatives = [] →
      motive shape v base rejection hmem)
    (inward : ∀ {shape inner : Shape} {v u : Value} {base place : Path} {rejection : Rejection}
      {front : List Segment} (hmem : rejection ∈ shape.failures v base)
      (hinner : rejection ∈ inner.failures u place), place = base.within ⟨front⟩ →
      (∀ {segments target w}, inner.Visits u segments target w →
        shape.Visits v (front ++ segments) target w) →
      motive inner u place rejection hinner → motive shape v base rejection hmem)
    (gathered : ∀ {variants : List Shape} {v : Value} {base : Path} {first : Rejection}
      {others : List Rejection}
      (hmem : { first with alternatives := others } ∈ (union variants).failures v base),
      (∀ head ∈ first :: others, ∃ variant ∈ variants, ∃ hhead, motive variant v base head hhead) →
      motive (union variants) v base { first with alternatives := others } hmem)
    (hmem : rejection ∈ shape.failures v base) : motive shape v base rejection hmem := by
  have hwhole {shape : Shape} {v : Value} {base : Path} {rejection : Rejection}
      (hmem : rejection ∈ shape.failures v base) (heq : rejection = mismatch shape v base) :
      motive shape v base rejection hmem := by
    obtain rfl := heq
    have hrefused := not_admits_of_mem_failures hmem
    exact alone hmem (.inl (.whole hrefused)) base.within_root.symm rfl
  -- By the shape: what comes from a member is passed on with the step that has led to it.
  induction shape generalizing v base rejection with
  | scalar kind nullable => exact hwhole hmem (mem_failUnless_iff.mp hmem).2
  | choice allowed => exact hwhole hmem (mem_failUnless_iff.mp hmem).2
  | anyMapping => exact hwhole hmem (mem_failUnless_iff.mp hmem).2
  | strings allowed least greatest =>
    cases v with
    | list items =>
      rcases mem_listFailures_iff.mp hmem with ⟨-, heq⟩ | ⟨hwithin, position, item, hitem, hmember⟩
      · exact hwhole hmem heq
      · obtain ⟨hrefused, rfl⟩ := mem_failUnless_iff.mp hmember
        rw [← Bool.not_eq_true, acceptsString_iff] at hrefused
        exact alone hmem (.inr (.element hwithin hitem hrefused)) rfl rfl
    | _ => exact hwhole hmem (List.mem_singleton.mp hmem)
  | record fields closed ih =>
    cases v with
    | mapping entries =>
      rcases List.mem_append.mp hmem with hkeys | hfields
      · obtain ⟨key, u, hfind, hkey⟩ := mem_entryFailures_iff.mp hkeys
        obtain ⟨hdeclared, rfl⟩ := mem_failUnless_iff.mp hkey
        obtain ⟨rfl, hundeclared⟩ : closed = true ∧ ∀ field ∈ fields, field.name ≠ key := by
          simpa [declares] using hdeclared
        exact alone hmem (.inl (.undeclared hfind hundeclared)) rfl rfl
      · obtain ⟨field, hfield, ⟨u, hfind, hinner⟩ | ⟨hkey, hrequired, rfl⟩⟩ :=
          mem_fieldFailures_iff.mp hfields
        · exact inward hmem hinner rfl (.field hfield hfind) (ih field hfield hinner)
        · exact alone hmem (.inl (.lacking hfield hrequired hkey)) rfl rfl
    | _ => exact hwhole hmem (List.mem_singleton.mp hmem)
  | keyed predicate value ih =>
    cases v with
    | mapping entries =>
      obtain ⟨key, u, hfind, hinner⟩ := mem_entryFailures_iff.mp hmem
      dsimp only at hinner
      split at hinner
      · rename_i hpredicate
        exact inward hmem hinner rfl (.member (KeyPredicate.accepts_iff.mp hpredicate) hfind)
          (ih hinner)
      · rename_i hpredicate
        obtain rfl := List.mem_singleton.mp hinner
        rw [KeyPredicate.accepts_iff] at hpredicate
        have hkey := SortedMap.mem_keys_iff.mpr ⟨u, hfind⟩
        exact alone hmem (.inl (.key hkey hpredicate)) rfl rfl
    | _ => exact hwhole hmem (List.mem_singleton.mp hmem)
  | sequence element least greatest ih =>
    cases v with
    | list items =>
      rcases mem_listFailures_iff.mp hmem with ⟨-, heq⟩ | ⟨hwithin, position, item, hitem, hinner⟩
      · exact hwhole hmem heq
      · exact inward hmem hinner rfl (.element hwithin hitem) (ih hinner)
    | _ => exact hwhole hmem (List.mem_singleton.mp hmem)
  | union variants ih =>
    rcases of_mem_unionFailures hmem with heq | ⟨first, others, rfl, hheads⟩
    · exact hwhole hmem heq
    · refine gathered hmem fun head hhead => ?_
      obtain ⟨found, hfound, hhead⟩ := hheads head hhead
      rw [variantFailures_eq] at hfound
      obtain ⟨variant, hvariant, rfl⟩ := List.mem_map.mp hfound
      exact ⟨variant, hvariant, hhead, ih variant hvariant hhead⟩
  | orNull inner ih =>
    have hinner := hmem
    rw [failures] at hinner
    split at hinner
    · exact absurd hinner List.not_mem_nil
    · rename_i hnull
      have hsolid : v ≠ .null := by
        rintro rfl
        exact hnull rfl
      exact inward hmem hinner base.within_root.symm (.inner hsolid) (ih hinner)

/-- Everything that is collected rests on a shape that is visited. -/
theorem failures_grounded (hmem : rejection ∈ shape.failures v base) :
    rejection.Grounded Reason base shape v := by
  induction hmem using mem_failures_induction with
  | @alone _ _ base rejection own _ hreason hpath halternatives =>
    obtain ⟨path, expected, actual, alternatives⟩ := rejection
    cases hpath
    cases halternatives
    exact .alone base hreason
  | inward _ _ hplace hvisits ih =>
    cases hplace
    exact ih.outward hvisits
  | @gathered variants v base first others _ hheads =>
    have hgrounded : ∀ head ∈ first :: others, head.Grounded Reason base (union variants) v := by
      intro head hhead
      obtain ⟨variant, hvariant, -, hhead⟩ := hheads head hhead
      exact hhead.same (.variant hvariant)
    obtain ⟨hfirst, hothers⟩ := List.forall_mem_cons.mp hgrounded
    exact hfirst.withAlternatives hothers

theorem check_grounded (h : shape.check v base = .error rejection) :
    rejection.Grounded Reason base shape v := by
  rw [check_eq_firstOf, Walk.firstOf_eq_error_iff] at h
  exact failures_grounded (List.mem_of_head? h)

/-- Where the lists of strings have no other elements, everything is said by a shape about what it
accepts itself. -/
theorem check_objects (hfit : shape.StringsFit v) (h : shape.check v base = .error rejection) :
    rejection.Grounded Objects base shape v := by
  refine (check_grounded h).imp fun hvisits hreason => ?_
  rcases hreason with hobjects | ⟨hwithin, hitem, hrefused⟩
  · exact hobjects
  · have hmem := List.mem_of_getElem? hitem
    exact absurd (hfit _ _ _ _ _ hvisits hwithin _ hmem) hrefused

section Strings

variable {allowed : Option NameSet} {least greatest : Nat} {items : List Value}

/-- Of a list of strings that speaks for itself, only the whole is refused. -/
theorem path_of_strings (h : rejection.Grounded Objects base (strings allowed least greatest) v) :
    rejection.path = base := by
  cases h with
  | intro hvisits hobjects _ =>
    cases hvisits
    cases hobjects
    exact base.within_root

/-- A list of strings that is looked through is refused for one of its elements. -/
theorem path_of_check_strings (hwithin : withinBounds least (some greatest) items.length = true)
    (h : (strings allowed least greatest).check (.list items) base = .error rejection) :
    ∃ position, rejection.path = base.index position := by
  rw [check_eq_firstOf, Walk.firstOf_eq_error_iff] at h
  rcases mem_listFailures_iff.mp (List.mem_of_head? h) with
    ⟨hbeyond, -⟩ | ⟨-, position, item, -, hmem⟩
  · exact absurd (hwithin.symm.trans hbeyond) (by decide)
  · obtain ⟨-, rfl⟩ := mem_failUnless_iff.mp hmem
    exact ⟨position, rfl⟩

theorem stringsFit_of_objects
    (h : ∀ rejection, (strings allowed least greatest).check v base = .error rejection →
      rejection.Grounded Objects base (strings allowed least greatest) v) :
    (strings allowed least greatest).StringsFit v := by
  intro segments _ _ _ items hvisits hwithin
  cases hvisits
  cases hcheck : (strings allowed least greatest).check (.list items) base with
  | ok =>
    obtain ⟨_, heq, -, -, hitems⟩ := (check_eq_ok_iff _ _ _).mp hcheck
    cases heq
    exact hitems
  | error rejection =>
    obtain ⟨position, hpath⟩ := path_of_check_strings hwithin hcheck
    rw [path_of_strings (h rejection hcheck)] at hpath
    have hlength := congrArg (·.segments.length) hpath
    simp [Path.index, Path.push] at hlength

end Strings

end Shape

/-- What a rejection expects in its place is asked for by a shape that is applied there: what the
shape accepts, where it has refused what stands there, or what belongs under a missing key, or that
a key is not there. This holds where the elements of lists of strings are among the strings, and of
such a list by itself only then: of an element that is not, it is expected what is expected of the
list. -/
theorem rejections_rest_on_shapes (shape : Shape) (v : Value) (base : Path) :
    (shape.StringsFit v → ∀ rejection, shape.check v base = .error rejection →
      rejection.Grounded Shape.Objects base shape v) ∧
    (∀ rejection, shape.check v base = .error rejection →
      rejection.Grounded Shape.Reason base shape v) ∧
    (∀ allowed least greatest, shape = .strings allowed least greatest →
      (∀ rejection, shape.check v base = .error rejection →
        rejection.Grounded Shape.Objects base shape v) → shape.StringsFit v) ∧
    ∀ segments target u, shape.Visits v segments target u →
      shape.Applies segments target ∧ (Path.mk segments).resolve? v = some u := by
  refine ⟨?_, ?_, ?_, ?_⟩
  · intro hfit rejection h
    exact Shape.check_objects hfit h
  · intro rejection h
    exact Shape.check_grounded h
  · rintro allowed least greatest rfl h
    exact Shape.stringsFit_of_objects h
  · intro segments target u h
    exact ⟨h.applies, h.resolve?⟩

/-- A list of one string stands in a list where a string should stand. What is said to be expected
is a list of one string, which is there. -/
theorem list_expected_where_list_stands :
    ∃ rejection,
      (Shape.strings none 1 1).check (.list [.list [.string "a"]]) .root = .error rejection ∧
      rejection.path = Path.root.index 0 ∧
      rejection.expected = (Shape.strings none 1 1).expectation ∧
      rejection.path.resolve? (.list [.list [.string "a"]]) = some (.list [.string "a"]) ∧
      (Shape.strings none 1 1).accepts (.list [.string "a"]) = true ∧
      ¬ rejection.Grounded Shape.Objects .root (.strings none 1 1)
        (.list [.list [.string "a"]]) := by
  refine ⟨_, rfl, rfl, rfl, rfl, rfl, fun h => ?_⟩
  have hpath := Shape.path_of_strings h
  cases hpath

end FlowContract
