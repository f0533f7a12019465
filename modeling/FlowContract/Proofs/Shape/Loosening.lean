import FlowContract.Proofs.Shape.Meaning
import FlowContract.Proofs.SortedMap
import Mathlib.Logic.Relation

/-!
Looser shapes. A format is revised by changing shapes that stand deep within others. Main statement:
a shape in which any number of places have been changed, each in one of the ways that let values in,
accepts whatever it accepted before. A change is first looked at as one of a whole shape, and then
in what encloses it, which lets more values in whenever one of its parts does.
-/

namespace FlowContract

open Json (Value)

namespace Shape

/-- A change of a whole shape that lets values in. A key may be declared only in a closed mapping,
where no value has had it: in an open one it may have stood with any value. -/
inductive Eased : Shape → Shape → Prop where
  | replaced {shape shape' : Shape}
      (h : ∀ v, shape.accepts v = true → shape'.accepts v = true) : Eased shape shape'
  | nullable (shape : Shape) : Eased shape shape.nullable
  | variant (variants : List Shape) (last : Shape) :
      Eased (union variants) (union (variants ++ [last]))
  | unrequired (front back : List Field) (name : String) (shape : Shape) (closed : Bool) :
      Eased (record (front ++ .mandatory name shape :: back) closed)
        (record (front ++ .optional name shape :: back) closed)
  | opened (fields : List Field) : Eased (record fields true) (record fields false)
  | declared (front back : List Field) {name : String} (shape : Shape)
      (hfresh : ∀ field ∈ front ++ back, field.name ≠ name) :
      Eased (record (front ++ back) true) (record (front ++ .optional name shape :: back) true)
  | stringCount (allowed : Option NameSet) {least least' greatest greatest' : Nat}
      (hleast : least' ≤ least) (hgreatest : greatest ≤ greatest') :
      Eased (strings allowed least greatest) (strings allowed least' greatest')
  | elementCount (element : Shape) {least least' : Nat} {greatest greatest' : Option Nat}
      (hleast : least' ≤ least)
      (hgreatest : ∀ bound' ∈ greatest', ∃ bound ∈ greatest, bound ≤ bound') :
      Eased (sequence element least greatest) (sequence element least' greatest')
  | choiceSet {allowed allowed' : NameSet} (h : ∀ name ∈ allowed.keys, name ∈ allowed'.keys) :
      Eased (choice allowed) (choice allowed')
  | stringSet {allowed allowed' : Option NameSet} (least greatest : Nat)
      (h : ∀ set' ∈ allowed', ∃ set ∈ allowed, ∀ name ∈ set.keys, name ∈ set'.keys) :
      Eased (strings allowed least greatest) (strings allowed' least greatest)
  | predicate {predicate predicate' : KeyPredicate} (value : Shape)
      (h : ∀ key, predicate.accepts key = true → predicate'.accepts key = true) :
      Eased (keyed predicate value) (keyed predicate' value)

/-- Such a change in one place of a shape, with all around it as it was. -/
inductive EasedWithin : Shape → Shape → Prop where
  | here {shape shape' : Shape} (h : Eased shape shape') : EasedWithin shape shape'
  | field (front back : List Field) (name : String) (required closed : Bool) {shape shape' : Shape}
      (h : EasedWithin shape shape') :
      EasedWithin (record (front ++ ⟨name, shape, required⟩ :: back) closed)
        (record (front ++ ⟨name, shape', required⟩ :: back) closed)
  | member (predicate : KeyPredicate) {value value' : Shape} (h : EasedWithin value value') :
      EasedWithin (keyed predicate value) (keyed predicate value')
  | element (least : Nat) (greatest : Option Nat) {element element' : Shape}
      (h : EasedWithin element element') :
      EasedWithin (sequence element least greatest) (sequence element' least greatest)
  | variant (front back : List Shape) {variant variant' : Shape}
      (h : EasedWithin variant variant') :
      EasedWithin (union (front ++ variant :: back)) (union (front ++ variant' :: back))
  | inner {inner inner' : Shape} (h : EasedWithin inner inner') :
      EasedWithin (orNull inner) (orNull inner')

/-- Any number of such changes, one after the other. -/
abbrev Loosened : Shape → Shape → Prop := Relation.ReflTransGen EasedWithin

variable {shape shape' : Shape} {v : Value}

/-- A record with other fields stands for a mapping of its own if these are in the mapping as they
are declared now, and if no name has been dropped. -/
theorem Admits.with_fields {fields fields' : List Field} {closed : Bool}
    (h : (record fields closed).Admits v)
    (hfields : ∀ entries : SortedMap Value, (∀ field ∈ fields, field.Admits entries) →
      (closed = true → ∀ key ∈ entries.keys, ∃ field ∈ fields, field.name = key) →
      ∀ field ∈ fields', field.Admits entries)
    (hnames : ∀ field ∈ fields, field.name ∈ fields'.map Field.name) :
    (record fields' closed).Admits v := by
  obtain ⟨entries, rfl, hadmits, hdeclared⟩ := admits_record_iff.mp h
  refine admits_record_iff.mpr ⟨entries, rfl, hfields entries hadmits hdeclared, ?_⟩
  intro hclosed key hkey
  obtain ⟨field, hfield, rfl⟩ := hdeclared hclosed key hkey
  exact List.mem_map.mp (hnames field hfield)

/-- A key that a closed mapping does not have may be declared. -/
theorem Admits.declared {front back : List Field} {name : String}
    (h : (record (front ++ back) true).Admits v)
    (hfresh : ∀ field ∈ front ++ back, field.name ≠ name) (shape : Shape) :
    (record (front ++ .optional name shape :: back) true).Admits v := by
  refine h.with_fields ?_ ?_
  · intro entries hadmits hdeclared
    have habsent : entries.find? name = none := by
      rw [SortedMap.find?_eq_none_iff]
      intro hkey
      obtain ⟨field, hfield, hname⟩ := hdeclared rfl name hkey
      exact hfresh field hfield hname
    have hname : (Field.optional name shape).Admits entries := by
      constructor
      · intro u hu
        cases habsent.symm.trans hu
      · rintro ⟨⟩
    obtain ⟨hfront, hback⟩ := List.forall_mem_append.mp hadmits
    exact List.forall_mem_append.mpr ⟨hfront, List.forall_mem_cons.mpr ⟨hname, hback⟩⟩
  · intro field hfield
    apply List.mem_map_of_mem
    simp only [List.mem_append, List.mem_cons] at hfield ⊢
    exact hfield.imp_right .inr

/-- A field is no worse off if it has a looser shape or is not required any more. -/
theorem Admits.eased_field {front back : List Field} {name : String}
    {required required' closed : Bool}
    (h : (record (front ++ ⟨name, shape, required⟩ :: back) closed).Admits v)
    (hshape : ∀ u, shape.Admits u → shape'.Admits u)
    (hrequired : required' = true → required = true) :
    (record (front ++ ⟨name, shape', required'⟩ :: back) closed).Admits v := by
  refine h.with_fields ?_ ?_
  · intro entries hadmits _
    obtain ⟨hfront, hback⟩ := List.forall_mem_append.mp hadmits
    obtain ⟨⟨hfield, hpresent⟩, hback⟩ := List.forall_mem_cons.mp hback
    have hfield' : (Field.mk name shape' required').Admits entries :=
      ⟨fun u hu => hshape u (hfield u hu), fun h => hpresent (hrequired h)⟩
    exact List.forall_mem_append.mpr ⟨hfront, List.forall_mem_cons.mpr ⟨hfield', hback⟩⟩
  · intro field hfield
    simp only [List.mem_append, List.mem_cons, List.map_append, List.map_cons] at hfield ⊢
    rcases hfield with hfront | rfl | hback
    · exact .inl (List.mem_map_of_mem hfront)
    · exact .inr (.inl rfl)
    · exact .inr (.inr (List.mem_map_of_mem hback))

theorem Eased.admits (h : Eased shape shape') (hv : shape.Admits v) : shape'.Admits v := by
  cases h with
  | replaced h => exact accepts_eq_true_iff.mp (h v (accepts_eq_true_iff.mpr hv))
  | nullable => exact admits_nullable_iff.mpr (.inr hv)
  | variant variants last =>
    obtain ⟨variant, hvariant, hv⟩ := admitsSome_iff.mp hv
    exact admitsSome_iff.mpr ⟨variant, List.mem_append_left _ hvariant, hv⟩
  | unrequired front back name shape closed => exact hv.eased_field (fun _ => id) nofun
  | opened fields =>
    obtain ⟨entries, rfl, hfields, -⟩ := admits_record_iff.mp hv
    exact admits_record_iff.mpr ⟨entries, rfl, hfields, nofun⟩
  | declared front back shape hfresh => exact hv.declared hfresh shape
  | stringCount allowed hleast hgreatest =>
    obtain ⟨items, rfl, hleast', hgreatest', hitems⟩ := hv
    exact ⟨items, rfl, Nat.le_trans hleast hleast', Nat.le_trans hgreatest' hgreatest, hitems⟩
  | elementCount element hleast hgreatest =>
    obtain ⟨items, rfl, hleast', hgreatest', hitems⟩ := hv
    refine ⟨items, rfl, Nat.le_trans hleast hleast', fun bound' hbound' => ?_, hitems⟩
    obtain ⟨bound, hbound, hle⟩ := hgreatest bound' hbound'
    exact Nat.le_trans (hgreatest' bound hbound) hle
  | choiceSet h =>
    obtain ⟨name, rfl, hname⟩ := hv
    refine ⟨name, rfl, fun set hset => ?_⟩
    cases hset
    exact h name (hname _ rfl)
  | stringSet least greatest h =>
    obtain ⟨items, rfl, hleast, hgreatest, hitems⟩ := hv
    refine ⟨items, rfl, hleast, hgreatest, fun item hitem => ?_⟩
    obtain ⟨name, rfl, hname⟩ := hitems item hitem
    refine ⟨name, rfl, fun set' hset' => ?_⟩
    obtain ⟨set, hset, hsub⟩ := h set' hset'
    exact hsub name (hname set hset)
  | predicate value h =>
    obtain ⟨entries, rfl, hentries⟩ := hv
    refine ⟨entries, rfl, fun key u hu => ?_⟩
    obtain ⟨hkey, hvalue⟩ := hentries key u hu
    exact ⟨KeyPredicate.accepts_iff.mp (h key (KeyPredicate.accepts_iff.mpr hkey)), hvalue⟩

/-- The induction is on the way down to the place of the change: of what encloses a shape, each kind
lets more values in if the shape does. -/
theorem EasedWithin.admits (h : EasedWithin shape shape') (hv : shape.Admits v) :
    shape'.Admits v := by
  induction h generalizing v with
  | here h => exact h.admits hv
  | field front back name required closed _ ih => exact hv.eased_field (fun _ => ih) id
  | member predicate _ ih =>
    obtain ⟨entries, rfl, hentries⟩ := hv
    exact ⟨entries, rfl, fun key u hu => (hentries key u hu).imp_right ih⟩
  | element least greatest _ ih =>
    obtain ⟨items, rfl, hleast, hgreatest, hitems⟩ := hv
    exact ⟨items, rfl, hleast, hgreatest, fun item hitem => ih (hitems item hitem)⟩
  | variant front back _ ih =>
    simp only [Admits, admitsSome_iff, List.mem_append, List.mem_cons] at hv ⊢
    obtain ⟨other, hfront | rfl | hback, hv⟩ := hv
    · exact ⟨other, .inl hfront, hv⟩
    · exact ⟨_, .inr (.inl rfl), ih hv⟩
    · exact ⟨other, .inr (.inr hback), hv⟩
  | inner _ ih => exact hv.imp_right ih

theorem Loosened.admits (h : Loosened shape shape') (hv : shape.Admits v) : shape'.Admits v := by
  induction h with
  | refl => exact hv
  | tail _ hstep ih => exact hstep.admits ih

/-- What is nullable already is not changed. -/
theorem nullable_nullable (shape : Shape) : shape.nullable.nullable = shape.nullable := by
  cases shape <;> rfl

/-- A shape that has been loosened, in any number of places and at any depth, accepts every value
that it accepted before. To be made nullable adds null to what a shape accepts and nothing else, and
when it is done again the shape still says the same about every value, in the same words. -/
theorem loosening_never_rejects_more :
    (∀ shape shape', Loosened shape shape' →
      ∀ v, shape.accepts v = true → shape'.accepts v = true) ∧
    (∀ shape v, (nullable shape).accepts v = true ↔ v = .null ∨ shape.accepts v = true) ∧
    ∀ shape v base, (nullable (nullable shape)).check v base = (nullable shape).check v base := by
  refine ⟨?_, ?_, ?_⟩
  · intro shape shape' h v hv
    exact accepts_eq_true_iff.mpr (h.admits (accepts_eq_true_iff.mp hv))
  · intro shape v
    simp only [accepts_eq_true_iff, admits_nullable_iff]
  · intro shape v base
    rw [nullable_nullable]

/-- Named elements, and the same after three changes: the name may be null and a title may be given
in each of them, and a single one will do. -/
theorem named_elements_after_loosening :
    let before := sequence (closed [.mandatory "name" .string]) 2 none
    let after := sequence (closed [.mandatory "name" .nullableString, .optional "title" .string]) 1
      none
    let v : Value := .list [.ofPairs [("name", .string "a")], .ofPairs [("name", .string "b")]]
    Loosened before after ∧ before.accepts v = true ∧ after.accepts v = true := by
  intro before after v
  have hname := (EasedWithin.here (.nullable .string)).field [] [] "name" true true
  have htitle : EasedWithin (closed [.mandatory "name" .nullableString])
      (closed [.mandatory "name" .nullableString, .optional "title" .string]) :=
    .here (.declared [.mandatory "name" .nullableString] [] .string (by decide))
  have hcount : Eased (sequence (closed [.mandatory "name" .nullableString,
      .optional "title" .string]) 2 none) after := .elementCount _ (by decide) nofun
  have hloosened : Loosened before after :=
    ((Relation.ReflTransGen.single (hname.element 2 none)).tail (htitle.element 2 none)).tail
      (.here hcount)
  exact ⟨hloosened, rfl, loosening_never_rejects_more.1 before after hloosened v rfl⟩

/-- In an open mapping a key must not be declared: it may have stood there with any value. -/
example : (record [] false).accepts (.ofPairs [("title", .null)]) = true ∧
    (record [.optional "title" .string] false).accepts (.ofPairs [("title", .null)]) = false :=
  ⟨rfl, rfl⟩

end Shape

end FlowContract
