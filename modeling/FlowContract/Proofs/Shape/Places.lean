import FlowContract.Path
import FlowContract.Proofs.Shape.Meaning
import FlowContract.Proofs.SortedMap
import Mathlib.Data.List.Pairwise

/-!
Which shape stands for the values in which place. In a shape whose unions are told apart by their
keys, each accepted value has a mapping wherever the shape asks for a record.
-/

namespace FlowContract

open Json (Value)

namespace Shape

/-- In a place of the values of a shape, a shape applies: in the place of the values themselves the
shape and what it is made of, and further in the shapes of their members. -/
inductive Applies : Shape → List Segment → Shape → Prop where
  | here (shape : Shape) : Applies shape [] shape
  | field {fields : List Field} {closed : Bool} {field : Field} {rest : List Segment}
      {target : Shape} (hfield : field ∈ fields) (h : Applies field.shape rest target) :
      Applies (record fields closed) (.key field.name :: rest) target
  | member {predicate : KeyPredicate} {value : Shape} (name : String) {rest : List Segment}
      {target : Shape} (h : Applies value rest target) :
      Applies (keyed predicate value) (.key name :: rest) target
  | element {element : Shape} {least : Nat} {greatest : Option Nat} (position : Nat)
      {rest : List Segment} {target : Shape} (h : Applies element rest target) :
      Applies (sequence element least greatest) (.index position :: rest) target
  | variant {variants : List Shape} {variant : Shape} {segments : List Segment} {target : Shape}
      (hvariant : variant ∈ variants) (h : Applies variant segments target) :
      Applies (union variants) segments target
  | inner {inner : Shape} {segments : List Segment} {target : Shape}
      (h : Applies inner segments target) : Applies (orNull inner) segments target

/-- What applies further in applies further out, in the place that is made up of both. -/
theorem Applies.trans {shape inner target : Shape} {front rest : List Segment}
    (h : shape.Applies front inner) (h' : inner.Applies rest target) :
    shape.Applies (front ++ rest) target := by
  induction h with
  | here => exact h'
  | field hfield _ ih => exact .field hfield (ih h')
  | member name _ ih => exact .member name (ih h')
  | element position _ ih => exact .element position (ih h')
  | variant hvariant _ ih => exact .variant hvariant (ih h')
  | inner _ ih => exact .inner (ih h')

def closedKeys? : Shape → Option (List String)
  | record fields true => some (fields.map Field.name)
  | _ => none

def KeysDiffer (a b : Shape) : Prop :=
  ∀ key ∈ a.closedKeys?.getD [], key ∉ b.closedKeys?.getD []

instance : DecidableRel KeysDiffer := fun a b =>
  inferInstanceAs (Decidable (∀ key ∈ a.closedKeys?.getD [], key ∉ b.closedKeys?.getD []))

instance : Std.Symm KeysDiffer where
  symm _ _ hab key hb ha := hab key ha hb

/-- Whether shapes are those of mappings, of which no two have a key in common. -/
def apart (variants : List Shape) : Bool :=
  variants.all (·.closedKeys?.isSome) && decide (variants.Pairwise KeysDiffer)

mutual

/-- Whether the variants of each union in a shape are told apart by their keys. -/
def discriminated : Shape → Bool
  | record fields _ => fieldsDiscriminated fields
  | keyed _ value => value.discriminated
  | sequence element _ _ => element.discriminated
  | union variants => apart variants && allDiscriminated variants
  | orNull inner => inner.discriminated
  | scalar _ _ | choice _ | strings _ _ _ | anyMapping => true
termination_by structural shape => shape

def fieldsDiscriminated : List Field → Bool
  | [] => true
  | ⟨_, shape, _⟩ :: rest => shape.discriminated && fieldsDiscriminated rest
termination_by structural fields => fields

def allDiscriminated : List Shape → Bool
  | [] => true
  | shape :: rest => shape.discriminated && allDiscriminated rest
termination_by structural shapes => shapes

end

theorem fieldsDiscriminated_eq (fields : List Field) :
    fieldsDiscriminated fields = fields.all (·.shape.discriminated) := by
  induction fields with
  | nil => rfl
  | cons head rest ih =>
    obtain ⟨name, shape, required⟩ := head
    simp only [fieldsDiscriminated, List.all_cons, ih]

theorem allDiscriminated_eq (shapes : List Shape) :
    allDiscriminated shapes = shapes.all discriminated := by
  induction shapes with
  | nil => rfl
  | cons head rest ih => simp only [allDiscriminated, List.all_cons, ih]

theorem Admits.closedKeys {shape : Shape} {v : Value} {names : List String}
    (h : shape.Admits v) (hnames : shape.closedKeys? = some names) :
    ∃ entries, v = .mapping entries ∧ ∀ key ∈ entries.keys, key ∈ names := by
  unfold closedKeys? at hnames
  split at hnames
  · cases hnames
    obtain ⟨entries, rfl, -, hclosed⟩ := admits_record_iff.mp h
    refine ⟨entries, rfl, fun key hkey => ?_⟩
    obtain ⟨field, hfield, rfl⟩ := hclosed rfl key hkey
    exact List.mem_map_of_mem hfield
  · cases hnames

/-- A closed record applies in the places that begin with one of its keys, and in its own. -/
theorem Applies.of_closedKeys {shape target : Shape} {names : List String} {segment : Segment}
    {rest : List Segment} (h : shape.Applies (segment :: rest) target)
    (hnames : shape.closedKeys? = some names) : ∃ name ∈ names, segment = .key name := by
  cases h with
  | @field fields closed field rest target hfield h =>
    cases closed with
    | true =>
      cases hnames
      exact ⟨field.name, List.mem_map_of_mem hfield, rfl⟩
    | false => cases hnames
  | _ => cases hnames

/-- Of several shapes told apart by their keys, the one that accepts a value is the one that has
shapes for the places that the value has. -/
theorem admits_of_apart {variants : List Shape} {variant : Shape} {v u : Value} {target : Shape}
    {segment : Segment} {rest : List Segment} (hapart : apart variants = true)
    (hvariant : variant ∈ variants) (happlies : variant.Applies (segment :: rest) target)
    (hadmits : (union variants).Admits v)
    (hresolve : (Path.mk (segment :: rest)).resolve? v = some u) : variant.Admits v := by
  obtain ⟨hclosed, hpairwise⟩ := Bool.and_eq_true_iff.mp hapart
  obtain ⟨other, hother, hadmits⟩ := admitsSome_iff.mp hadmits
  obtain ⟨names, hnames⟩ := Option.isSome_iff_exists.mp (List.all_eq_true.mp hclosed _ hvariant)
  obtain ⟨others, hothers⟩ := Option.isSome_iff_exists.mp (List.all_eq_true.mp hclosed _ hother)
  obtain ⟨entries, rfl, hkeys⟩ := hadmits.closedKeys hothers
  obtain ⟨name, hname, rfl⟩ := happlies.of_closedKeys hnames
  by_cases hsame : variant = other
  · rw [hsame]
    exact hadmits
  · have hdiffer : KeysDiffer variant other :=
      (of_decide_eq_true hpairwise).forall hvariant hother hsame
    have hdisjoint : ∀ key ∈ names, key ∉ others := by
      simpa [KeysDiffer, hnames, hothers] using hdiffer
    rw [Path.resolve?_cons, Option.bind_eq_some_iff] at hresolve
    obtain ⟨member, hmember, -⟩ := hresolve
    have hkey := hkeys name (SortedMap.mem_keys_iff.mpr ⟨member, hmember⟩)
    exact absurd hkey (hdisjoint name hname)

/-- Where a record applies, no accepted value has a list. -/
theorem Applies.ne_list {shape : Shape} {segments : List Segment} {fields : List Field}
    {closed : Bool} (happlies : shape.Applies segments (record fields closed))
    (hdiscriminated : shape.discriminated = true) {v : Value} (hadmits : shape.Admits v)
    (items : List Value) : (Path.mk segments).resolve? v ≠ some (.list items) := by
  generalize htarget : record fields closed = target at happlies
  induction happlies generalizing v with
  | here shape =>
    subst htarget
    obtain ⟨entries, rfl, -⟩ := admits_record_iff.mp hadmits
    exact nofun
  | @field fields' closed' field rest target hfield h ih =>
    obtain ⟨entries, rfl, hfields, -⟩ := admits_record_iff.mp hadmits
    rw [discriminated, fieldsDiscriminated_eq, List.all_eq_true] at hdiscriminated
    rw [Path.resolve?_cons]
    intro hresolve
    obtain ⟨member, hmember, hresolve⟩ := Option.bind_eq_some_iff.mp hresolve
    have hmember' := (hfields field hfield).1 member hmember
    exact ih (hdiscriminated field hfield) hmember' htarget hresolve
  | @member predicate value name rest target h ih =>
    obtain ⟨entries, rfl, hentries⟩ := hadmits
    rw [Path.resolve?_cons]
    intro hresolve
    obtain ⟨member, hmember, hresolve⟩ := Option.bind_eq_some_iff.mp hresolve
    have hmem := hentries name member (SortedMap.mem_entries_iff.mpr hmember)
    exact ih hdiscriminated hmem.2 htarget hresolve
  | @element element least greatest position rest target h ih =>
    obtain ⟨elements, rfl, -, -, helements⟩ := hadmits
    rw [Path.resolve?_cons]
    intro hresolve
    obtain ⟨member, hmember, hresolve⟩ := Option.bind_eq_some_iff.mp hresolve
    have hmem : member ∈ elements := List.mem_of_getElem? hmember
    exact ih hdiscriminated (helements member hmem) htarget hresolve
  | @variant variants variant segments target hvariant h ih =>
    obtain ⟨hapart, hall⟩ := Bool.and_eq_true_iff.mp hdiscriminated
    rw [allDiscriminated_eq, List.all_eq_true] at hall
    intro hresolve
    cases segments with
    | nil =>
      -- Whichever variant it is that accepts the value, it is one of a mapping.
      obtain ⟨hclosed, -⟩ := Bool.and_eq_true_iff.mp hapart
      obtain ⟨other, hother, hadmits⟩ := admitsSome_iff.mp hadmits
      obtain ⟨names, hnames⟩ := Option.isSome_iff_exists.mp (List.all_eq_true.mp hclosed _ hother)
      obtain ⟨entries, rfl, -⟩ := hadmits.closedKeys hnames
      cases hresolve
    | cons segment rest =>
      have hadmits' := admits_of_apart hapart hvariant h hadmits hresolve
      exact ih (hall variant hvariant) hadmits' htarget hresolve
  | @inner inner segments target h ih =>
    intro hresolve
    rcases hadmits with rfl | hadmits
    · cases segments with
      | nil => cases hresolve
      | cons segment rest => cases segment <;> cases hresolve
    · exact ih hdiscriminated hadmits htarget hresolve

end Shape

end FlowContract
