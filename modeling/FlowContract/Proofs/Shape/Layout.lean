import FlowContract.Proofs.Json.Nulls
import FlowContract.Proofs.Shape.Places

/-!
What a shape is made of, as a list. Everything that applies somewhere in the values of a shape is on
the list, so that what is to hold of all of it can be looked up.
-/

namespace FlowContract

open Json (Value)

/-- Whether a step of a format is taken by a step into a document. -/
inductive Step.Takes : Step → Segment → Prop where
  | key (name : String) : Takes (.key name) (.key name)
  | anyKey (name : String) : Takes .anyKey (.key name)
  | anyIndex (position : Nat) : Takes .anyIndex (.index position)

theorem Step.takes_key_iff {name : String} {segment : Segment} :
    (Step.key name).Takes segment ↔ segment = .key name := by
  constructor
  · rintro ⟨⟩
    rfl
  · rintro rfl
    exact .key name

theorem Step.takes_anyKey_iff {segment : Segment} :
    Step.anyKey.Takes segment ↔ ∃ name, segment = .key name := by
  constructor
  · rintro ⟨⟩
    exact ⟨_, rfl⟩
  · rintro ⟨name, rfl⟩
    exact .anyKey name

/-- Whether a place of a format is that of a part of a document. -/
def Place.Covers (place : Place) (segments : List Segment) : Prop :=
  List.Forall₂ Step.Takes place segments

namespace Shape

/-- The parts of a member as they are seen from outside. -/
def partsBehind (step : Step) (parts : List (Place × Shape)) : List (Place × Shape) :=
  parts.map fun part => (step :: part.1, part.2)

mutual

/-- The shapes in a shape, itself included, each with the place where it applies. -/
def layout : Shape → List (Place × Shape)
  | scalar kind nullable => [([], scalar kind nullable)]
  | choice allowed => [([], choice allowed)]
  | strings allowed least greatest => [([], strings allowed least greatest)]
  | anyMapping => [([], anyMapping)]
  | record fields closed => ([], record fields closed) :: fieldLayout fields
  | keyed predicate value => ([], keyed predicate value) :: partsBehind .anyKey value.layout
  | sequence element least greatest =>
    ([], sequence element least greatest) :: partsBehind .anyIndex element.layout
  | union variants => ([], union variants) :: variantLayout variants
  | orNull inner => ([], orNull inner) :: inner.layout
termination_by structural shape => shape

def fieldLayout : List Field → List (Place × Shape)
  | [] => []
  | ⟨name, shape, _⟩ :: rest => partsBehind (.key name) shape.layout ++ fieldLayout rest
termination_by structural fields => fields

def variantLayout : List Shape → List (Place × Shape)
  | [] => []
  | variant :: rest => variant.layout ++ variantLayout rest
termination_by structural variants => variants

end

theorem mem_partsBehind {step : Step} {parts : List (Place × Shape)} {place : Place}
    {target : Shape} (h : (place, target) ∈ parts) :
    (step :: place, target) ∈ partsBehind step parts :=
  List.mem_map.mpr ⟨(place, target), h, rfl⟩

theorem mem_fieldLayout {fields : List Field} {field : Field} {part : Place × Shape}
    (hfield : field ∈ fields) (h : part ∈ partsBehind (.key field.name) field.shape.layout) :
    part ∈ fieldLayout fields := by
  induction fields with
  | nil => cases hfield
  | cons head rest ih =>
    obtain ⟨name, shape, required⟩ := head
    rw [fieldLayout, List.mem_append]
    rcases List.mem_cons.mp hfield with rfl | hfield
    · exact .inl h
    · exact .inr (ih hfield)

theorem mem_variantLayout {variants : List Shape} {variant : Shape} {part : Place × Shape}
    (hvariant : variant ∈ variants) (h : part ∈ variant.layout) :
    part ∈ variantLayout variants := by
  induction variants with
  | nil => cases hvariant
  | cons head rest ih =>
    rw [variantLayout, List.mem_append]
    rcases List.mem_cons.mp hvariant with rfl | hvariant
    · exact .inl h
    · exact .inr (ih hvariant)

variable {shape target : Shape} {segments : List Segment}

theorem layout_self (shape : Shape) : ([], shape) ∈ shape.layout := by
  cases shape <;> exact List.mem_cons_self

/-- What applies somewhere is listed, with a place that covers the one where it applies. -/
theorem Applies.mem_layout (h : shape.Applies segments target) :
    ∃ place : Place, (place, target) ∈ shape.layout ∧ place.Covers segments := by
  induction h with
  | here shape => exact ⟨[], layout_self shape, .nil⟩
  | @field fields closed field rest target hfield _ ih =>
    obtain ⟨place, hmem, hcovers⟩ := ih
    have hpart := mem_fieldLayout hfield (mem_partsBehind hmem)
    exact ⟨_, List.mem_cons_of_mem _ hpart, .cons (.key field.name) hcovers⟩
  | member name _ ih =>
    obtain ⟨place, hmem, hcovers⟩ := ih
    exact ⟨_, List.mem_cons_of_mem _ (mem_partsBehind hmem), .cons (.anyKey name) hcovers⟩
  | element position _ ih =>
    obtain ⟨place, hmem, hcovers⟩ := ih
    exact ⟨_, List.mem_cons_of_mem _ (mem_partsBehind hmem), .cons (.anyIndex position) hcovers⟩
  | variant hvariant _ ih =>
    obtain ⟨place, hmem, hcovers⟩ := ih
    exact ⟨place, List.mem_cons_of_mem _ (mem_variantLayout hvariant hmem), hcovers⟩
  | inner _ ih =>
    obtain ⟨place, hmem, hcovers⟩ := ih
    exact ⟨place, List.mem_cons_of_mem _ hmem, hcovers⟩

/-! Unions, and where they apply. -/

def variants? : Shape → Option (List Shape)
  | union variants => some variants
  | _ => none

/-- The unions in a shape, each with the place where it applies. -/
def unions (shape : Shape) : List (Place × List Shape) :=
  shape.layout.filterMap fun part => part.2.variants?.map (part.1, ·)

theorem Applies.mem_unions {variants : List Shape} (h : shape.Applies segments (union variants)) :
    ∃ place : Place, (place, variants) ∈ shape.unions ∧ place.Covers segments := by
  obtain ⟨place, hmem, hcovers⟩ := h.mem_layout
  exact ⟨place, List.mem_filterMap.mpr ⟨_, hmem, rfl⟩, hcovers⟩

/-- A place which no union has a say in: none applies there or on the way there. -/
def Settled (shape : Shape) (segments : List Segment) : Prop :=
  ∀ front rest variants, segments = front ++ rest → ¬ shape.Applies front (union variants)

theorem settled_of_unions (h : ∀ place variants, (place, variants) ∈ shape.unions →
    ∀ front rest, place.Covers front → segments ≠ front ++ rest) : shape.Settled segments := by
  intro front rest variants heq happlies
  obtain ⟨place, hmem, hcovers⟩ := happlies.mem_unions
  exact h place variants hmem front rest hcovers heq

/-! Records that are closed and name each key once, and unions whose forms are told apart by keys
that they have to have. -/

def hasRequiredKey : Shape → Bool
  | record fields _ => fields.any (·.required)
  | _ => false

def isStrict : Shape → Bool
  | record fields closed => closed && decide (fields.map Field.name).Nodup
  | union variants => apart variants && variants.all hasRequiredKey
  | _ => true

/-- All records and unions in a shape are of this kind. -/
def Strict (shape : Shape) : Prop :=
  ∀ segments target, shape.Applies segments target → target.isStrict = true

theorem strict_of_layout (h : shape.layout.all (·.2.isStrict) = true) : shape.Strict := by
  intro segments target happlies
  obtain ⟨place, hmem, -⟩ := happlies.mem_layout
  exact List.all_eq_true.mp h _ hmem

theorem Strict.record {fields : List Field} {closed : Bool}
    (h : (Shape.record fields closed).Strict) : closed = true ∧ (fields.map Field.name).Nodup := by
  have hstrict := h [] _ (.here _)
  obtain ⟨hclosed, hnodup⟩ := Bool.and_eq_true_iff.mp hstrict
  exact ⟨hclosed, of_decide_eq_true hnodup⟩

theorem Strict.union {variants : List Shape} (h : (Shape.union variants).Strict) :
    apart variants = true ∧ ∀ variant ∈ variants, variant.hasRequiredKey = true := by
  have hstrict := h [] _ (.here _)
  obtain ⟨hapart, hrequired⟩ := Bool.and_eq_true_iff.mp hstrict
  exact ⟨hapart, List.all_eq_true.mp hrequired⟩

/-- A form of a union that accepts a mapping is the only one that accepts a mapping with the same
keys and perhaps others. -/
theorem Strict.eq_of_admits {variants : List Shape} (h : (Shape.union variants).Strict)
    {variant other : Shape} (hvariant : variant ∈ variants) (hother : other ∈ variants)
    {entries entries' : SortedMap Value} (hadmits : variant.Admits (.mapping entries))
    (hkeys : ∀ key ∈ entries.keys, key ∈ entries'.keys)
    (hadmits' : other.Admits (.mapping entries')) : other = variant := by
  obtain ⟨hapart, hrequired⟩ := h.union
  obtain ⟨hclosed, hpairwise⟩ := Bool.and_eq_true_iff.mp hapart
  obtain ⟨names, hnames⟩ := Option.isSome_iff_exists.mp (List.all_eq_true.mp hclosed _ hvariant)
  obtain ⟨others, hothers⟩ := Option.isSome_iff_exists.mp (List.all_eq_true.mp hclosed _ hother)
  obtain ⟨key, hkey, hname⟩ : ∃ key ∈ entries.keys, key ∈ names := by
    have hsome := hrequired variant hvariant
    unfold hasRequiredKey at hsome
    split at hsome
    · obtain ⟨field, hfield, hfieldRequired⟩ := List.any_eq_true.mp hsome
      obtain ⟨_, heq, hfields, -⟩ := admits_record_iff.mp hadmits
      cases heq
      have hkey := (hfields field hfield).2 hfieldRequired
      obtain ⟨_, heq, hdeclared⟩ := hadmits.closedKeys hnames
      cases heq
      exact ⟨field.name, hkey, hdeclared _ hkey⟩
    · cases hsome
  obtain ⟨_, heq, hdeclared⟩ := hadmits'.closedKeys hothers
  cases heq
  by_contra hdiffer
  have hdisjoint : KeysDiffer variant other :=
    (of_decide_eq_true hpairwise).forall hvariant hother (Ne.symm hdiffer)
  have hapartKeys : ∀ key ∈ names, key ∉ others := by
    simpa [KeysDiffer, hnames, hothers] using hdisjoint
  exact hapartKeys key hname (hdeclared key (hkeys key hkey))

end Shape

end FlowContract
