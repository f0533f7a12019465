import FlowContract.Definitions.Catalog
import FlowContract.Definitions.Descriptor
import FlowContract.Proofs.Shape.Grounds

/-!
Documents in their places. A part of a document is checked and parsed with the place where it
stands, and the place is carried along by hand into every member. Main statement: the place has no
bearing on what is accepted or read, and of a rejection it changes nothing but where it begins, for
the rejection and for all the alternatives in it.
-/

namespace FlowContract

open Json (Value)

namespace Path

theorem within_push (base path : Path) (segment : Segment) :
    (base.within path).push segment = base.within (path.push segment) := by
  simp only [within, push, List.append_assoc]

theorem within_key (base path : Path) (name : String) :
    (base.within path).key name = base.within (path.key name) :=
  base.within_push path (.key name)

theorem within_index (base path : Path) (position : Nat) :
    (base.within path).index position = base.within (path.index position) :=
  base.within_push path (.index position)

end Path

namespace Rejection

mutual

/-- A rejection seen from further out: a place is put in front of its own and in front of those of
its alternatives, at every depth. The wording stays. -/
def placedAt (base : Path) : Rejection → Rejection
  | ⟨path, expected, actual, alternatives⟩ =>
    ⟨base.within path, expected, actual, allPlacedAt base alternatives⟩
termination_by structural rejection => rejection

def allPlacedAt (base : Path) : List Rejection → List Rejection
  | [] => []
  | rejection :: rest => rejection.placedAt base :: allPlacedAt base rest
termination_by structural rejections => rejections

end

theorem allPlacedAt_eq (base : Path) (rejections : List Rejection) :
    allPlacedAt base rejections = rejections.map (placedAt base) := by
  induction rejections with
  | nil => rfl
  | cons head rest ih => simp only [allPlacedAt, List.map_cons, ih]

/-- Alternatives are placed as the rejection is that carries them. -/
theorem placedAt_withAlternatives (base : Path) (rejection : Rejection)
    (others : List Rejection) :
    placedAt base { rejection with alternatives := others } =
      { placedAt base rejection with alternatives := others.map (placedAt base) } := by
  obtain ⟨path, expected, actual, alternatives⟩ := rejection
  simp only [placedAt, allPlacedAt_eq]

end Rejection

namespace Shape

open Rejection

variable {base path : Path} {v : Value}

theorem mismatch_within (shape : Shape) (v : Value) (base path : Path) :
    shape.mismatch v (base.within path) = (shape.mismatch v path).placedAt base := rfl

theorem failUnless_within (condition : Bool) (base path : Path) (expected actual : String) :
    failUnless condition ⟨base.within path, expected, actual, []⟩ =
      (failUnless condition ⟨path, expected, actual, []⟩).map (placedAt base) := by
  cases condition <;> rfl

/-- Of a union it is decided by what was found, and not by where, which rejection speaks for all. -/
theorem unionFailures_placedAt (base : Path) (whole : Rejection) (lists : List (List Rejection)) :
    unionFailures (whole.placedAt base) (lists.map (List.map (placedAt base))) =
      (unionFailures whole lists).map (placedAt base) := by
  have hany : (lists.map (List.map (placedAt base))).any List.isEmpty =
      lists.any List.isEmpty := by
    rw [List.any_map]
    apply congrArg (lists.any ·)
    funext found
    exact List.isEmpty_map
  have hheads : (lists.map (List.map (placedAt base))).filterMap List.head? =
      (lists.filterMap List.head?).map (placedAt base) := by
    rw [List.filterMap_map, List.map_filterMap]
    apply List.filterMap_congr
    intro found _
    exact List.head?_map
  unfold unionFailures
  rw [hany, hheads]
  split
  · rfl
  · cases lists.filterMap List.head? with
    | nil => rfl
    | cons first others =>
      simp only [List.map_cons, List.map_nil, placedAt_withAlternatives]

/-- What is collected from a list is placed if what is collected from its members is. -/
theorem flatMap_placedAt {α : Type} {l : List α} {collect collect' : α → List Rejection}
    (h : ∀ a ∈ l, collect' a = (collect a).map (placedAt base)) :
    l.flatMap collect' = (l.flatMap collect).map (placedAt base) := by
  rw [List.map_flatMap]
  exact List.flatMap_congr h

/-- All that is collected from a value is collected in the same order wherever the value stands. The
induction is on the shape; each case has to find its members in the places behind the place. -/
theorem failures_within (shape : Shape) (v : Value) (base path : Path) :
    shape.failures v (base.within path) = (shape.failures v path).map (placedAt base) := by
  induction shape generalizing v path with
  | scalar kind nullable => exact failUnless_within _ base _ _ _
  | choice allowed => exact failUnless_within _ base _ _ _
  | anyMapping => exact failUnless_within _ base _ _ _
  | strings allowed least greatest =>
    cases v with
    | list items =>
      simp only [failures, Value.items?]
      split
      · apply flatMap_placedAt
        intro entry _
        rw [Path.within_index]
        exact failUnless_within _ base _ _ _
      · rfl
    | _ => rfl
  | record fields closed ih =>
    cases v with
    | mapping entries =>
      simp only [failures, Value.entries?, List.map_append, fieldFailures_eq]
      congr 1
      · apply flatMap_placedAt
        intro entry _
        rw [Path.within_key]
        exact failUnless_within _ base _ _ _
      · apply flatMap_placedAt
        intro field hfield
        simp only [keyFailures, Path.within_key]
        cases entries.find? field.name with
        | none => exact failUnless_within _ base _ _ _
        | some u => exact ih field hfield u _
    | _ => rfl
  | keyed predicate value ih =>
    cases v with
    | mapping entries =>
      simp only [failures, Value.entries?]
      apply flatMap_placedAt
      intro entry _
      rw [Path.within_key]
      split
      · exact ih entry.2 _
      · rfl
    | _ => rfl
  | sequence element least greatest ih =>
    cases v with
    | list items =>
      simp only [failures, Value.items?]
      split
      · apply flatMap_placedAt
        intro entry _
        rw [Path.within_index]
        exact ih entry.1 _
      · rfl
    | _ => rfl
  | union variants ih =>
    have hvariants : variantFailures variants v (base.within path) =
        (variantFailures variants v path).map (List.map (placedAt base)) := by
      simp only [variantFailures_eq, List.map_map]
      apply List.map_congr_left
      intro variant hvariant
      exact ih variant hvariant v path
    rw [failures, hvariants, mismatch_within, unionFailures_placedAt]
    rfl
  | orNull inner ih =>
    rw [failures, failures]
    split
    · rfl
    · exact ih v path

theorem check_within (shape : Shape) (v : Value) (base path : Path) :
    shape.check v (base.within path) = (shape.check v path).mapError (placedAt base) := by
  rw [check_eq_firstOf, check_eq_firstOf, failures_within]
  cases shape.failures v path <;> rfl

theorem check_eq_validate (shape : Shape) (v : Value) (base : Path) :
    shape.check v base = ((shape.validate v).map fun _ => ()).mapError (placedAt base) := by
  have hplaced := shape.check_within v base .root
  rw [Path.within_root] at hplaced
  rw [hplaced, validate]
  cases shape.check v .root <;> rfl

theorem parse_within {α : Type} (shape : Shape) (decode : Value → Option α) (v : Value)
    (base path : Path) :
    shape.parse decode v (base.within path) =
      (shape.parse decode v path).mapError (placedAt base) := by
  simp only [parse, check_within]
  cases shape.check v path with
  | error rejection => rfl
  | ok =>
    cases decode v <;> rfl

end Shape

theorem SortedMap.traverse_mapError {ε ε' α β : Type} {f : String → α → Except ε β}
    {f' : String → α → Except ε' β} {g : ε → ε'} (h : ∀ key a, f' key a = (f key a).mapError g)
    (m : SortedMap α) : m.traverse f' = (m.traverse f).mapError g := by
  have hentries (l : List (String × α)) :
      traverseEntries f' l = (traverseEntries f l).mapError g := by
    induction l with
    | nil => rfl
    | cons head rest ih =>
      simp only [traverseEntries, h, ih]
      cases f head.1 head.2 with
      | error error => rfl
      | ok b => cases traverseEntries f rest <;> rfl
  simp only [traverse, hentries]
  cases traverseEntries f m.entries <;> rfl

theorem Except.map_mapError {ε ε' α β : Type} (x : Except ε α) (f : α → β) (g : ε → ε') :
    (x.mapError g).map f = (x.map f).mapError g := by
  cases x <;> rfl

open Rejection

theorem Definition.parse_within (v : Value) (base path : Path) :
    parse v (base.within path) = (parse v path).mapError (placedAt base) := by
  cases v with
  | mapping entries =>
    simp only [parse, Value.entries?]
    cases DefinitionKind.classify entries with
    | datatype =>
      simp only [Datatype.parse, Shape.parse_within, Except.map_mapError]
    | operator =>
      simp only [OperatorDefinition.parse, Shape.parse_within, Except.map_mapError]
  | _ => rfl

theorem Catalog.parse_within (v : Value) (base path : Path) :
    parse v (base.within path) = (parse v path).mapError (placedAt base) := by
  cases v with
  | mapping entries =>
    have htraverse := entries.traverse_mapError (g := placedAt base) fun id entry => by
      exact Definition.parse_within entry base (path.key id)
    simp only [parse, Value.entries?, Path.within_key, htraverse]
    cases entries.traverse fun id entry => Definition.parse entry (path.key id) <;> rfl
  | _ => rfl

/-- Wherever a value stands, it is accepted by the same shapes and read as the same datatype,
operator, definition, catalog or descriptor as by itself, and it is rejected as it is by itself,
with the place put in front of the path of the rejection and of each alternative in it. -/
theorem parsing_is_relative_to_its_place (v : Value) (base : Path) :
    (∀ shape : Shape, shape.check v base =
      ((shape.validate v).map fun _ => ()).mapError (placedAt base)) ∧
    Datatype.parse v base = (Datatype.parse v .root).mapError (placedAt base) ∧
    OperatorDefinition.parse v base = (OperatorDefinition.parse v .root).mapError (placedAt base) ∧
    Definition.parse v base = (Definition.parse v .root).mapError (placedAt base) ∧
    Catalog.parse v base = (Catalog.parse v .root).mapError (placedAt base) ∧
    ∀ version, Descriptor.parse version v base =
      (Descriptor.parse version v .root).mapError (placedAt base) := by
  have hroot : base.within .root = base := base.within_root
  have hshape {α : Type} (shape : Shape) (decode : Value → Option α) :
      shape.parse decode v base = (shape.parse decode v .root).mapError (placedAt base) := by
    have hplaced := shape.parse_within decode v base .root
    rwa [hroot] at hplaced
  have hdefinition := Definition.parse_within v base .root
  have hcatalog := Catalog.parse_within v base .root
  rw [hroot] at hdefinition hcatalog
  refine ⟨?_, hshape _ _, hshape _ _, hdefinition, hcatalog, ?_⟩
  · intro shape
    exact shape.check_eq_validate v base
  · intro version
    exact hshape _ _

end FlowContract
