import FlowContract.Proofs.Shape.Failures
import FlowContract.SortedMap.Lookup

/-!
What shapes mean: the values that a shape stands for, by recursion on the shape and without places,
wordings or an order of looking. Main statement: a check succeeds exactly on these values, wherever
they stand.
-/

namespace FlowContract

open Json (Value)

def ScalarKind.Admits : ScalarKind → Value → Prop
  | .string, v => ∃ value, v = .string value
  | .nonEmptyString, v => ∃ value, v = .string value ∧ value ≠ ""
  | .boolean, v => ∃ value, v = .boolean value
  | .number, v => ∃ value, v = .number value

def KeyPredicate.Admits : KeyPredicate → String → Prop
  | .any, _ => True
  | .exactly name, key => key = name
  | .not name, key => key ≠ name

namespace Shape

/-- The strings of a set, or all strings if there is no set. -/
def AdmitsString (allowed : Option NameSet) (v : Value) : Prop :=
  ∃ value, v = .string value ∧ ∀ set ∈ allowed, value ∈ set.keys

mutual

def Admits : Shape → Value → Prop
  | scalar kind nullable, v => kind.Admits v ∨ (nullable = true ∧ v = .null)
  | choice allowed, v => AdmitsString (some allowed) v
  | strings allowed least greatest, v => ∃ items, v = .list items ∧
      least ≤ items.length ∧ items.length ≤ greatest ∧ ∀ item ∈ items, AdmitsString allowed item
  | record fields closed, v => ∃ entries, v = .mapping entries ∧ AdmitsFields fields entries ∧
      (closed = true → ∀ key ∈ entries.keys, ∃ field ∈ fields, field.name = key)
  | keyed predicate shape, v => ∃ entries, v = .mapping entries ∧
      ∀ key value, (key, value) ∈ entries.entries → predicate.Admits key ∧ Admits shape value
  | sequence element least greatest, v => ∃ items, v = .list items ∧
      least ≤ items.length ∧ (∀ bound ∈ greatest, items.length ≤ bound) ∧
      ∀ item ∈ items, Admits element item
  | union variants, v => AdmitsSome variants v
  | orNull inner, v => v = .null ∨ Admits inner v
  | anyMapping, v => ∃ entries, v = .mapping entries
termination_by structural shape => shape

/-- The mappings in which every declared key has its shape, if it is there, and is there, if it has
to be. -/
def AdmitsFields : List Field → SortedMap Value → Prop
  | [], _ => True
  | ⟨name, shape, required⟩ :: rest, entries =>
    (∀ value, (name, value) ∈ entries.entries → Admits shape value) ∧
    (required = true → name ∈ entries.keys) ∧ AdmitsFields rest entries
termination_by structural fields => fields

/-- The values that one of several shapes stands for. -/
def AdmitsSome : List Shape → Value → Prop
  | [], _ => False
  | variant :: rest, v => Admits variant v ∨ AdmitsSome rest v
termination_by structural variants => variants

end

theorem admitsSome_iff {variants : List Shape} {v : Value} :
    AdmitsSome variants v ↔ ∃ variant ∈ variants, variant.Admits v := by
  induction variants with
  | nil => simp [AdmitsSome]
  | cons head rest ih => simp [AdmitsSome, ih]

theorem admitsFields_iff {fields : List Field} {entries : SortedMap Value} :
    AdmitsFields fields entries ↔ ∀ field ∈ fields,
      (∀ value, (field.name, value) ∈ entries.entries → field.shape.Admits value) ∧
      (field.required = true → field.name ∈ entries.keys) := by
  induction fields with
  | nil => simp [AdmitsFields]
  | cons head rest ih =>
    obtain ⟨name, shape, required⟩ := head
    simp [AdmitsFields, ih, and_assoc]

end Shape

/-- A mapping has a declared key as it is declared. -/
def Field.Admits (field : Field) (entries : SortedMap Value) : Prop :=
  (∀ v, entries.find? field.name = some v → field.shape.Admits v) ∧
  (field.required = true → field.name ∈ entries.keys)

namespace Shape

theorem admits_record_iff {fields : List Field} {closed : Bool} {v : Value} :
    (record fields closed).Admits v ↔ ∃ entries, v = .mapping entries ∧
      (∀ field ∈ fields, field.Admits entries) ∧
      (closed = true → ∀ key ∈ entries.keys, ∃ field ∈ fields, field.name = key) := by
  simp only [Admits, admitsFields_iff, SortedMap.mem_entries_iff, Field.Admits]

/-- A nullable shape stands for null and for what it stood for before. -/
theorem admits_nullable_iff {shape : Shape} {v : Value} :
    shape.nullable.Admits v ↔ v = .null ∨ shape.Admits v := by
  cases shape with
  | scalar kind _ =>
    by_cases hv : v = .null <;> simp [Shape.nullable, Admits, hv]
  | orNull inner =>
    by_cases hv : v = .null <;> simp [Shape.nullable, Admits, hv]
  | _ => exact Iff.rfl

end Shape

/-- The program's test for a kind agrees with the values of the kind. -/
theorem ScalarKind.accepts_iff {kind : ScalarKind} {v : Value} :
    kind.accepts v = true ↔ kind.Admits v := by
  cases kind <;> cases v <;> simp [accepts, Admits]

theorem KeyPredicate.accepts_iff {predicate : KeyPredicate} {key : String} :
    predicate.accepts key = true ↔ predicate.Admits key := by
  cases predicate <;> simp [accepts, Admits]

namespace Shape

theorem acceptsString_iff {allowed : Option NameSet} {v : Value} :
    acceptsString allowed v = true ↔ AdmitsString allowed v := by
  cases v <;> cases allowed <;> simp [acceptsString, AdmitsString, SortedMap.contains_iff]

theorem withinBounds_iff {least : Nat} {greatest : Option Nat} {length : Nat} :
    withinBounds least greatest length = true ↔
      least ≤ length ∧ ∀ bound ∈ greatest, length ≤ bound := by
  cases greatest <;> simp [withinBounds]

theorem declares_iff {fields : List Field} {key : String} :
    declares fields key = true ↔ ∃ field ∈ fields, field.name = key := by
  simp [declares]

theorem failUnless_eq_nil_iff {condition : Bool} {rejection : Rejection} :
    failUnless condition rejection = [] ↔ condition = true := by
  cases condition <;> simp [failUnless]

/-- What holds of all elements holds of them together with their positions, and the other way
round. -/
theorem forall_mem_zipIdx_iff {α : Type} {P : α → Prop} {l : List α} :
    (∀ entry ∈ l.zipIdx, P entry.1) ↔ ∀ a ∈ l, P a := by
  constructor
  · intro h a ha
    obtain ⟨i, hi, rfl⟩ := List.getElem_of_mem ha
    exact h (l[i], i) (List.mem_zipIdx_iff_getElem?.mpr (List.getElem?_eq_getElem hi))
  · intro h entry hentry
    exact h entry.1 (List.mem_of_getElem? (List.mem_zipIdx_iff_getElem?.mp hentry))

theorem unionFailures_eq_nil_iff {whole : Rejection} {lists : List (List Rejection)} :
    unionFailures whole lists = [] ↔ [] ∈ lists := by
  unfold unionFailures
  split
  · rename_i hany
    obtain ⟨list, hmem, hnil⟩ := List.any_eq_true.mp hany
    rw [List.isEmpty_iff] at hnil
    subst hnil
    simp [hmem]
  · rename_i hany
    have hnone : [] ∉ lists := by
      intro hmem
      exact hany (List.any_eq_true.mpr ⟨[], hmem, rfl⟩)
    split <;> simp [hnone]

theorem undeclaredFailures_eq_nil_iff {fields : List Field} {closed : Bool}
    {entries : SortedMap Value} {path : Path} :
    (entries.entries.flatMap fun (key, value) => failUnless (!closed || declares fields key)
        ⟨path.key key, undeclared fields key, describe value, []⟩) = [] ↔
      (closed = true → ∀ key ∈ entries.keys, ∃ field ∈ fields, field.name = key) := by
  rw [List.flatMap_eq_nil_iff, ← entries.map_fst_entries]
  simp only [failUnless_eq_nil_iff]
  cases closed with
  | false => simp
  | true => simp [declares_iff]

theorem fieldFailures_eq_nil_iff {fields : List Field} {entries : SortedMap Value} {path : Path}
    (h : ∀ field ∈ fields, ∀ v path, failures field.shape v path = [] ↔ field.shape.Admits v) :
    fieldFailures fields entries path = [] ↔ AdmitsFields fields entries := by
  induction fields with
  | nil => simp [fieldFailures, AdmitsFields]
  | cons field rest ih =>
    obtain ⟨name, shape, required⟩ := field
    have hrest := ih fun field hfield => h field (List.mem_cons_of_mem _ hfield)
    have hshape := h ⟨name, shape, required⟩ List.mem_cons_self
    simp only [fieldFailures, AdmitsFields, List.append_eq_nil_iff, hrest, ← and_assoc]
    refine and_congr_left fun _ => ?_
    have hmem (value : Value) :
        (name, value) ∈ entries.entries ↔ entries.find? name = some value :=
      SortedMap.mem_entries_iff
    have hkeys : name ∈ entries.keys ↔ ∃ value, (name, value) ∈ entries.entries := by
      rw [← entries.map_fst_entries]
      simp
    simp only [hkeys, hmem]
    cases entries.find? name with
    | some value => simp [hshape]
    | none => simp [failUnless_eq_nil_iff]

/-- From a list nothing is collected exactly if its length is within bounds and nothing is collected
from its elements, wherever they stand. -/
theorem listFailures_eq_nil_iff {isWithin : Bool} {items : List Value} {whole : Rejection}
    {collect : Value × Nat → List Rejection} {P : Value → Prop}
    (h : ∀ entry, collect entry = [] ↔ P entry.1) :
    (if isWithin then items.zipIdx.flatMap collect else [whole]) = [] ↔
      isWithin = true ∧ ∀ item ∈ items, P item := by
  cases isWithin with
  | false => simp
  | true =>
    rw [if_pos rfl, List.flatMap_eq_nil_iff, ← forall_mem_zipIdx_iff (P := P)]
    simp only [h, true_and]

/-- Nothing is collected exactly from the values that a shape stands for. -/
theorem failures_eq_nil_iff (shape : Shape) (v : Value) (path : Path) :
    shape.failures v path = [] ↔ shape.Admits v := by
  induction shape generalizing v path with
  | scalar kind nullable =>
    rw [failures, Admits, failUnless_eq_nil_iff, Bool.or_eq_true, ScalarKind.accepts_iff]
    cases v <;> simp [Value.isNull]
  | choice allowed => rw [failures, Admits, failUnless_eq_nil_iff, acceptsString_iff]
  | anyMapping =>
    rw [failures, Admits, failUnless_eq_nil_iff]
    cases v <;> simp [Value.entries?]
  | strings allowed least greatest =>
    cases v with
    | list items =>
      simp only [failures, Admits, Value.items?, Value.list.injEq, exists_eq_left']
      rw [listFailures_eq_nil_iff (P := AdmitsString allowed), withinBounds_iff]
      · simp [and_assoc]
      · intro entry
        rw [failUnless_eq_nil_iff, acceptsString_iff]
    | _ => simp [failures, Admits, Value.items?]
  | record fields closed ih =>
    cases v with
    | mapping entries =>
      simp only [failures, Admits, Value.entries?, Value.mapping.injEq, exists_eq_left']
      rw [List.append_eq_nil_iff, undeclaredFailures_eq_nil_iff, fieldFailures_eq_nil_iff ih]
      exact and_comm
    | _ => simp [failures, Admits, Value.entries?]
  | keyed predicate value ih =>
    cases v with
    | mapping entries =>
      simp only [failures, Admits, Value.entries?, Value.mapping.injEq, exists_eq_left']
      rw [List.flatMap_eq_nil_iff, Prod.forall]
      refine forall₂_congr fun key member => imp_congr_right fun _ => ?_
      rw [← KeyPredicate.accepts_iff]
      cases predicate.accepts key with
      | true => simp [ih]
      | false => simp
    | _ => simp [failures, Admits, Value.entries?]
  | sequence element least greatest ih =>
    cases v with
    | list items =>
      simp only [failures, Admits, Value.items?, Value.list.injEq, exists_eq_left']
      rw [listFailures_eq_nil_iff (P := element.Admits), withinBounds_iff]
      · simp [and_assoc]
      · intro entry
        exact ih entry.1 (path.index entry.2)
    | _ => simp [failures, Admits, Value.items?]
  | union variants ih =>
    rw [failures, Admits, unionFailures_eq_nil_iff, admitsSome_iff, variantFailures_eq,
      List.mem_map]
    refine exists_congr fun variant => and_congr_right fun hvariant => ?_
    exact ih variant hvariant v path
  | orNull inner ih =>
    rw [failures, Admits, ← ih v path]
    cases v <;> simp [Value.isNull]

theorem check_eq_ok_iff (shape : Shape) (v : Value) (path : Path) :
    shape.check v path = .ok () ↔ shape.Admits v := by
  rw [check_eq_firstOf, Walk.firstOf_eq_ok_iff, failures_eq_nil_iff]

theorem accepts_eq_true_iff {shape : Shape} {v : Value} :
    shape.accepts v = true ↔ shape.Admits v := by
  rw [accepts, validate, ← check_eq_ok_iff shape v .root]
  cases shape.check v .root <;> simp [Except.map, Except.isOk, Except.toBool]

/-- Validation, by whichever way in, accepts the values that a shape stands for and no others, and
gives an accepted document back as it is. -/
theorem validate_accepts_meaning (shape : Shape) (v : Value) :
    (∀ result, shape.validate v = .ok result ↔ shape.Admits v ∧ result = v) ∧
    (∀ base, shape.check v base = .ok () ↔ shape.Admits v) ∧
    (shape.accepts v = true ↔ shape.Admits v) := by
  have hcheck := check_eq_ok_iff shape v .root
  refine ⟨?_, check_eq_ok_iff shape v, ?_⟩
  · intro result
    unfold validate
    rw [← hcheck]
    cases shape.check v .root with
    | error rejection => simp [Except.map]
    | ok u => simp [Except.map, eq_comm]
  · unfold accepts validate
    rw [← hcheck]
    cases shape.check v .root with
    | error rejection => simp [Except.map, Except.isOk, Except.toBool]
    | ok u => simp [Except.map, Except.isOk, Except.toBool]

end Shape

end FlowContract
