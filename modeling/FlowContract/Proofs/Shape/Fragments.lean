import FlowContract.Proofs.Json.Replacement
import FlowContract.Proofs.Shape.Failures

/-!
Fragments that a shape does not look into. A mapping that is only asked to be one can be exchanged
for any other: all that is said about what encloses it depends on the keys along the way, and these
stay. Main statement: whatever a shape has to say about a document, it says in the same words after
the exchange.
-/

namespace FlowContract

open Json (Value)

namespace Shape

/-- A shape only asks for a mapping in a place, and for the keys on the way there. A key has to be
declared, since in place of an undeclared one its value is described. -/
inductive Overlooks : Shape → List Segment → Prop where
  | here : Overlooks anyMapping []
  | within (name : String) (rest : List Segment) : Overlooks anyMapping (.key name :: rest)
  | nullable {inner : Shape} {segments : List Segment} (h : Overlooks inner segments) :
      Overlooks (orNull inner) segments
  | field {fields : List Field} {name : String} {rest : List Segment} (closed : Bool)
      (hdeclared : declares fields name = true)
      (h : ∀ field ∈ fields, field.name = name → Overlooks field.shape rest) :
      Overlooks (record fields closed) (.key name :: rest)
  | member (predicate : KeyPredicate) {value : Shape} (name : String) {rest : List Segment}
      (h : Overlooks value rest) : Overlooks (keyed predicate value) (.key name :: rest)
  | element {element : Shape} (least : Nat) (greatest : Option Nat) (position : Nat)
      {rest : List Segment} (h : Overlooks element rest) :
      Overlooks (sequence element least greatest) (.index position :: rest)

/-- A record with keys that differ from each other has one shape for each of them. -/
theorem Overlooks.closed {fields : List Field} {field : Field} {rest : List Segment}
    (hnodup : (fields.map Field.name).Nodup) (hfield : field ∈ fields)
    (h : field.shape.Overlooks rest) : (closed fields).Overlooks (.key field.name :: rest) := by
  refine .field true ?_ fun other hother hname => ?_
  · exact List.any_eq_true.mpr ⟨field, hfield, beq_self_eq_true _⟩
  · obtain rfl := List.inj_on_of_nodup_map hnodup hother hfield hname
    exact h

variable {shape : Shape} {segments : List Segment} {v : Value} {old : SortedMap Value}

/-- The induction is on the way down to the mapping. Each shape on it says of the member on the way
what it said before, and of the others nothing has changed. -/
theorem Overlooks.failures_eq (h : shape.Overlooks segments)
    (hresolve : (Path.mk segments).resolve? v = some (.mapping old)) (new : SortedMap Value)
    (base : Path) :
    shape.failures (v.replaceAt segments (.mapping new)) base = shape.failures v base := by
  induction h generalizing v base with
  | here =>
    cases hresolve
    rw [Value.replaceAt_nil]
    rfl
  | within name rest =>
    obtain ⟨entries, u, rfl, hu, -⟩ := Value.exists_of_resolve?_key hresolve
    rw [Value.replaceAt_key hu]
    rfl
  | @nullable inner segments _ ih =>
    have hv : v.isNull = false := by
      rw [← Bool.not_eq_true, Value.isNull_iff]
      exact Value.ne_null_of_resolve? hresolve nofun
    have hv' : (v.replaceAt segments (.mapping new)).isNull = false := by
      rw [← Bool.not_eq_true, Value.isNull_iff]
      exact Value.replaceAt_ne_null nofun hresolve
    rw [failures, failures, hv, hv', if_neg Bool.false_ne_true, if_neg Bool.false_ne_true,
      ih hresolve]
  | @field fields name rest closed hdeclared _ ih =>
    obtain ⟨entries, u, rfl, hu, hrest⟩ := Value.exists_of_resolve?_key hresolve
    rw [Value.replaceAt_key hu]
    simp only [failures, Value.entries?, fieldFailures_eq]
    congr 1
    · apply SortedMap.flatMap_entries_insert hu
      simp [hdeclared, failUnless]
    · apply List.flatMap_congr
      intro field hfield
      unfold keyFailures
      by_cases hname : field.name = name
      · rw [hname, SortedMap.find?_insert_self, hu]
        exact ih field hfield hname hrest _
      · rw [SortedMap.find?_insert_of_ne hname]
  | member predicate name _ ih =>
    obtain ⟨entries, u, rfl, hu, hrest⟩ := Value.exists_of_resolve?_key hresolve
    rw [Value.replaceAt_key hu]
    simp only [failures, Value.entries?]
    apply SortedMap.flatMap_entries_insert hu
    rw [ih hrest]
  | element least greatest position _ ih =>
    obtain ⟨items, u, rfl, hu, hrest⟩ := Value.exists_of_resolve?_index hresolve
    rw [Value.replaceAt_index hu]
    have hdescribe (u' : Value) :
        describe (.list (items.set position u')) = describe (.list items) := by
      simp [describe]
    simp only [failures, Value.items?, List.length_set, mismatch, hdescribe]
    split
    · rw [List.flatMap, List.flatMap, map_zipIdx_set hu (ih hrest _)]
    · rfl

theorem Overlooks.check_eq (h : shape.Overlooks segments)
    (hresolve : (Path.mk segments).resolve? v = some (.mapping old)) (new : SortedMap Value)
    (base : Path) :
    shape.check (v.replaceAt segments (.mapping new)) base = shape.check v base := by
  rw [check_eq_firstOf, check_eq_firstOf, h.failures_eq hresolve]

end Shape

end FlowContract
