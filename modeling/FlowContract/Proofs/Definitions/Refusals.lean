import FlowContract.Proofs.Definitions.Classification
import FlowContract.Proofs.Shape.Truthful

/-!
Refused definitions documents. A document is read in stages, each of which makes up the place of the
next one; what a later stage says about its part is found at that place in the whole document.
-/

namespace FlowContract

open Json (Value)
open Rejection

variable {v : Value} {path : Path} {rejection : Rejection}

/-- What is parsed with a sound codec is refused by the check alone. -/
theorem Codec.Sound.parse_truthful {α : Type} {f : Codec α} (hf : f.Sound)
    (h : f.shape.parse f.decode v path = .error rejection) : rejection.Truthful path v :=
  Shape.check_truthful (hf.parse_eq_error_iff.mp h)

/-- A definition is refused as the kind that its keys tell, or as none of the kinds. -/
theorem Definition.parse_truthful (h : parse v path = .error rejection) :
    rejection.Truthful path v := by
  simp only [parse] at h
  split at h
  · cases h
    exact .here path v expectation
  · split at h
    · exact Datatype.codec_sound.parse_truthful (Except.map_eq_error_iff.mp h)
    · exact OperatorDefinition.codec_sound.parse_truthful (Except.map_eq_error_iff.mp h)

/-- A catalog is refused for one of its definitions, which stands under its identifier. -/
theorem Catalog.parse_truthful (h : parse v path = .error rejection) :
    rejection.Truthful path v := by
  cases v with
  | mapping entries =>
    rw [parse_mapping, Except.map_eq_error_iff] at h
    obtain ⟨id, entry, hfind, hentry, -⟩ := SortedMap.traverse_eq_error_iff.mp h
    exact (Definition.parse_truthful hentry).outward (.key id) hfind
  | _ =>
    cases h
    exact .here path _ _

/-- A schema document is refused for what encloses the catalog, or for the catalog. -/
theorem SchemaDocument.parse_truthful (h : parse v = .error rejection) :
    rejection.Truthful .root v := by
  cases hcheck : shape.check v .root with
  | error found =>
    simp only [parse, hcheck] at h
    cases h
    exact Shape.check_truthful hcheck
  | ok =>
    have hadmits := (shape.check_eq_ok_iff v .root).mp hcheck
    obtain ⟨entries, catalog, rfl, hholds, hcatalog⟩ := admits_shapeOver_iff.mp hadmits
    rw [hholds.parse_eq hcatalog, Except.map_eq_error_iff] at h
    exact (Catalog.parse_truthful h).outward (.key "definitions") hholds.catalog

/-- Every rejection tells what is there: those of a check about the value that was checked, those of
a schema document and of a list of descriptors about the whole document. -/
theorem rejections_are_truthful :
    (∀ shape v base rejection, Shape.check shape v base = .error rejection →
      rejection.Truthful base v) ∧
    (∀ raw rejection, SchemaDocument.parse raw = .error rejection →
      rejection.Truthful .root raw) ∧
    ∀ version raw rejection, DescriptorList.parse version raw = .error rejection →
      rejection.Truthful .root raw := by
  refine ⟨?_, ?_, ?_⟩
  · intro shape v base rejection h
    exact Shape.check_truthful h
  · intro raw rejection h
    exact SchemaDocument.parse_truthful h
  · intro version raw rejection h
    rw [DescriptorList.parse_eq, Except.map_eq_error_iff] at h
    exact (Descriptor.codec_sound version).listOf.parse_truthful h

/-- A schema document with an operator whose one source is null. -/
def nullSource : Value := .ofPairs [
  ("definitions", .ofPairs [("Op", .ofPairs [("properties", .ofPairs [
    ("type", .ofPairs [("enum", .list [.string "Op"])]),
    ("params", .ofPairs []),
    ("sources", .ofPairs [("properties", .ofPairs [("a", .null)])])])])])]

/-- None of the three forms of a source fits null. -/
theorem rejection_of_nullSource : ∃ rejection, SchemaDocument.parse nullSource = .error rejection ∧
    rejection.path = ⟨[.key "definitions", .key "Op", .key "properties", .key "sources",
      .key "properties", .key "a"]⟩ ∧
    rejection.actual = "null" ∧ rejection.alternatives.length = 2 ∧
    rejection.Truthful .root nullSource :=
  ⟨_, rfl, rfl, rfl, rfl, rejections_are_truthful.2.1 _ _ rfl⟩

end FlowContract
