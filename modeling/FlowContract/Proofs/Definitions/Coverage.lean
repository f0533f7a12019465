import FlowContract.Proofs.Definitions.Diagnosis
import FlowContract.Proofs.Definitions.Refusals

/-!
Which broken entries a report on a schema document has. What encloses the catalog is looked at
first, and a report that has something to say about that ends there. Main statement: a report has
every broken entry exactly if there was nothing to say, or if what was said is about the only broken
entry, which then has the name under which a report puts what belongs to no entry.
-/

namespace FlowContract

open Json (Value)

theorem Rejection.Truthful.exists_within {base : Path} {v : Value} {rejection : Rejection}
    (h : rejection.Truthful base v) : ∃ relative, rejection.path = base.within relative := by
  cases h with
  | intro _ _ => exact ⟨_, rfl⟩

namespace SchemaDocument

variable {members : SortedMap Value} {id : String} {v : Value} {rejection : Rejection}

/-- An entry of a catalog that is refused in its place. -/
def Broken (members : SortedMap Value) (id : String) : Prop :=
  ∃ entry rejection, members.find? id = some entry ∧
    Definition.parse entry (placeOf id) = .error rejection

/-- A rejection of an entry or of something in it. -/
def Concerns (rejection : Rejection) (id : String) : Prop :=
  ∃ relative, rejection.path = (placeOf id).within relative

/-- The group of an entry has a rejection of it. -/
def Covers (report : Report) (id : String) : Prop :=
  ∃ rejection ∈ report.errorsFor id, Concerns rejection id

theorem covers_iff {report : Report} {found : List Rejection}
    (h : report.groups.find? id = some found) :
    Covers report id ↔ ∃ rejection ∈ found, Concerns rejection id := by
  rw [Covers, Report.errorsFor, h, Option.getD_some]

/-- Of a document whose catalog is not enclosed as it should be, nothing else is reported. -/
theorem find?_groups_of_refused (h : shape.check v .root = .error rejection) (id : String) :
    (Report.ofSchema v).groups.find? id =
      if id = Report.documentGroup then some [rejection] else none := by
  rw [ofSchema_of_refused h, Report.push, SortedMap.find?_insert]
  rfl

theorem find?_groups_of_accepted (h : shape.check v .root = .ok ())
    (hcatalog : v.get? "definitions" = some (.mapping members)) {entry : Value}
    (hentry : members.find? id = some entry)
    (hrejection : Definition.parse entry (placeOf id) = .error rejection) :
    (Report.ofSchema v).groups.find? id = some [rejection] := by
  have hadmits := (shape.check_eq_ok_iff v .root).mp h
  obtain ⟨entries, _, rfl, hholds, -⟩ := mappings_of_admits hadmits
  cases hholds.catalog.symm.trans hcatalog
  rw [(gathers_faults hholds hadmits).find?_groups, find?_faults, hentry, Option.bind_some,
    hrejection]
  rfl

theorem covers_iff_of_broken (hcatalog : v.get? "definitions" = some (.mapping members))
    (hbroken : Broken members id) : Covers (Report.ofSchema v) id ↔
      ∀ rejection, shape.check v .root = .error rejection →
        id = Report.documentGroup ∧ Concerns rejection id := by
  obtain ⟨entry, fault, hentry, hfault⟩ := hbroken
  cases hcheck : shape.check v .root with
  | ok =>
    have hgroup := find?_groups_of_accepted hcheck hcatalog hentry hfault
    have hconcerns : Concerns fault id := (Definition.parse_truthful hfault).exists_within
    rw [covers_iff hgroup]
    simp [hconcerns]
  | error rejection =>
    have hgroup := find?_groups_of_refused hcheck id
    by_cases hid : id = Report.documentGroup
    · rw [if_pos hid] at hgroup
      rw [covers_iff hgroup]
      simp [hid]
    · rw [if_neg hid] at hgroup
      simp [Covers, Report.errorsFor, hgroup, hid]

end SchemaDocument

/-- A report on a schema document has every broken entry exactly if there is nothing wrong with what
encloses the catalog, or if what is wrong is about the only broken entry, which then has the name of
the group for that. In a document whose catalog is enclosed as it should be a broken entry is
reported under its identifier and in the words of the parser; otherwise there is nothing but what is
wrong with the enclosure. -/
theorem broken_entries_covered_iff (v : Value) :
    ((∀ members id, v.get? "definitions" = some (.mapping members) →
        SchemaDocument.Broken members id → SchemaDocument.Covers (Report.ofSchema v) id) ↔
      ∀ rejection, SchemaDocument.shape.check v .root = .error rejection →
        ∀ members id, v.get? "definitions" = some (.mapping members) →
          SchemaDocument.Broken members id →
          id = Report.documentGroup ∧ SchemaDocument.Concerns rejection id) ∧
    (SchemaDocument.shape.accepts v = true → ∀ members id entry rejection,
      v.get? "definitions" = some (.mapping members) → members.find? id = some entry →
      Definition.parse entry (SchemaDocument.placeOf id) = .error rejection →
      (Report.ofSchema v).groups.find? id = some [rejection] ∧
        SchemaDocument.Concerns rejection id) ∧
    ∀ rejection, SchemaDocument.shape.check v .root = .error rejection →
      ∀ id, (Report.ofSchema v).groups.find? id =
        if id = Report.documentGroup then some [rejection] else none := by
  refine ⟨?_, ?_, ?_⟩
  · constructor
    · intro hcovers rejection hrejection members id hcatalog hbroken
      have h := hcovers members id hcatalog hbroken
      exact (SchemaDocument.covers_iff_of_broken hcatalog hbroken).mp h rejection hrejection
    · intro hrefused members id hcatalog hbroken
      rw [SchemaDocument.covers_iff_of_broken hcatalog hbroken]
      intro rejection hrejection
      exact hrefused rejection hrejection members id hcatalog hbroken
  · intro haccepts members id entry rejection hcatalog hentry hrejection
    have hcheck := (SchemaDocument.shape.check_eq_ok_iff v .root).mpr
      (Shape.accepts_eq_true_iff.mp haccepts)
    exact ⟨SchemaDocument.find?_groups_of_accepted hcheck hcatalog hentry hrejection,
      (Definition.parse_truthful hrejection).exists_within⟩
  · intro rejection hrejection id
    exact SchemaDocument.find?_groups_of_refused hrejection id

/-- A datatype without a list of forms, in a document with a key of its own. -/
def brokenBesideVersion : Value := .ofPairs [
  ("definitions", .ofPairs [("Broken", .ofPairs [("oneOf", .null)])]),
  ("version", .string "2")]

/-- The key hides the entry: there is only what is wrong with the key. -/
theorem version_hides_broken_entry :
    ∃ members, brokenBesideVersion.get? "definitions" = some (.mapping members) ∧
      SchemaDocument.Broken members "Broken" ∧
      ¬ SchemaDocument.Covers (Report.ofSchema brokenBesideVersion) "Broken" ∧
      (Report.ofSchema brokenBesideVersion).errorsFor Report.documentGroup =
        [⟨Path.root.key "version",
          "no key `version` (allowed: `$schema`, `$ref`, `title`, `description`, `definitions`)",
          "string \"2\"", []⟩] ∧
      (Report.ofSchema brokenBesideVersion).errorCount = 1 := by
  refine ⟨_, rfl, ⟨_, _, rfl, rfl⟩, ?_, rfl, rfl⟩
  rintro ⟨rejection, hmem, -⟩
  cases hmem

/-- An entry with the name of the group of the document is reported there, although it is not even
a mapping. -/
example :
    let raw := Value.ofPairs [("definitions", .ofPairs [("<document>", .null)])]
    ((Report.ofSchema raw).errorsFor "<document>").map Rejection.path =
      [SchemaDocument.placeOf "<document>"] := by decide

end FlowContract
