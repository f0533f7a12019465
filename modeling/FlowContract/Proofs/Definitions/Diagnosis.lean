import FlowContract.Definitions.Report
import FlowContract.Proofs.Definitions.Kinds
import FlowContract.Proofs.Editor.Steps

/-!
Reports against parsing. A report is known by its findings: the rejections that were put into it,
each with its name, in the order in which they were found. The findings of a document are those of
its entries one by one, while a parser stops at the first of them. Main statement: a document is
parsed exactly if its report is empty, and otherwise the parser's rejection leads some group.
-/

namespace FlowContract

open Json (Value)

/-- What a reader says against a value, if it says something. -/
def rejection? {α : Type} : Except Rejection α → Option Rejection
  | .ok _ => none
  | .error rejection => some rejection

theorem rejection?_eq_some_iff {α : Type} {result : Except Rejection α} {rejection : Rejection} :
    rejection? result = some rejection ↔ result = .error rejection := by
  cases result <;> simp [rejection?]

theorem rejection?_map {α β : Type} (f : α → β) (result : Except Rejection α) :
    rejection? (result.map f) = rejection? result := by
  cases result <;> rfl

theorem rejection?_check (shape : Shape) (v : Value) (path : Path) :
    rejection? (shape.check v path) = (shape.failures v path).head? := by
  rw [Shape.check_eq_firstOf]
  cases shape.failures v path <;> rfl

namespace Report

variable {report : Report} {findings : List (String × Rejection)} {entry : String}
  {error : Rejection}

/-- One more rejection in a group is one more in all: the others stay, though not in their order. -/
theorem perm_flatMap_insertEntry {l : List (String × List Rejection)} {old : List Rejection}
    (hsorted : (l.map Prod.fst).Pairwise (· < ·))
    (hold : ∀ group, (entry, group) ∈ l → group = old)
    (hnew : entry ∉ l.map Prod.fst → old = []) :
    ((SortedMap.insertEntry entry (old ++ [error]) l).flatMap Prod.snd).Perm
      (error :: l.flatMap Prod.snd) := by
  induction l with
  | nil =>
    rw [hnew List.not_mem_nil]
    exact List.Perm.refl _
  | cons head rest ih =>
    obtain ⟨name, group⟩ := head
    obtain ⟨hname, hrest⟩ := List.pairwise_cons.mp hsorted
    unfold SortedMap.insertEntry
    split
    · rename_i hlt
      have hfresh : entry ∉ ((name, group) :: rest).map Prod.fst := by
        intro hmem
        rcases List.mem_cons.mp hmem with heq | hmem
        · exact String.lt_irrefl _ (heq ▸ hlt)
        · exact String.lt_irrefl _ (String.lt_trans hlt (hname entry hmem))
      rw [hnew hfresh]
      exact List.Perm.refl _
    · split
      · rename_i heq
        subst heq
        rw [← hold group List.mem_cons_self]
        simp only [List.flatMap_cons, List.append_assoc, List.singleton_append]
        exact List.perm_middle
      · rename_i hne
        have hperm := ih hrest (fun group hgroup => hold group (List.mem_cons_of_mem _ hgroup))
          fun habsent => hnew fun hmem => (List.mem_cons.mp hmem).elim hne habsent
        exact (hperm.append_left group).trans List.perm_middle

theorem errors_eq (report : Report) : report.errors = report.groups.entries.flatMap Prod.snd := by
  rw [errors, SortedMap.values, SortedMap.entries, List.flatMap, List.map_ofFn]
  rfl

theorem errorCount_push (report : Report) (entry : String) (error : Rejection) :
    (report.push entry error).errorCount = report.errorCount + 1 := by
  have hperm : (report.push entry error).errors.Perm (error :: report.errors) := by
    rw [errors_eq, errors_eq, push, SortedMap.entries_insert]
    apply perm_flatMap_insertEntry
    · rw [report.groups.map_fst_entries]
      exact report.groups.sorted
    · intro group hgroup
      rw [SortedMap.mem_entries_iff] at hgroup
      rw [errorsFor, hgroup]
      rfl
    · rw [report.groups.map_fst_entries, ← SortedMap.find?_eq_none_iff]
      intro hnone
      rw [errorsFor, hnone]
      rfl
  exact hperm.length_eq

theorem errorsFor_push (report : Report) (entry entry' : String) (error : Rejection) :
    (report.push entry error).errorsFor entry' =
      report.errorsFor entry' ++ if entry' = entry then [error] else [] := by
  unfold errorsFor push
  rw [SortedMap.find?_insert]
  split
  · rename_i heq
    subst heq
    rfl
  · rw [List.append_nil]

/-- A report has these findings: each group those under its name, in order, and no group without
findings. -/
structure Gathers (report : Report) (findings : List (String × Rejection)) : Prop where
  group : ∀ entry, report.errorsFor entry =
    (findings.filter fun finding => finding.1 = entry).map Prod.snd
  present : ∀ entry, entry ∈ report.groups.keys ↔ entry ∈ findings.map Prod.fst
  count : report.errorCount = findings.length

theorem Gathers.empty : empty.Gathers [] where
  group _ := rfl
  present _ := Iff.rfl
  count := rfl

theorem Gathers.push (h : report.Gathers findings) (entry : String) (error : Rejection) :
    (report.push entry error).Gathers (findings ++ [(entry, error)]) where
  group entry' := by
    rw [errorsFor_push, h.group, List.filter_append, List.map_append]
    congr 1
    by_cases heq : entry' = entry
    · simp [heq]
    · simp [heq, Ne.symm heq]
  present entry' := by
    rw [List.map_append, List.mem_append, ← h.present, SortedMap.mem_keys_iff,
      SortedMap.mem_keys_iff, Report.push]
    simp only [SortedMap.find?_insert, List.map_cons, List.map_nil, List.mem_singleton]
    by_cases heq : entry' = entry
    · simp [heq]
    · simp [heq]
  count := by rw [errorCount_push, h.count, List.length_append, List.length_singleton]

theorem gathers_foldl_note {ι α : Type} (name : ι → String) (found : ι → Except Rejection α)
    (l : List ι) :
    (l.foldl (fun report x => report.note (name x) (found x)) empty).Gathers
      (l.filterMap fun x => (rejection? (found x)).map (name x, ·)) := by
  induction l using List.reverseRecOn with
  | nil => exact .empty
  | append_singleton rest last ih =>
    rw [List.foldl_append, List.filterMap_append]
    cases hfound : found last with
    | ok a => simpa [note, hfound, rejection?] using ih
    | error error => simpa [note, hfound, rejection?] using ih.push (name last) error

theorem Gathers.isValid_iff (h : report.Gathers findings) :
    report.isValid = true ↔ findings = [] := by
  rw [isValid, List.isEmpty_iff, List.eq_nil_iff_forall_not_mem]
  simp only [h.present]
  rw [← List.eq_nil_iff_forall_not_mem, List.map_eq_nil_iff]

theorem Gathers.head?_errorsFor {rest : List (String × Rejection)}
    (h : report.Gathers ((entry, error) :: rest)) :
    (report.errorsFor entry).head? = some error := by
  rw [h.group]
  simp

/-- A report agrees with the result of a parser: it is empty exactly if something was parsed, and
what the parser says against a document leads a group. -/
structure Explains {α : Type} (report : Report) (result : Except Rejection α) : Prop where
  valid : report.isValid = true ↔ ∃ a, result = .ok a
  leads : ∀ rejection, result = .error rejection →
    ∃ entry, (report.errorsFor entry).head? = some rejection

theorem Explains.map {α β : Type} {result : Except Rejection α} (h : report.Explains result)
    (f : α → β) : report.Explains (result.map f) where
  valid := by
    rw [h.valid]
    cases result <;> simp [Except.map]
  leads rejection hrejection := h.leads rejection (Except.map_eq_error_iff.mp hrejection)

/-- It is enough that the parser says against a document what is found first. -/
theorem Gathers.explains {α : Type} {result : Except Rejection α} (h : report.Gathers findings)
    (hfirst : rejection? result = (findings.map Prod.snd).head?) : report.Explains result := by
  cases findings with
  | nil =>
    cases result with
    | ok a => exact ⟨by simp [h.isValid_iff], nofun⟩
    | error rejection => cases hfirst
  | cons head rest =>
    obtain ⟨entry, error⟩ := head
    cases result with
    | ok a => cases hfirst
    | error rejection =>
      cases hfirst
      refine ⟨by simp [h.isValid_iff], fun rejection hrejection => ?_⟩
      cases hrejection
      exact ⟨entry, h.head?_errorsFor⟩

end Report

namespace SortedMap

theorem filter_eq_of_nodup {α : Type} {l : List (String × α)} {key : String} {value : α}
    (hnodup : (l.map Prod.fst).Nodup) (hmem : (key, value) ∈ l) :
    (l.filter fun pair => pair.1 = key) = [(key, value)] := by
  induction l with
  | nil => cases hmem
  | cons head rest ih =>
    obtain ⟨hhead, hrest⟩ := List.nodup_cons.mp hnodup
    rcases List.mem_cons.mp hmem with rfl | hmem
    · have hothers : (rest.filter fun pair => pair.1 = key) = [] := by
        rw [List.filter_eq_nil_iff]
        intro pair hpair
        have hne : pair.1 ≠ key := fun heq => hhead (List.mem_map.mpr ⟨pair, hpair, heq⟩)
        simpa using hne
      rw [List.filter_cons_of_pos (by simp), hothers]
    · have hne : head.1 ≠ key := fun heq => hhead (heq ▸ List.mem_map_of_mem hmem)
      rw [List.filter_cons_of_neg (by simpa using hne), ih hrest hmem]

theorem rejection?_traverse {α β : Type} (f : String → α → Except Rejection β)
    (m : SortedMap α) :
    rejection? (m.traverse f) =
      m.entries.findSome? fun entry => rejection? (f entry.1 entry.2) := by
  have hentries : rejection? (m.traverse f) = rejection? (traverseEntries f m.entries) := by
    unfold traverse
    cases traverseEntries f m.entries <;> rfl
  rw [hentries]
  induction m.entries with
  | nil => rfl
  | cons head rest ih =>
    obtain ⟨key, value⟩ := head
    rw [traverseEntries, List.findSome?_cons, ← ih]
    cases hvalue : f key value with
    | error rejection => rfl
    | ok b => cases traverseEntries f rest <;> rfl

end SortedMap

/-- Under names that differ from each other every finding is a group of its own. -/
theorem Report.Gathers.find?_groups {report : Report} {faults : SortedMap Rejection}
    (h : report.Gathers faults.entries) (entry : String) :
    report.groups.find? entry = (faults.find? entry).map ([·]) := by
  have hkeys : entry ∈ report.groups.keys ↔ entry ∈ faults.keys := by
    rw [h.present, faults.map_fst_entries]
  cases hfault : faults.find? entry with
  | none =>
    rw [Option.map_none, SortedMap.find?_eq_none_iff, hkeys, ← SortedMap.find?_eq_none_iff]
    exact hfault
  | some rejection =>
    have hpresent := SortedMap.mem_keys_iff.mpr ⟨rejection, hfault⟩
    obtain ⟨group, hgroup⟩ := SortedMap.mem_keys_iff.mp (hkeys.mpr hpresent)
    have herrors : report.errorsFor entry = [rejection] := by
      have hnodup : (faults.entries.map Prod.fst).Nodup := by
        rw [faults.map_fst_entries]
        exact faults.nodup_keys
      rw [h.group, SortedMap.filter_eq_of_nodup hnodup (SortedMap.mem_entries_iff.mpr hfault)]
      rfl
    rw [Report.errorsFor, hgroup] at herrors
    rw [hgroup]
    exact congrArg some herrors

namespace SchemaDocument

/-- What is said against the entries of a catalog, under their identifiers. -/
def faults (members : SortedMap Value) : SortedMap Rejection :=
  (members.map fun id entry => rejection? (Definition.parse entry (placeOf id))).compact

theorem find?_faults (members : SortedMap Value) (id : String) :
    (faults members).find? id =
      (members.find? id).bind fun entry => rejection? (Definition.parse entry (placeOf id)) :=
  members.find?_compact_map _ id

theorem entries_faults (members : SortedMap Value) :
    (faults members).entries = members.entries.filterMap fun member =>
      (rejection? (Definition.parse member.2 (placeOf member.1))).map (member.1, ·) :=
  members.entries_compact_map _

variable {entries members : SortedMap Value}

theorem gathers_faults (h : Holds entries (.mapping members))
    (hshape : shape.Admits (.mapping entries)) :
    (Report.ofSchema (.mapping entries)).Gathers (faults members).entries := by
  have hcheck := (shape.check_eq_ok_iff (.mapping entries) .root).mpr hshape
  have hget : (Value.mapping entries).get? "definitions" = some (.mapping members) := h.catalog
  have hreport : Report.ofSchema (.mapping entries) = members.entries.foldl
      (fun report member => report.note member.1 (Definition.parse member.2 (placeOf member.1)))
      .empty := by
    simp only [Report.ofSchema, hcheck, hget, Option.bind_some, Value.entries?,
      Option.getD_some, placeOf]
  rw [hreport, entries_faults]
  exact Report.gathers_foldl_note Prod.fst _ members.entries

theorem rejection?_parse (h : Holds entries (.mapping members))
    (hmembers : ∀ id entry, members.find? id = some entry → ∃ fields, entry = .mapping fields) :
    rejection? (parse (.mapping entries)) = ((faults members).entries.map Prod.snd).head? := by
  rw [h.parse_mapping_eq hmembers, rejection?_map, Catalog.parse_mapping, rejection?_map,
    SortedMap.rejection?_traverse, entries_faults, List.map_filterMap, List.head?_filterMap]
  simp only [Option.map_map, Function.comp_def, Option.map_id', placeOf]

theorem ofSchema_of_refused {v : Value} {rejection : Rejection}
    (h : shape.check v .root = .error rejection) :
    Report.ofSchema v = Report.empty.push Report.documentGroup rejection := by
  simp only [Report.ofSchema, h]

theorem explains (v : Value) : (Report.ofSchema v).Explains (parse v) := by
  cases hcheck : shape.check v .root with
  | ok =>
    have hadmits := (shape.check_eq_ok_iff v .root).mp hcheck
    obtain ⟨entries, members, rfl, hholds, hmembers⟩ := mappings_of_admits hadmits
    exact (gathers_faults hholds hadmits).explains (rejection?_parse hholds hmembers)
  | error rejection =>
    have hparse : parse v = .error rejection := parse_eq_error_iff.mpr (.enclosing hcheck)
    rw [ofSchema_of_refused hcheck, hparse]
    exact (Report.Gathers.empty.push Report.documentGroup rejection).explains rfl

end SchemaDocument

namespace DescriptorList

/-- What is said against the elements of a list, under their names and in order of their positions.
-/
def findings (version : SchemaVersion) (items : List Value) : List (String × Rejection) :=
  items.zipIdx.filterMap fun element =>
    (rejection? ((Descriptor.shape version).check element.1 (Path.root.index element.2))).map
      (Report.elementName element.2 element.1, ·)

theorem gathers_findings (version : SchemaVersion) (items : List Value) :
    (Report.ofOperatorList version (.list items)).Gathers (findings version items) :=
  Report.gathers_foldl_note
    (fun element : Value × Nat => Report.elementName element.2 element.1) _ items.zipIdx

theorem length_findings (version : SchemaVersion) (items : List Value) :
    (findings version items).length =
      items.countP fun item => !(Descriptor.shape version).accepts item := by
  have hoffends (item : Value) (path : Path) :
      (rejection? ((Descriptor.shape version).check item path)).isSome =
        !(Descriptor.shape version).accepts item := by
    have hcheck := (Descriptor.shape version).check_eq_ok_iff item path
    rw [← Shape.accepts_eq_true_iff] at hcheck
    cases hresult : (Descriptor.shape version).check item path with
    | ok => simp [rejection?, hcheck.mp hresult]
    | error rejection =>
      rw [hresult] at hcheck
      simpa [rejection?] using hcheck
  have hitems := items.zipIdx_map_fst 0
  rw [findings, List.length_filterMap_eq_countP]
  conv_rhs => rw [← hitems, List.countP_map]
  simp only [Option.isSome_map, hoffends, Function.comp_def]

theorem parse_eq_error_iff {version : SchemaVersion} {v : Value} {rejection : Rejection} :
    parse version v = .error rejection ↔ (shape version).check v .root = .error rejection := by
  rw [parse_eq, Except.map_eq_error_iff]
  exact (Descriptor.codec_sound version).listOf.parse_eq_error_iff

theorem rejection?_parse (version : SchemaVersion) (v : Value) :
    rejection? (parse version v) = rejection? ((shape version).check v .root) := by
  apply Option.ext
  intro rejection
  rw [rejection?_eq_some_iff, rejection?_eq_some_iff, parse_eq_error_iff]

theorem rejection?_parse_list (version : SchemaVersion) (items : List Value) :
    rejection? (parse version (.list items)) = ((findings version items).map Prod.snd).head? := by
  rw [rejection?_parse, rejection?_check, shape, Shape.failures_list, List.head?_flatMap, findings,
    List.map_filterMap, List.head?_filterMap]
  simp only [Option.map_map, Function.comp_def, Option.map_id', rejection?_check]

theorem explains (version : SchemaVersion) (v : Value) :
    (Report.ofOperatorList version v).Explains (parse version v) := by
  cases hitems : v.items? with
  | some items =>
    obtain rfl := Value.items?_eq_some_iff.mp hitems
    exact (gathers_findings version items).explains (rejection?_parse_list version items)
  | none =>
    have hreport : Report.ofOperatorList version v =
        Report.empty.note Report.documentGroup ((shape version).check v .root) := by
      simp only [Report.ofOperatorList, hitems]
    have hgathers := Report.gathers_foldl_note (fun _ : Unit => Report.documentGroup)
      (fun _ => (shape version).check v .root) [()]
    rw [hreport]
    apply hgathers.explains
    rw [rejection?_parse]
    cases (shape version).check v .root <;> rfl

end DescriptorList

theorem Definitions.explains (representation : Representation) (raw : Value) :
    (Report.ofDefinitions representation raw).Explains (parse representation raw) := by
  cases representation with
  | catalog => exact (SchemaDocument.explains raw).map _
  | operatorList version => exact (DescriptorList.explains version raw).map _

theorem Editor.assign_eq_ok_iff {editor : Editor} {raw : Value} :
    (editor.assign raw).result = .ok () ↔
      ∃ definitions, Definitions.parse editor.representation raw = .ok definitions := by
  cases hparse : Definitions.parse editor.representation raw with
  | error rejection => simp [(assign_of_error hparse).2]
  | ok definitions => simp [(assign_of_ok hparse).2]

/-- Reports agree with parsing, and an assignment with both. Where a report goes into the entries of
a document, it has one rejection for each entry that is refused and none for the others: that of a
definition alone under its identifier, and those of the elements of a list under their titles, or
their positions where they have none, in order of the positions. -/
theorem reports_agree_with_parsing :
    (∀ representation raw, (Report.ofDefinitions representation raw).Explains
      (Definitions.parse representation raw)) ∧
    (∀ (editor : Editor) raw, (Report.ofDefinitions editor.representation raw).isValid = true ↔
      (editor.assign raw).result = .ok ()) ∧
    (∀ raw, SchemaDocument.shape.accepts raw = true →
      let report := Report.ofDefinitions .catalog raw
      ∃ members, raw.get? "definitions" = some (.mapping members) ∧
        (∀ id, report.groups.find? id = ((members.find? id).bind fun entry =>
          rejection? (Definition.parse entry (SchemaDocument.placeOf id))).map ([·])) ∧
        report.errorCount = members.entries.countP fun member =>
          (rejection? (Definition.parse member.2 (SchemaDocument.placeOf member.1))).isSome) ∧
    (∀ version items,
      let report := Report.ofDefinitions (.operatorList version) (.list items)
      report.Gathers (DescriptorList.findings version items) ∧
        report.errorCount = items.countP fun item => !(Descriptor.shape version).accepts item) ∧
    ∀ position item,
      (∀ title, item.get? "title" = some (.string title) →
        Report.elementName position item = title) ∧
      ((∀ title, item.get? "title" ≠ some (.string title)) →
        Report.elementName position item = "[" ++ toString position ++ "]") := by
  refine ⟨Definitions.explains, ?_, ?_, ?_, ?_⟩
  · intro editor raw
    rw [(Definitions.explains editor.representation raw).valid, Editor.assign_eq_ok_iff]
  · intro raw haccepts report
    have hadmits := Shape.accepts_eq_true_iff.mp haccepts
    obtain ⟨entries, members, rfl, hholds, -⟩ := SchemaDocument.mappings_of_admits hadmits
    have hgathers := SchemaDocument.gathers_faults hholds hadmits
    refine ⟨members, hholds.catalog, fun id => ?_, ?_⟩
    · rw [← SchemaDocument.find?_faults]
      exact hgathers.find?_groups id
    · rw [show report.errorCount = _ from hgathers.count, SchemaDocument.entries_faults,
        List.length_filterMap_eq_countP]
      simp only [Option.isSome_map]
  · intro version items report
    have hgathers := DescriptorList.gathers_findings version items
    exact ⟨hgathers, hgathers.count.trans (DescriptorList.length_findings version items)⟩
  · intro position item
    constructor
    · intro title htitle
      simp [Report.elementName, htitle, Value.string?]
    · intro hnone
      have hstring : (item.get? "title").bind Value.string? = none := by
        rw [Option.bind_eq_none_iff]
        intro title htitle
        cases title with
        | string value => exact absurd htitle (hnone value)
        | _ => rfl
      rw [Report.elementName, hstring]
      rfl

/-- A title can look like the position of another element, which then shares its group. -/
example : ((Report.ofDefinitions (.operatorList .v2)
    (.list [.ofPairs [("title", .string "[1]")], .null])).errorsFor "[1]").map Rejection.path =
      [⟨[.index 0, .key "outputType"]⟩, ⟨[.index 1]⟩] := by decide

end FlowContract
