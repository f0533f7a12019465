import FlowContract.Definitions.Catalog
import FlowContract.Definitions.Representation

/-!
Reports on definitions documents. Reading a document stops at the first mismatch; a report goes on
and gathers the mismatches by the definition that they belong to.
-/

namespace FlowContract

open Json (Value)

/-- Rejections by the definition that they belong to; every group holds at least one. -/
structure Report where
  groups : SortedMap (List Rejection)

namespace Report

def empty : Report := ⟨∅⟩

/-- The group of what belongs to no definition. -/
def documentGroup : String := "<document>"

/-- The rejections of a group, in the order in which they were found. -/
def errorsFor (report : Report) (entry : String) : List Rejection :=
  (report.groups.find? entry).getD []

def push (report : Report) (entry : String) (error : Rejection) : Report :=
  ⟨report.groups.insert entry (report.errorsFor entry ++ [error])⟩

/-- Adds what a reader has found, if it has found something. -/
def note {α : Type} (report : Report) (entry : String) (result : Except Rejection α) : Report :=
  match result with
  | .ok _ => report
  | .error error => report.push entry error

def isValid (report : Report) : Bool := report.groups.keys.isEmpty

/-- All rejections, group by group. -/
def errors (report : Report) : List Rejection := report.groups.values.flatten

def errorCount (report : Report) : Nat := report.errors.length

/-- The lines of a report: each group by its name, and its rejections below. -/
def lines (report : Report) : List String :=
  report.groups.entries.flatMap fun (entry, errors) =>
    (entry ++ ":") :: errors.map fun error => "  - " ++ error.message

def write (report : Report) : String :=
  String.join (report.lines.map (· ++ "\n"))

/-- What is wrong with a schema document: what encloses the catalog, or else each definition. -/
def ofSchema (v : Value) : Report :=
  match SchemaDocument.shape.check v .root with
  | .error error => empty.push documentGroup error
  | .ok () =>
    let definitions := ((v.get? "definitions").bind Value.entries?).getD ∅
    definitions.entries.foldl
      (fun report (id, entry) =>
        report.note id (Definition.parse entry ((Path.root.key "definitions").key id)))
      empty

/-- The name under which an element of a list is reported: its title, or its position. -/
def elementName (position : Nat) (item : Value) : String :=
  ((item.get? "title").bind Value.string?).getD s!"[{position}]"

/-- What is wrong with a list of descriptors: that it is none, or else each element. -/
def ofOperatorList (version : SchemaVersion) (v : Value) : Report :=
  match v.items? with
  | none => empty.note documentGroup ((DescriptorList.shape version).check v .root)
  | some items =>
    items.zipIdx.foldl
      (fun report (item, position) =>
        report.note (elementName position item)
          ((Descriptor.shape version).check item (Path.root.index position)))
      empty

def ofDefinitions : Representation → Value → Report
  | .catalog, v => ofSchema v
  | .operatorList version, v => ofOperatorList version v

end Report

end FlowContract
