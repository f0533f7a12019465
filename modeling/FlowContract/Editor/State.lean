import FlowContract.Config.Basic
import FlowContract.Editor.Snapshot
import FlowContract.Load.Failure

/-!
The state of an editor and the operations on it. Definitions are replaced as a whole or not at all;
of loads that overlap, the one that was started last wins among those that succeed.
-/

namespace FlowContract

open Json (Value)

/-- What became of definitions that were read. -/
inductive LoadOutcome where
  /-- They are held now. -/
  | applied
  /-- Others are held that were asked for later. -/
  | superseded
  deriving DecidableEq

/-- Why definitions were not taken. -/
inductive EditorError where
  | rejected (rejection : Rejection)
  | notLoaded (error : LoadError)

def EditorError.message : EditorError → String
  | rejected rejection => s!"definitions rejected {rejection.message}"
  | notLoaded error => error.message

inductive LogLevel where
  | debug
  | info
  | warn
  deriving DecidableEq

namespace LogLevel

def name : LogLevel → String
  | debug => "DEBUG"
  | info => "INFO"
  | warn => "WARN"

end LogLevel

inductive LogEntry where
  | classified (datatypes operators : Nat)
  | assignmentRejected (field : String) (rejection : Rejection)
  | assignmentApplied (count : Nat) (field : String)
  | assignmentDiscarded (ticket : Nat)
  | loadStarted (ticket : Nat) (field url : String)
  | loadFailed (ticket : Nat) (error : LoadError)
  | loadRejected (ticket : Nat) (field url : String) (rejection : Rejection)
  | loadApplied (count : Nat) (field url : String)
  | loadDiscarded (ticket : Nat) (url : String)
  | workflowPushed

namespace LogEntry

def level : LogEntry → LogLevel
  | classified .. | loadStarted .. | workflowPushed => .debug
  | assignmentRejected .. | loadFailed .. | loadRejected .. => .warn
  | assignmentApplied .. | assignmentDiscarded .. | loadApplied .. | loadDiscarded .. => .info

def message : LogEntry → String
  | classified datatypes operators =>
    s!"Classified {datatypes} datatype and {operators} operator definitions"
  | assignmentRejected field rejection => s!"Rejected {field} document: {rejection.message}"
  | assignmentApplied count field => s!"  -> Applied {count} {field} entries"
  | assignmentDiscarded ticket => s!"  -> Discarded assignment #{ticket}: a newer load won"
  | loadStarted ticket field url => s!"Load #{ticket} of {field} from '{url}'"
  | loadFailed ticket error => s!"Load #{ticket} failed: {error.message}"
  | loadRejected ticket field url rejection =>
    s!"Load #{ticket} rejected {field} from '{url}': {rejection.message}"
  | loadApplied count field url => s!"  -> Applied {count} {field} entries from '{url}'"
  | loadDiscarded ticket url => s!"  -> Discarded load #{ticket} from '{url}': a newer load won"
  | workflowPushed => "Workflow update from remote surface"

def write (entry : LogEntry) : String := entry.level.name ++ " " ++ entry.message

end LogEntry

def Definitions.log (definitions : Definitions) : List LogEntry :=
  match definitions.parsed.catalog? with
  | some document =>
    [.classified document.definitions.datatypes.length document.definitions.operators.length]
  | none => []

structure Editor where
  snapshot : Snapshot
  /-- The number of tickets that have been issued. Operations on definitions take one each, so a
  greater ticket was asked for later. -/
  issued : Nat
  /-- The greatest ticket whose definitions have been accepted. -/
  committed : Nat
  /-- How often subscribers have been told of a change. -/
  notifications : Nat

/-- A load that has been started and not finished. -/
structure PendingLoad where
  ticket : Nat
  url : String
  deriving DecidableEq

/-- An editor after an operation, what the operation answers, and what it reports. -/
structure Transition (α : Type) where
  editor : Editor
  result : α
  log : List LogEntry

namespace Editor

def start (connection : Connection) (representation : Representation) : Editor :=
  ⟨.initial connection representation, 0, 0, 0⟩

def ofConfig (config : EditorConfig) : Editor :=
  start ⟨config.serverUrl, config.token⟩ config.definitions

def representation (editor : Editor) : Representation := editor.snapshot.representation

def field (editor : Editor) : String := editor.representation.wireField

/-- The editor after a ticket has been issued; the ticket is the number of those issued. -/
def takeTicket (editor : Editor) : Editor := { editor with issued := editor.issued + 1 }

def publish (editor : Editor) (snapshot : Snapshot) : Editor :=
  { editor with snapshot, notifications := editor.notifications + 1 }

/-- Holds definitions, if they differ from those held. -/
def hold (editor : Editor) (definitions : Definitions) : Editor :=
  if editor.snapshot.definitions == definitions then editor
  else
    editor.publish { editor.snapshot with
      definitions
      definitionsRevision := editor.snapshot.definitionsRevision + 1 }

/-- Takes definitions that were asked for under a ticket, unless a later ticket has been served.
Definitions equal to those held count as taken. -/
def commit (editor : Editor) (ticket : Nat) (definitions : Definitions) :
    Editor × LoadOutcome :=
  if ticket ≤ editor.committed then (editor, .superseded)
  else ({ editor with committed := ticket }.hold definitions, .applied)

/-- Reads a document and takes it as definitions. Whether it was too late for that is only
reported. -/
def assign (editor : Editor) (document : Value) : Transition (Except Rejection Unit) :=
  let editor := editor.takeTicket
  match Definitions.parse editor.representation document with
  | .error rejection =>
    ⟨editor, .error rejection, [.assignmentRejected editor.field rejection]⟩
  | .ok definitions =>
    let (next, outcome) := editor.commit editor.issued definitions
    let entry : LogEntry := match outcome with
      | .applied => .assignmentApplied definitions.size editor.field
      | .superseded => .assignmentDiscarded editor.issued
    ⟨next, .ok (), definitions.log ++ [entry]⟩

/-- Starts to load definitions. Its place among other loads is settled here. -/
def startLoad (editor : Editor) (url : String) : Transition PendingLoad :=
  let editor := editor.takeTicket
  ⟨editor, ⟨editor.issued, url⟩, [.loadStarted editor.issued editor.field url]⟩

/-- Starts to load the definitions that the server keeps. -/
def startServerLoad (editor : Editor) : Transition PendingLoad :=
  editor.startLoad editor.snapshot.connection.schemaUrl

/-- Finishes a load with what was fetched. Nothing changes unless a document was fetched and can be
read. -/
def finishLoad (editor : Editor) (load : PendingLoad) (fetched : Except LoadError Value) :
    Transition (Except EditorError LoadOutcome) :=
  match fetched with
  | .error error => ⟨editor, .error (.notLoaded error), [.loadFailed load.ticket error]⟩
  | .ok document =>
    match Definitions.parse editor.representation document with
    | .error rejection =>
      ⟨editor, .error (.rejected rejection),
        [.loadRejected load.ticket editor.field load.url rejection]⟩
    | .ok definitions =>
      let (next, outcome) := editor.commit load.ticket definitions
      let entry : LogEntry := match outcome with
        | .applied => .loadApplied definitions.size editor.field load.url
        | .superseded => .loadDiscarded load.ticket load.url
      ⟨next, .ok outcome, definitions.log ++ [entry]⟩

/-- Holds a workflow, if it differs from the one held. It is the other side's and not checked. -/
def setWorkflow (editor : Editor) (document : Option Value) : Editor :=
  if editor.snapshot.workflow == document then editor
  else
    editor.publish { editor.snapshot with
      workflow := document
      workflowRevision := editor.snapshot.workflowRevision + 1 }

/-- The workflow as a tree, if it can be read as one. -/
def workflowView (editor : Editor) : Option Workflow :=
  editor.snapshot.workflow.bind Workflow.decode

end Editor

/-- One who is told of changes: how many of them have been seen. -/
structure Subscriber where
  seen : Nat
  deriving DecidableEq

namespace Subscriber

/-- A subscriber has seen what is there when it subscribes. -/
def subscribe (editor : Editor) : Subscriber := ⟨editor.notifications⟩

/-- Whether something has changed that has not been seen. -/
def hasChanged (subscriber : Subscriber) (editor : Editor) : Bool :=
  subscriber.seen != editor.notifications

end Subscriber

end FlowContract
