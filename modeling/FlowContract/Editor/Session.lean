import FlowContract.Editor.State

/-!
An editor in use: operations on it in any order, with loads that have been started and not yet
finished.
-/

namespace FlowContract

open Json (Value)

/-- What can happen to an editor. -/
inductive Event where
  | assign (document : Value)
  /-- A load is started under a name; one that was started under the name before is forgotten. -/
  | start (id url : String)
  /-- A load of the server's definitions is started under a name, likewise. -/
  | startFromServer (id : String)
  /-- A load is finished with what was fetched for it. -/
  | finish (id : String) (fetched : Except LoadError Value)
  | abandon (id : String)
  /-- A workflow comes in from the hosting side. -/
  | receive (document : Option Value)
  /-- A workflow comes in from the drawing side. -/
  | push (document : Option Value)

inductive Answer where
  | assigned (result : Except Rejection Unit)
  | loaded (result : Except EditorError LoadOutcome)
  /-- Whether there was a load of the name. -/
  | known (isKnown : Bool)
  | done

/-- An editor and the loads that are under way. -/
structure Session where
  editor : Editor
  pending : SortedMap PendingLoad

namespace Session

def start (editor : Editor) : Session := ⟨editor, ∅⟩

/-- The session after an event, what the event answers, and what is reported. -/
def step (session : Session) : Event → Session × Answer × List LogEntry
  | .assign document =>
    let next := session.editor.assign document
    ({ session with editor := next.editor }, .assigned next.result, next.log)
  | .start id url =>
    let next := session.editor.startLoad url
    (⟨next.editor, session.pending.insert id next.result⟩, .done, next.log)
  | .startFromServer id =>
    let next := session.editor.startServerLoad
    (⟨next.editor, session.pending.insert id next.result⟩, .done, next.log)
  | .finish id fetched =>
    match session.pending.find? id with
    | none => (session, .known false, [])
    | some load =>
      let next := session.editor.finishLoad load fetched
      (⟨next.editor, session.pending.erase id⟩, .loaded next.result, next.log)
  | .abandon id =>
    (⟨session.editor, session.pending.erase id⟩, .known (session.pending.contains id), [])
  | .receive document =>
    ({ session with editor := session.editor.setWorkflow document }, .done, [])
  | .push document =>
    ({ session with editor := session.editor.setWorkflow document }, .done, [.workflowPushed])

def run (session : Session) (events : List Event) : Session :=
  events.foldl (fun session event => (session.step event).1) session

end Session

end FlowContract
