import FlowContract.Editor.Session
import FlowContract.Proofs.Equality
import FlowContract.SortedMap.Lookup

/-!
What one event does to an editor and its loads. Later modules argue about runs with these facts and
do not look into the operations again.
-/

namespace FlowContract

open Json (Value)

/-- What a load that is finished brings: definitions, or the reason why there are none. -/
def Definitions.ofFetched (representation : Representation) (fetched : Except LoadError Value) :
    Except EditorError Definitions :=
  match fetched with
  | .error error => .error (.notLoaded error)
  | .ok document => (Definitions.parse representation document).mapError .rejected

theorem Definitions.ofFetched_eq_ok_iff {representation : Representation}
    {fetched : Except LoadError Value} {definitions : Definitions} :
    ofFetched representation fetched = .ok definitions ↔
      ∃ document, fetched = .ok document ∧ parse representation document = .ok definitions := by
  cases fetched with
  | error error => simp [ofFetched]
  | ok document =>
    simp only [ofFetched, Except.ok.injEq, exists_eq_left']
    cases parse representation document with
    | error rejection => exact ⟨fun h => (nomatch h), fun h => (nomatch h)⟩
    | ok read =>
      constructor
      · intro h
        cases h
        rfl
      · intro h
        cases h
        rfl

namespace Editor

variable {editor : Editor} {definitions : Definitions}

@[simp] theorem hold_issued : (editor.hold definitions).issued = editor.issued := by
  unfold hold
  split <;> rfl

@[simp] theorem hold_committed : (editor.hold definitions).committed = editor.committed := by
  unfold hold
  split <;> rfl

@[simp] theorem hold_representation :
    (editor.hold definitions).representation = editor.representation := by
  unfold hold
  split <;> rfl

/-- What is held in the end equals what was to be held, also if nothing was replaced. -/
theorem hold_definitions : (editor.hold definitions).snapshot.definitions == definitions := by
  unfold hold
  split
  · assumption
  · exact BEq.refl definitions

/-- What is published depends on what was published before, and on no counter. -/
theorem hold_snapshot_congr {other : Editor} (h : other.snapshot = editor.snapshot) :
    (other.hold definitions).snapshot = (editor.hold definitions).snapshot := by
  unfold hold publish
  rw [h]
  split
  · exact h
  · rfl

theorem setWorkflow_snapshot_congr {other : Editor} (h : other.snapshot = editor.snapshot)
    (document : Option Value) :
    (other.setWorkflow document).snapshot = (editor.setWorkflow document).snapshot := by
  unfold setWorkflow publish
  rw [h]
  split
  · exact h
  · rfl

@[simp] theorem setWorkflow_issued (document : Option Value) :
    (editor.setWorkflow document).issued = editor.issued := by
  unfold setWorkflow
  split <;> rfl

@[simp] theorem setWorkflow_committed (document : Option Value) :
    (editor.setWorkflow document).committed = editor.committed := by
  unfold setWorkflow
  split <;> rfl

@[simp] theorem setWorkflow_representation (document : Option Value) :
    (editor.setWorkflow document).representation = editor.representation := by
  unfold setWorkflow
  split <;> rfl

@[simp] theorem setWorkflow_definitions (document : Option Value) :
    (editor.setWorkflow document).snapshot.definitions = editor.snapshot.definitions := by
  unfold setWorkflow
  split <;> rfl

theorem commit_of_le {ticket : Nat} (h : ticket ≤ editor.committed) :
    editor.commit ticket definitions = (editor, .superseded) :=
  if_pos h

theorem commit_of_lt {ticket : Nat} (h : editor.committed < ticket) :
    editor.commit ticket definitions =
      ({ editor with committed := ticket }.hold definitions, .applied) :=
  if_neg (Nat.not_le.mpr h)

theorem commit_applied_iff {ticket : Nat} :
    (editor.commit ticket definitions).2 = .applied ↔ editor.committed < ticket := by
  rcases Nat.lt_or_ge editor.committed ticket with h | h
  · simp [commit_of_lt h, h]
  · simp [commit_of_le h, h]

theorem commit_congr {other : Editor} (hsnapshot : other.snapshot = editor.snapshot)
    (hcommitted : other.committed = editor.committed) (ticket : Nat) (definitions : Definitions) :
    (other.commit ticket definitions).2 = (editor.commit ticket definitions).2 ∧
      (other.commit ticket definitions).1.snapshot =
        (editor.commit ticket definitions).1.snapshot := by
  unfold commit
  rw [hcommitted]
  split
  · exact ⟨rfl, hsnapshot⟩
  · exact ⟨rfl, hold_snapshot_congr hsnapshot⟩

@[simp] theorem commit_issued (ticket : Nat) :
    (editor.commit ticket definitions).1.issued = editor.issued := by
  unfold commit
  split
  · rfl
  · exact hold_issued

@[simp] theorem commit_representation (ticket : Nat) :
    (editor.commit ticket definitions).1.representation = editor.representation := by
  unfold commit
  split
  · rfl
  · exact hold_representation

@[simp] theorem takeTicket_issued : editor.takeTicket.issued = editor.issued + 1 :=
  rfl

@[simp] theorem takeTicket_representation :
    editor.takeTicket.representation = editor.representation :=
  rfl

/-- A document that is rejected costs a ticket and nothing else. -/
theorem assign_of_error {document : Value} {rejection : Rejection}
    (h : Definitions.parse editor.representation document = .error rejection) :
    (editor.assign document).editor = editor.takeTicket ∧
      (editor.assign document).result = .error rejection := by
  simp [assign, h]

theorem assign_of_ok {document : Value}
    (h : Definitions.parse editor.representation document = .ok definitions) :
    (editor.assign document).editor =
        (editor.takeTicket.commit (editor.issued + 1) definitions).1 ∧
      (editor.assign document).result = .ok () := by
  have hparse : Definitions.parse editor.takeTicket.representation document = .ok definitions := h
  constructor
  · simp only [assign, hparse]
    rfl
  · simp only [assign, hparse]

/-- A load that brings nothing leaves the editor as it was. -/
theorem finishLoad_of_error (load : PendingLoad) {fetched : Except LoadError Value}
    {error : EditorError} (h : Definitions.ofFetched editor.representation fetched = .error error) :
    (editor.finishLoad load fetched).editor = editor ∧
      (editor.finishLoad load fetched).result = .error error := by
  cases fetched with
  | error loadError =>
    cases h
    exact ⟨rfl, rfl⟩
  | ok document =>
    simp only [Definitions.ofFetched] at h
    cases hparse : Definitions.parse editor.representation document with
    | error rejection =>
      rw [hparse] at h
      cases h
      simp [finishLoad, hparse]
    | ok definitions =>
      rw [hparse] at h
      cases h

theorem finishLoad_of_ok (load : PendingLoad) {fetched : Except LoadError Value}
    (h : Definitions.ofFetched editor.representation fetched = .ok definitions) :
    (editor.finishLoad load fetched).editor = (editor.commit load.ticket definitions).1 ∧
      (editor.finishLoad load fetched).result = .ok (editor.commit load.ticket definitions).2 := by
  cases fetched with
  | error loadError => cases h
  | ok document =>
    simp only [Definitions.ofFetched] at h
    cases hparse : Definitions.parse editor.representation document with
    | error rejection =>
      rw [hparse] at h
      cases h
    | ok parsed =>
      rw [hparse] at h
      cases h
      simp [finishLoad, hparse]

end Editor

namespace Event

/-- The name under which an event starts a load. -/
def starts : Event → Option String
  | .start id _ | .startFromServer id => some id
  | _ => none

/-- The workflow that an event brings. -/
def workflow : Event → Option (Option Value)
  | .receive document | .push document => some document
  | _ => none

/-- The document that an event brings to be read as definitions. -/
def document : Event → Option Value
  | .assign document | .finish _ (.ok document) => some document
  | _ => none

/-- Whether an event asks for definitions, and so has a place among all that do. -/
def calls : Event → Bool
  | .assign _ | .start .. | .startFromServer _ => true
  | _ => false

/-- Whether an event puts an end to a load under way under a name: by finishing it, giving it up, or
starting another one in its place. -/
def ends (event : Event) (id : String) : Bool :=
  match event with
  | .start name _ | .startFromServer name | .finish name _ | .abandon name => name == id
  | _ => false

theorem calls_of_starts {event : Event} {id : String} (h : event.starts = some id) :
    event.calls = true := by
  cases event <;> first | rfl | cases h

theorem ends_of_starts {event : Event} {id : String} (h : event.starts = some id) (name : String) :
    event.ends name = (id == name) := by
  cases event <;> cases h <;> rfl

theorem calls_of_workflow {event : Event} {document : Option Value}
    (h : event.workflow = some document) : event.calls = false := by
  cases event <;> first | rfl | cases h

theorem ends_of_workflow {event : Event} {document : Option Value}
    (h : event.workflow = some document) (id : String) : event.ends id = false := by
  cases event <;> first | rfl | cases h

theorem document_of_starts {event : Event} {id : String} (h : event.starts = some id) :
    event.document = none := by
  cases event <;> first | rfl | cases h

theorem document_of_workflow {event : Event} {document : Option Value}
    (h : event.workflow = some document) : event.document = none := by
  cases event <;> first | rfl | cases h

theorem starts_of_workflow {event : Event} {document : Option Value}
    (h : event.workflow = some document) : event.starts = none := by
  cases event <;> first | rfl | cases h

end Event

namespace Session

variable {session : Session}

def ticket? (session : Session) (id : String) : Option Nat :=
  (session.pending.find? id).map PendingLoad.ticket

theorem ticket?_of_find? {id : String} {load : PendingLoad}
    (h : session.pending.find? id = some load) : session.ticket? id = some load.ticket := by
  unfold ticket?
  rw [h]
  rfl

theorem ticket?_of_find?_none {id : String} (h : session.pending.find? id = none) :
    session.ticket? id = none := by
  unfold ticket?
  rw [h]
  rfl

theorem isSome_ticket? (session : Session) (id : String) :
    (session.ticket? id).isSome = session.pending.contains id := by
  unfold ticket?
  rw [Option.isSome_map, SortedMap.isSome_find?]

/-- What an event can do to a session, and what it answers. -/
inductive Happens (session : Session) : Event → Session → Answer → Prop where
  | rejected {document : Value} {rejection : Rejection}
      (h : Definitions.parse session.editor.representation document = .error rejection) :
      Happens session (.assign document) ⟨session.editor.takeTicket, session.pending⟩
        (.assigned (.error rejection))
  | assigned {document : Value} {definitions : Definitions}
      (h : Definitions.parse session.editor.representation document = .ok definitions) :
      Happens session (.assign document)
        ⟨(session.editor.takeTicket.commit (session.editor.issued + 1) definitions).1,
          session.pending⟩
        (.assigned (.ok ()))
  | started {event : Event} {id : String} (url : String) (h : event.starts = some id) :
      Happens session event
        ⟨session.editor.takeTicket,
          session.pending.insert id ⟨session.editor.issued + 1, url⟩⟩
        .done
  | unknown {id : String} {fetched : Except LoadError Value}
      (h : session.pending.find? id = none) :
      Happens session (.finish id fetched) session (.known false)
  | failed {id : String} {fetched : Except LoadError Value} {load : PendingLoad}
      {error : EditorError} (hload : session.pending.find? id = some load)
      (h : Definitions.ofFetched session.editor.representation fetched = .error error) :
      Happens session (.finish id fetched) ⟨session.editor, session.pending.erase id⟩
        (.loaded (.error error))
  | finished {id : String} {fetched : Except LoadError Value} {load : PendingLoad}
      {definitions : Definitions} (hload : session.pending.find? id = some load)
      (h : Definitions.ofFetched session.editor.representation fetched = .ok definitions) :
      Happens session (.finish id fetched)
        ⟨(session.editor.commit load.ticket definitions).1, session.pending.erase id⟩
        (.loaded (.ok (session.editor.commit load.ticket definitions).2))
  | abandoned {id : String} :
      Happens session (.abandon id) ⟨session.editor, session.pending.erase id⟩
        (.known (session.pending.contains id))
  | exchanged {event : Event} {document : Option Value} (h : event.workflow = some document) :
      Happens session event ⟨session.editor.setWorkflow document, session.pending⟩ .done

theorem step_happens (session : Session) (event : Event) :
    Happens session event (session.step event).1 (session.step event).2.1 := by
  cases event with
  | assign document =>
    simp only [step]
    cases hparse : Definitions.parse session.editor.representation document with
    | error rejection =>
      obtain ⟨heditor, hresult⟩ := Editor.assign_of_error hparse
      rw [heditor, hresult]
      exact .rejected hparse
    | ok definitions =>
      obtain ⟨heditor, hresult⟩ := Editor.assign_of_ok hparse
      rw [heditor, hresult]
      exact .assigned hparse
  | start id url => exact .started url rfl
  | startFromServer id => exact .started session.editor.snapshot.connection.schemaUrl rfl
  | finish id fetched =>
    cases hload : session.pending.find? id with
    | none =>
      simp only [step, hload]
      exact .unknown hload
    | some load =>
      simp only [step, hload]
      cases hread : Definitions.ofFetched session.editor.representation fetched with
      | error error =>
        obtain ⟨heditor, hresult⟩ := Editor.finishLoad_of_error load hread
        rw [heditor, hresult]
        exact .failed hload hread
      | ok definitions =>
        obtain ⟨heditor, hresult⟩ := Editor.finishLoad_of_ok load hread
        rw [heditor, hresult]
        exact .finished hload hread
  | abandon id => exact .abandoned
  | receive document => exact .exchanged rfl
  | push document => exact .exchanged rfl

variable {session' : Session} {event : Event} {answer : Answer}

theorem Happens.representation (h : Happens session event session' answer) :
    session'.editor.representation = session.editor.representation := by
  cases h <;> simp

theorem Happens.issued (h : Happens session event session' answer) :
    session'.editor.issued = session.editor.issued + if event.calls then 1 else 0 := by
  cases h with
  | started url h => simp [Event.calls_of_starts h]
  | exchanged h => simp [Event.calls_of_workflow h]
  | _ => simp [Event.calls]

/-- A load is pending, with the ticket of its start, until an event ends it. -/
theorem Happens.ticket? (h : Happens session event session' answer) (name : String) :
    session'.ticket? name =
      if event.starts = some name then some (session.editor.issued + 1)
      else if event.ends name then none
      else session.ticket? name := by
  unfold Session.ticket?
  cases h with
  | rejected | assigned => rfl
  | @started event id url h =>
    rw [SortedMap.find?_insert]
    by_cases hname : name = id
    · simp [h, hname]
    · simp [h, hname, Event.ends_of_starts h, Ne.symm hname]
  | @unknown id fetched h =>
    by_cases hname : name = id
    · simp [Event.starts, Event.ends, hname, h]
    · simp [Event.starts, Event.ends, Ne.symm hname]
  | @failed id | @finished id | @abandoned id =>
    rw [SortedMap.find?_erase]
    by_cases hname : name = id
    · simp [Event.starts, Event.ends, hname]
    · simp [Event.starts, Event.ends, hname, Ne.symm hname]
  | exchanged h => simp [Event.ends_of_workflow h, Event.starts_of_workflow h]

theorem run_concat (session : Session) (events : List Event) (event : Event) :
    session.run (events ++ [event]) = ((session.run events).step event).1 := by
  simp [run]

end Session

end FlowContract
