import FlowContract.Proofs.Editor.Publishing

/-!
Definitions and workflow do not interfere. An editor can be looked at as if it had never been
brought a workflow, or as if it had never been asked for definitions. Main statement: this is what a
run shows from which the events of the other kind are left out.
-/

namespace FlowContract

open Json (Value)

/-- What would be published if no workflow had come in. -/
def Snapshot.withoutWorkflow (s : Snapshot) : Snapshot :=
  { s with workflow := none, workflowRevision := 0 }

/-- What would be published if no definitions had been asked for. -/
def Snapshot.withoutDefinitions (s : Snapshot) : Snapshot :=
  { s with definitions := .empty s.representation, definitionsRevision := 0 }

namespace Editor

variable {editor : Editor}

/-- The editor if no workflow had come in. Every notification would have been one of definitions. -/
def withoutWorkflow (editor : Editor) : Editor :=
  { editor with
    snapshot := editor.snapshot.withoutWorkflow
    notifications := editor.snapshot.definitionsRevision }

/-- The editor if no definitions had been asked for, and so no ticket had been issued. -/
def withoutDefinitions (editor : Editor) : Editor where
  snapshot := editor.snapshot.withoutDefinitions
  issued := 0
  committed := 0
  notifications := editor.snapshot.workflowRevision

theorem hold_withoutWorkflow (editor : Editor) (definitions : Definitions) :
    editor.withoutWorkflow.hold definitions = (editor.hold definitions).withoutWorkflow := by
  have hsame : editor.withoutWorkflow.snapshot.definitions = editor.snapshot.definitions := rfl
  unfold hold
  rw [hsame]
  split
  · rfl
  · rfl

theorem commit_withoutWorkflow (ticket : Nat) (definitions : Definitions) :
    editor.withoutWorkflow.commit ticket definitions =
      ((editor.commit ticket definitions).1.withoutWorkflow,
        (editor.commit ticket definitions).2) := by
  have hsame : editor.withoutWorkflow.committed = editor.committed := rfl
  unfold commit
  rw [hsame]
  split
  · rfl
  · exact Prod.ext (hold_withoutWorkflow { editor with committed := ticket } definitions) rfl

/-- Operations on definitions do the same, whether there is a workflow or not. -/
theorem assign_withoutWorkflow (document : Value) :
    let next := editor.assign document
    editor.withoutWorkflow.assign document =
      ⟨next.editor.withoutWorkflow, next.result, next.log⟩ := by
  have htaken : editor.withoutWorkflow.takeTicket = editor.takeTicket.withoutWorkflow := rfl
  have hrepresentation :
      editor.takeTicket.withoutWorkflow.representation = editor.takeTicket.representation := rfl
  unfold assign
  rw [htaken]
  simp only [hrepresentation]
  cases Definitions.parse editor.takeTicket.representation document with
  | error rejection => rfl
  | ok definitions =>
    have hissued : editor.takeTicket.withoutWorkflow.issued = editor.takeTicket.issued := rfl
    simp only [commit_withoutWorkflow, hissued]
    rfl

theorem finishLoad_withoutWorkflow (load : PendingLoad) (fetched : Except LoadError Value) :
    let next := editor.finishLoad load fetched
    editor.withoutWorkflow.finishLoad load fetched =
      ⟨next.editor.withoutWorkflow, next.result, next.log⟩ := by
  have hrepresentation : editor.withoutWorkflow.representation = editor.representation := rfl
  unfold finishLoad
  cases fetched with
  | error error => rfl
  | ok document =>
    simp only [hrepresentation]
    cases Definitions.parse editor.representation document with
    | error rejection => rfl
    | ok definitions =>
      simp only [commit_withoutWorkflow]
      rfl

theorem setWorkflow_withoutDefinitions (document : Option Value) :
    editor.withoutDefinitions.setWorkflow document =
      (editor.setWorkflow document).withoutDefinitions := by
  have hsame : editor.withoutDefinitions.snapshot.workflow = editor.snapshot.workflow := rfl
  unfold setWorkflow
  rw [hsame]
  split
  · rfl
  · rfl

theorem setWorkflow_withoutWorkflow (document : Option Value) :
    (editor.setWorkflow document).withoutWorkflow = editor.withoutWorkflow := by
  unfold setWorkflow
  split
  · rfl
  · rfl

theorem Publishes.withoutDefinitions {next : Editor} (h : editor.Publishes next none) :
    next.withoutDefinitions = editor.withoutDefinitions := by
  unfold Editor.withoutDefinitions
  cases h with
  | nothing hquiet _ => rw [hquiet.snapshot]
  | definitions _ hsnapshot _ =>
    rw [hsnapshot]
    rfl

end Editor

/-- What is seen of a step if only a part of what is published is looked at. -/
def Observation.through (view : Snapshot → Snapshot) (seen : Observation) : Observation :=
  { seen with snapshot := view seen.snapshot }

namespace Session

/-- The session if no workflow had come in. -/
def withoutWorkflow (session : Session) : Session :=
  { session with editor := session.editor.withoutWorkflow }

/-- The session if no definitions had been asked for, and so no load had been started. -/
def withoutDefinitions (session : Session) : Session := .start session.editor.withoutDefinitions

/-- A part of a session stands on its own. The events that bear on it do to the part what they do to
the whole, and answer the same; other events do not show in it. -/
structure Separates (bears : Event → Bool) (part : Session → Session)
    (view : Snapshot → Snapshot) : Prop where
  shows : ∀ session, (part session).editor.snapshot = view session.editor.snapshot
  inside : ∀ session event, bears event = true →
    (part session).step event = (part (session.step event).1, (session.step event).2)
  outside : ∀ session event, bears event = false → part (session.step event).1 = part session

/-- A run of which only the events are kept that bear on a part shows what the whole run shows of
that part, in every step that is left. -/
theorem Separates.trace {bears : Event → Bool} {part : Session → Session}
    {view : Snapshot → Snapshot} (h : Separates bears part view) (session : Session)
    (events : List Event) :
    (part session).trace (events.filter bears) =
      ((session.trace events).filter (bears ·.event)).map (Observation.through view) := by
  induction events generalizing session with
  | nil => rfl
  | cons event rest ih =>
    cases hbears : bears event with
    | true =>
      have hstep := h.inside session event hbears
      have hshows := h.shows (session.step event).1
      have hrest := ih (session.step event).1
      rw [List.filter_cons_of_pos hbears]
      simp [Session.trace, hbears, hstep, hshows, hrest, Observation.through]
    | false =>
      have hpart := h.outside session event hbears
      have hrest := ih (session.step event).1
      rw [hpart] at hrest
      rw [List.filter_cons_of_neg (by simp [hbears]), hrest]
      simp [Session.trace, hbears]

theorem step_withoutWorkflow {session : Session} {event : Event} (h : event.workflow = none) :
    session.withoutWorkflow.step event =
      ((session.step event).1.withoutWorkflow, (session.step event).2) := by
  cases event with
  | assign document =>
    simp only [step, withoutWorkflow, Editor.assign_withoutWorkflow]
  | start id url => rfl
  | startFromServer id => rfl
  | finish id fetched =>
    have hpending : session.withoutWorkflow.pending = session.pending := rfl
    simp only [step, hpending]
    cases session.pending.find? id with
    | none => rfl
    | some load =>
      simp only [withoutWorkflow, Editor.finishLoad_withoutWorkflow]
  | abandon id => rfl
  | receive document => cases h
  | push document => cases h

theorem separates_definitions :
    Separates (·.workflow.isNone) withoutWorkflow Snapshot.withoutWorkflow where
  shows session := rfl
  inside session event hbears := step_withoutWorkflow (Option.isNone_iff_eq_none.mp hbears)
  outside session event hbears := by
    cases event with
    | receive document | push document =>
      simp only [step, withoutWorkflow, Editor.setWorkflow_withoutWorkflow]
    | _ => cases hbears

theorem separates_workflow :
    Separates (·.workflow.isSome) withoutDefinitions Snapshot.withoutDefinitions where
  shows session := rfl
  inside session event hbears := by
    cases event with
    | receive document | push document =>
      simp only [step, withoutDefinitions, start, Editor.setWorkflow_withoutDefinitions]
    | _ => cases hbears
  outside session event hbears := by
    have hpublishes := (session.step_happens event).publishes
    rw [Option.isSome_eq_false_iff, Option.isNone_iff_eq_none] at hbears
    rw [hbears] at hpublishes
    exact congrArg start hpublishes.withoutDefinitions

end Session

/-- Definitions and workflow never interfere. Of every run from an editor with nothing in it: if all
workflows that come in are left out, every operation on definitions answers the same and publishes
the same, apart from the workflow; if all operations on definitions are left out, every workflow
that comes in is published the same, apart from the definitions; the connection and the
representation are those of the beginning; and a workflow that comes in is held as it came, until
the next one does. -/
theorem definitions_and_workflow_never_interfere (connection : Connection)
    (representation : Representation) (events : List Event) :
    let initial := Session.start (.start connection representation)
    let trace := initial.trace events
    let session := initial.run events
    let s := session.editor.snapshot
    initial.trace (events.filter (·.workflow.isNone)) =
      (trace.filter (·.event.workflow.isNone)).map (.through Snapshot.withoutWorkflow) ∧
    initial.trace (events.filter (·.workflow.isSome)) =
      (trace.filter (·.event.workflow.isSome)).map (.through Snapshot.withoutDefinitions) ∧
    (s.connection = connection ∧ s.representation = representation) ∧
    ∀ event,
      let t := (session.step event).1.editor.snapshot
      (∀ document, event.workflow = some document →
        Equals t.workflow document ∧ t.definitions = s.definitions ∧
          t.definitionsRevision = s.definitionsRevision) ∧
      (event.workflow = none →
        t.workflow = s.workflow ∧ t.workflowRevision = s.workflowRevision) := by
  intro initial trace session s
  have hprecedes : initial.editor.snapshot.Precedes s := initial.run_precedes events
  refine ⟨?_, ?_, ⟨hprecedes.connection, hprecedes.representation⟩, ?_⟩
  · exact Session.separates_definitions.trace initial events
  · exact Session.separates_workflow.trace initial events
  · intro event t
    have hpublishes := (session.step_happens event).publishes
    constructor
    · intro document hworkflow
      rw [hworkflow] at hpublishes
      exact ⟨hpublishes.workflow_equals, hpublishes.definitions_eq⟩
    · intro hworkflow
      rw [hworkflow] at hpublishes
      exact hpublishes.workflow_eq

end FlowContract
