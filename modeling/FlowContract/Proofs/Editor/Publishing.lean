import FlowContract.Proofs.Definitions.EqualDocuments
import FlowContract.Proofs.Editor.Coherence
import FlowContract.Proofs.Editor.LoadOrder

/-!
What an editor publishes while it works. An operation publishes other definitions, another workflow,
or nothing; from these three cases everything here follows: what the revisions and the notifications
count, that the contents of a revision never change, and that a document that equals the one that is
held is not published again.
-/

namespace FlowContract

open Json (Value)

instance : ReflBEq Snapshot where
  rfl {s} := by
    change (s.connection == s.connection && s.representation == s.representation
      && s.definitions == s.definitions && s.workflow == s.workflow
      && s.definitionsRevision == s.definitionsRevision
      && s.workflowRevision == s.workflowRevision) = true
    simp

namespace Snapshot

variable {s t u : Snapshot}

theorem ne_of_definitionsRevision (h : s.definitionsRevision ≠ t.definitionsRevision) :
    (s == t) = false := by
  change (_ && s.definitionsRevision == t.definitionsRevision && _) = false
  simp [h]

theorem ne_of_workflowRevision (h : s.workflowRevision ≠ t.workflowRevision) :
    (s == t) = false := by
  change (_ && s.workflowRevision == t.workflowRevision) = false
  simp [h]

/-- A snapshot may have been published before another one. No revision has gone down since, and what
has the same revision is the very same, not only equal. -/
structure Precedes (s t : Snapshot) : Prop where
  connection : t.connection = s.connection
  representation : t.representation = s.representation
  definitionsRevision : s.definitionsRevision ≤ t.definitionsRevision
  workflowRevision : s.workflowRevision ≤ t.workflowRevision
  definitions : t.definitionsRevision = s.definitionsRevision → t.definitions = s.definitions
  workflow : t.workflowRevision = s.workflowRevision → t.workflow = s.workflow

theorem Precedes.refl (s : Snapshot) : s.Precedes s :=
  ⟨rfl, rfl, Nat.le_refl _, Nat.le_refl _, fun _ => rfl, fun _ => rfl⟩

theorem Precedes.trans (hst : s.Precedes t) (htu : t.Precedes u) : s.Precedes u where
  connection := htu.connection.trans hst.connection
  representation := htu.representation.trans hst.representation
  definitionsRevision := Nat.le_trans hst.definitionsRevision htu.definitionsRevision
  workflowRevision := Nat.le_trans hst.workflowRevision htu.workflowRevision
  definitions h := by
    -- The revision in between is caught between two equal ones.
    have hle := hst.definitionsRevision
    have hle' := htu.definitionsRevision
    exact (htu.definitions (by omega)).trans (hst.definitions (by omega))
  workflow h := by
    have hle := hst.workflowRevision
    have hle' := htu.workflowRevision
    exact (htu.workflow (by omega)).trans (hst.workflow (by omega))

/-- Two revisions tell whether anything has changed. -/
theorem Precedes.eq_iff (h : s.Precedes t) :
    t = s ↔ t.definitionsRevision + t.workflowRevision =
      s.definitionsRevision + s.workflowRevision := by
  constructor
  · rintro rfl
    rfl
  · intro hsum
    have hdefinitions := h.definitionsRevision
    have hworkflow := h.workflowRevision
    have hsame : t.definitionsRevision = s.definitionsRevision := by omega
    have hsame' : t.workflowRevision = s.workflowRevision := by omega
    cases s
    cases t
    simp only [mk.injEq]
    exact ⟨h.connection, h.representation, h.definitions hsame, h.workflow hsame', hsame, hsame'⟩

end Snapshot

namespace Editor

variable {editor next : Editor} {brought : Option (Option Value)}

/-- Nothing is published from one editor to the next. -/
structure Quiet (editor next : Editor) : Prop where
  snapshot : next.snapshot = editor.snapshot
  notifications : next.notifications = editor.notifications

/-- What is published from one editor to the next by an operation that brings a workflow or none. -/
inductive Publishes (editor next : Editor) : Option (Option Value) → Prop where
  | nothing {brought : Option (Option Value)} (hquiet : editor.Quiet next)
      (hbrought : ∀ document, brought = some document → editor.snapshot.workflow == document) :
      Publishes editor next brought
  | definitions {definitions : Definitions}
      (hnew : (editor.snapshot.definitions == definitions) = false)
      (hsnapshot : next.snapshot = { editor.snapshot with
        definitions
        definitionsRevision := editor.snapshot.definitionsRevision + 1 })
      (hnotifications : next.notifications = editor.notifications + 1) :
      Publishes editor next none
  | workflow {document : Option Value} (hnew : (editor.snapshot.workflow == document) = false)
      (hsnapshot : next.snapshot = { editor.snapshot with
        workflow := document
        workflowRevision := editor.snapshot.workflowRevision + 1 })
      (hnotifications : next.notifications = editor.notifications + 1) :
      Publishes editor next (some document)

theorem commit_publishes (editor : Editor) (ticket : Nat) (definitions : Definitions) :
    editor.Publishes (editor.commit ticket definitions).1 none := by
  rcases Nat.lt_or_ge editor.committed ticket with h | h
  · rw [commit_of_lt h]
    unfold hold
    split
    · exact .nothing ⟨rfl, rfl⟩ nofun
    · rename_i hnew
      exact .definitions (Bool.eq_false_iff.mpr hnew) rfl rfl
  · rw [commit_of_le h]
    exact .nothing ⟨rfl, rfl⟩ nofun

theorem setWorkflow_publishes (editor : Editor) (document : Option Value) :
    editor.Publishes (editor.setWorkflow document) (some document) := by
  unfold setWorkflow
  split
  · rename_i hequal
    refine .nothing ⟨rfl, rfl⟩ ?_
    rintro _ ⟨rfl⟩
    exact hequal
  · rename_i hnew
    exact .workflow (Bool.eq_false_iff.mpr hnew) rfl rfl

/-- Definitions that equal those that are held are not published, whether they come too late or not.
-/
theorem commit_quiet {definitions : Definitions} (h : editor.snapshot.definitions == definitions)
    (ticket : Nat) : editor.Quiet (editor.commit ticket definitions).1 := by
  rcases Nat.lt_or_ge editor.committed ticket with hlt | hge
  · rw [commit_of_lt hlt, hold, if_pos h]
    exact ⟨rfl, rfl⟩
  · rw [commit_of_le hge]
    exact ⟨rfl, rfl⟩

/-- To issue a ticket is to publish nothing. -/
theorem Publishes.of_takeTicket (h : editor.takeTicket.Publishes next brought) :
    editor.Publishes next brought := by
  cases h with
  | nothing hquiet hbrought => exact .nothing ⟨hquiet.snapshot, hquiet.notifications⟩ hbrought
  | definitions hnew hsnapshot hnotifications => exact .definitions hnew hsnapshot hnotifications
  | workflow hnew hsnapshot hnotifications => exact .workflow hnew hsnapshot hnotifications

theorem Publishes.workflow_eq (h : editor.Publishes next none) :
    next.snapshot.workflow = editor.snapshot.workflow ∧
      next.snapshot.workflowRevision = editor.snapshot.workflowRevision := by
  cases h with
  | nothing hquiet _ => simp [hquiet.snapshot]
  | definitions _ hsnapshot _ => simp [hsnapshot]

theorem Publishes.definitions_eq {document : Option Value}
    (h : editor.Publishes next (some document)) :
    next.snapshot.definitions = editor.snapshot.definitions ∧
      next.snapshot.definitionsRevision = editor.snapshot.definitionsRevision := by
  cases h with
  | nothing hquiet _ => simp [hquiet.snapshot]
  | workflow _ hsnapshot _ => simp [hsnapshot]

theorem Publishes.workflow_equals {document : Option Value}
    (h : editor.Publishes next (some document)) : next.snapshot.workflow == document := by
  cases h with
  | nothing hquiet hbrought =>
    rw [hquiet.snapshot]
    exact hbrought document rfl
  | workflow _ hsnapshot _ =>
    rw [hsnapshot]
    exact BEq.rfl

/-- The revisions and the notifications of an editor count what has changed since the last one. -/
structure Counts (editor next : Editor) : Prop where
  definitions : next.snapshot.definitionsRevision = editor.snapshot.definitionsRevision +
    if editor.snapshot.definitions == next.snapshot.definitions then 0 else 1
  workflow : next.snapshot.workflowRevision = editor.snapshot.workflowRevision +
    if editor.snapshot.workflow == next.snapshot.workflow then 0 else 1
  single : next.snapshot.definitionsRevision = editor.snapshot.definitionsRevision ∨
    next.snapshot.workflowRevision = editor.snapshot.workflowRevision
  notifications : next.notifications = editor.notifications +
    if editor.snapshot == next.snapshot then 0 else 1

theorem Publishes.counts (h : editor.Publishes next brought) : editor.Counts next := by
  cases h with
  | nothing hquiet _ =>
    obtain ⟨hsnapshot, hnotifications⟩ := hquiet
    constructor
    · simp [hsnapshot]
    · simp [hsnapshot]
    · simp [hsnapshot]
    · simp [hsnapshot, hnotifications]
  | definitions hnew hsnapshot hnotifications =>
    have hchanged : (editor.snapshot == next.snapshot) = false :=
      Snapshot.ne_of_definitionsRevision (by simp [hsnapshot])
    constructor
    · simp [hsnapshot, hnew]
    · simp [hsnapshot]
    · simp [hsnapshot]
    · simp [hchanged, hnotifications]
  | workflow hnew hsnapshot hnotifications =>
    have hchanged : (editor.snapshot == next.snapshot) = false :=
      Snapshot.ne_of_workflowRevision (by simp [hsnapshot])
    constructor
    · simp [hsnapshot]
    · simp [hsnapshot, hnew]
    · simp [hsnapshot]
    · simp [hchanged, hnotifications]

theorem Publishes.precedes (h : editor.Publishes next brought) :
    editor.snapshot.Precedes next.snapshot := by
  cases h with
  | nothing hquiet _ =>
    rw [hquiet.snapshot]
    exact .refl _
  | definitions _ hsnapshot _ =>
    rw [hsnapshot]
    exact ⟨rfl, rfl, Nat.le_succ _, Nat.le_refl _, fun h => absurd h (Nat.succ_ne_self _),
      fun _ => rfl⟩
  | workflow _ hsnapshot _ =>
    rw [hsnapshot]
    exact ⟨rfl, rfl, Nat.le_refl _, Nat.le_succ _, fun _ => rfl,
      fun h => absurd h (Nat.succ_ne_self _)⟩

/-- There has been a notification for each revision. -/
def Balanced (editor : Editor) : Prop :=
  editor.snapshot.definitionsRevision + editor.snapshot.workflowRevision = editor.notifications

/-- A subscriber is told exactly of what differs from what was there when it subscribed. -/
theorem Balanced.hasChanged_iff (h : editor.Balanced) (hnext : next.Balanced)
    (hprecedes : editor.snapshot.Precedes next.snapshot) :
    (Subscriber.subscribe editor).hasChanged next = true ↔ next.snapshot ≠ editor.snapshot := by
  have hseen : (Subscriber.subscribe editor).hasChanged next = true ↔
      editor.notifications ≠ next.notifications := bne_iff_ne
  rw [hseen, ne_comm, ne_eq, ne_eq, hprecedes.eq_iff, h, hnext]

theorem Publishes.balanced (h : editor.Publishes next brought) (hbalanced : editor.Balanced) :
    next.Balanced := by
  unfold Balanced at *
  cases h with
  | nothing hquiet _ =>
    rw [hquiet.snapshot, hquiet.notifications]
    exact hbalanced
  | definitions _ hsnapshot hnotifications =>
    rw [hsnapshot, hnotifications]
    simp only
    omega
  | workflow _ hsnapshot hnotifications =>
    rw [hsnapshot, hnotifications]
    simp only
    omega

end Editor

namespace Session

variable {session session' : Session} {event : Event} {answer : Answer}

theorem Happens.publishes (h : session.Happens event session' answer) :
    session.editor.Publishes session'.editor event.workflow := by
  cases h with
  | rejected | unknown | failed | abandoned => exact .nothing ⟨rfl, rfl⟩ nofun
  | started url hstarts =>
    refine .nothing ⟨rfl, rfl⟩ fun document hdocument => ?_
    rw [Event.starts_of_workflow hdocument] at hstarts
    cases hstarts
  | assigned => exact (Editor.commit_publishes _ _ _).of_takeTicket
  | finished => exact Editor.commit_publishes _ _ _
  | exchanged hdocument =>
    rw [hdocument]
    exact Editor.setWorkflow_publishes _ _

theorem run_precedes (session : Session) (events : List Event) :
    session.editor.snapshot.Precedes (session.run events).editor.snapshot := by
  induction events generalizing session with
  | nil => exact .refl _
  | cons event rest ih =>
    have hstep := (session.step_happens event).publishes.precedes
    exact hstep.trans (ih _)

theorem run_balanced (events : List Event) (h : session.editor.Balanced) :
    (session.run events).editor.Balanced := by
  induction events generalizing session with
  | nil => exact h
  | cons event rest ih => exact ih ((session.step_happens event).publishes.balanced h)

theorem notifications_run_le (session : Session) (events : List Event) :
    (session.run events).editor.notifications ≤ session.editor.notifications + events.length := by
  induction events generalizing session with
  | nil => exact Nat.le_refl _
  | cons event rest ih =>
    have hcount := (session.step_happens event).publishes.counts.notifications
    have hrest := ih (session.step event).1
    have hstep :
        (session.step event).1.editor.notifications ≤ session.editor.notifications + 1 := by
      rw [hcount]
      split <;> omega
    calc ((session.step event).1.run rest).editor.notifications
        ≤ (session.step event).1.editor.notifications + rest.length := hrest
      _ ≤ session.editor.notifications + (event :: rest).length := by
        rw [List.length_cons]
        omega

/-- A document that equals the one that is held changes nothing that is published. If it is read, it
is read as definitions that equal those that are held. -/
theorem Happens.quiet {connection : Connection} {representation : Representation}
    {document : Value} (h : session.Happens event session' answer)
    (hcoherent : session.editor.snapshot.Coherent connection representation)
    (hdocument : event.document = some document)
    (hequal : Equals session.editor.snapshot.definitions.raw document) :
    session.editor.Quiet session'.editor := by
  have hrepresents : session.editor.representation = representation := hcoherent.represents
  obtain ⟨definitions, hparse, hsame⟩ := Definitions.parse_of_equal hequal hcoherent.reread
  cases h with
  | rejected | started | unknown | failed | abandoned => exact ⟨rfl, rfl⟩
  | assigned hread =>
    cases hdocument
    rw [hrepresents, hparse] at hread
    cases hread
    have hquiet := session.editor.takeTicket.commit_quiet hsame (session.editor.issued + 1)
    exact ⟨hquiet.snapshot, hquiet.notifications⟩
  | finished hload hread =>
    obtain ⟨fetched, rfl, hfetched⟩ := Definitions.ofFetched_eq_ok_iff.mp hread
    cases hdocument
    rw [hrepresents, hparse] at hfetched
    cases hfetched
    exact Editor.commit_quiet hsame _
  | exchanged hworkflow =>
    rw [Event.document_of_workflow hworkflow] at hdocument
    cases hdocument

theorem Happens.eq_of_equal_workflow {document : Option Value}
    (h : session.Happens event session' answer) (hworkflow : event.workflow = some document)
    (hequal : Equals session.editor.snapshot.workflow document) : session' = session := by
  obtain ⟨-, rfl⟩ := h.of_workflow hworkflow
  rw [Editor.setWorkflow, if_pos hequal]

end Session

/-- Revisions and notifications count changes exactly. Of every run from an editor with nothing in
it: one more event raises a revision exactly if it changes what the revision belongs to, and never
both; all notifications so far are accounted for by the two revisions, and no counter is greater
than the number of events; at any later moment, what has the same revision is the very same; and
what equals the contents of the editor changes nothing if it comes again, while it is taken like
anything else. -/
theorem revisions_count_changes (connection : Connection) (representation : Representation)
    (events : List Event) :
    let session := (Session.start (.start connection representation)).run events
    let s := session.editor.snapshot
    (∀ event, session.editor.Counts (session.step event).1.editor) ∧
    s.definitionsRevision + s.workflowRevision = session.editor.notifications ∧
    (session.editor.notifications ≤ events.length ∧ session.editor.issued ≤ events.length ∧
      session.editor.committed ≤ events.length) ∧
    (∀ more,
      let later := (session.run more).editor
      let t := later.snapshot
      (t.definitionsRevision = s.definitionsRevision → t.definitions = s.definitions) ∧
      (t.workflowRevision = s.workflowRevision → t.workflow = s.workflow) ∧
      ((Subscriber.subscribe session.editor).hasChanged later = true ↔ t ≠ s)) ∧
    (∀ event document, event.workflow = some document → Equals s.workflow document →
      (session.step event).1 = session) ∧
    (∀ event document, event.document = some document → Equals s.definitions.raw document →
      session.editor.Quiet (session.step event).1.editor) ∧
    (∀ document, Equals s.definitions.raw document →
      (session.step (.assign document)).2.1 = .assigned (.ok ())) ∧
    ∀ position id document, Underway events position id → Equals s.definitions.raw document →
      ∃ outcome, (session.step (.finish id (.ok document))).2.1 = .loaded (.ok outcome) ∧
        (outcome = .applied ↔ ¬ ∃ later accepted,
          position < later ∧ Accepted representation events later accepted) := by
  intro session s
  have hordered := Ordered.run connection representation events
  have hcoherent : s.Coherent connection representation :=
    Session.run_coherent_from events (.initial connection representation)
  have hbalanced : session.editor.Balanced := Session.run_balanced events rfl
  refine ⟨?_, hbalanced, ?_, ?_, ?_, ?_, ?_, ?_⟩
  · intro event
    exact (session.step_happens event).publishes.counts
  · have hnotifications : session.editor.notifications ≤ 0 + events.length :=
      Session.notifications_run_le _ events
    have hcalls : events.countP Event.calls ≤ events.length := List.countP_le_length
    obtain ⟨hissued, hcommitted⟩ := hordered.counters_le
    rw [Nat.zero_add] at hnotifications
    exact ⟨hnotifications, hissued ▸ hcalls, Nat.le_trans hcommitted hcalls⟩
  · intro more later t
    have hprecedes : s.Precedes t := session.run_precedes more
    have hlater : later.Balanced := Session.run_balanced more hbalanced
    exact ⟨hprecedes.definitions, hprecedes.workflow, hbalanced.hasChanged_iff hlater hprecedes⟩
  · intro event document hworkflow hequal
    exact (session.step_happens event).eq_of_equal_workflow hworkflow hequal
  · intro event document hdocument hequal
    exact (session.step_happens event).quiet hcoherent hdocument hequal
  · intro document hequal
    obtain ⟨definitions, hparse, -⟩ := Definitions.parse_of_equal hequal hcoherent.reread
    rw [← hcoherent.represents] at hparse
    exact congrArg Answer.assigned (Editor.assign_of_ok hparse).2
  · intro position id document hunderway hequal
    obtain ⟨definitions, hparse, -⟩ := Definitions.parse_of_equal hequal hcoherent.reread
    exact hordered.finish hunderway hparse

/-- A null workflow in place of none is a change, although it is not seen from the other side. -/
example :
    let session := Session.start (.start ⟨"http://backend", "token"⟩ .catalog)
    let next := (session.step (.push (some .null))).1
    next.editor.notifications = 1 ∧
      next.editor.snapshot.toWire = session.editor.snapshot.toWire := by
  intro session next
  exact ⟨rfl, rfl⟩

end FlowContract
