import FlowContract.Proofs.Editor.Steps

/-!
Operations that come to nothing. A run is compared with the one in which they are left out: they
take tickets all the same, so that what is left bears other tickets there, but in the same order.
-/

namespace FlowContract

/-- Whether an answer says that definitions were taken from a load. -/
def Answer.isApplied : Answer → Bool
  | .loaded (.ok .applied) => true
  | _ => false

/-- Whether an answer says that an operation came to nothing. -/
def Answer.isVoid : Answer → Bool
  | .assigned (.error _) | .loaded (.error _) | .loaded (.ok .superseded) | .known true => true
  | _ => false

@[simp] theorem Answer.isVoid_known (isKnown : Bool) : (Answer.known isKnown).isVoid = isKnown := by
  cases isKnown <;> rfl

/-- What is seen of one step: the event, its answer, and what is published after it. -/
structure Observation where
  event : Event
  answer : Answer
  snapshot : Snapshot

/-- What is seen of a run. -/
def Session.trace (session : Session) : List Event → List Observation
  | [] => []
  | event :: rest =>
    ⟨event, (session.step event).2.1, (session.step event).1.editor.snapshot⟩ ::
      (session.step event).1.trace rest

/-- Whether the load that is under way under a name is applied in what remains of a run: the first
event that ends it finishes it, and its definitions are taken. -/
def appliedIn (id : String) : List Observation → Bool
  | [] => false
  | seen :: rest => if seen.event.ends id then seen.answer.isApplied else appliedIn id rest

/-- Whether a step belongs to an operation that comes to something. Of a load this shows only later.
-/
def Observation.lasts (seen : Observation) (rest : List Observation) : Bool :=
  match seen.event.starts with
  | some id => appliedIn id rest
  | none => !seen.answer.isVoid

/-- The steps of a run without those of operations that come to nothing. -/
def lasting : List Observation → List Observation
  | [] => []
  | seen :: rest => if seen.lasts rest then seen :: lasting rest else lasting rest

namespace Session

variable {session session' : Session} {event : Event} {answer : Answer}

/-- An operation that comes to nothing changes nothing, and neither does the start of a load. -/
theorem Happens.of_void (h : Happens session event session' answer)
    (hvoid : event.starts.isSome ∨ answer.isVoid = true) :
    session'.editor.snapshot = session.editor.snapshot ∧
      session'.editor.committed = session.editor.committed := by
  cases h with
  | rejected | started | unknown | failed | abandoned => exact ⟨rfl, rfl⟩
  | assigned => simp [Event.starts, Answer.isVoid] at hvoid
  | @finished _ _ load definitions hload hread =>
    rcases Nat.lt_or_ge session.editor.committed load.ticket with hlt | hge
    · simp [Event.starts, Answer.isVoid, Editor.commit_of_lt hlt] at hvoid
    · rw [Editor.commit_of_le hge]
      exact ⟨rfl, rfl⟩
  | exchanged hworkflow =>
    simp [Event.starts_of_workflow hworkflow, Answer.isVoid] at hvoid

/-- No ticket is in use that has not been issued. -/
structure Bounded (session : Session) : Prop where
  committed : session.editor.committed ≤ session.editor.issued
  pending : ∀ id ticket, session.ticket? id = some ticket → ticket ≤ session.editor.issued

theorem Bounded.start (connection : Connection) (representation : Representation) :
    (Session.start (.start connection representation)).Bounded where
  committed := Nat.le_refl 0
  pending id ticket h := by cases h

theorem Happens.committed_le (h : Happens session event session' answer)
    (hbounded : session.Bounded) : session'.editor.committed ≤ session'.editor.issued := by
  have hcommitted := hbounded.committed
  have hissued := h.issued
  cases h with
  | rejected | started => exact Nat.le_succ_of_le hcommitted
  | unknown | failed | abandoned => exact hcommitted
  | assigned hparse =>
    have hlt : session.editor.takeTicket.committed < session.editor.issued + 1 :=
      Nat.lt_succ_of_le hcommitted
    simp [Editor.commit_of_lt hlt]
  | @finished _ _ load definitions hload hread =>
    have hticket := hbounded.pending _ _ (ticket?_of_find? hload)
    rcases Nat.lt_or_ge session.editor.committed load.ticket with hlt | hge
    · simpa [Editor.commit_of_lt hlt] using hticket
    · simpa [Editor.commit_of_le hge] using hcommitted
  | exchanged hworkflow => simpa using hcommitted

theorem Happens.bounded (h : Happens session event session' answer) (hbounded : session.Bounded) :
    session'.Bounded where
  committed := h.committed_le hbounded
  pending id ticket hticket := by
    have hissued := h.issued
    rw [h.ticket?] at hticket
    split at hticket
    · rename_i hstarts
      cases hticket
      simp [hissued, Event.calls_of_starts hstarts]
    · split at hticket
      · cases hticket
      · have hle := hbounded.pending id ticket hticket
        omega

theorem Happens.answer_of_starts {id : String} (h : Happens session event session' answer)
    (hstarts : event.starts = some id) : answer = .done := by
  cases h with
  | started | exchanged => rfl
  | _ => cases hstarts

theorem Happens.of_workflow {document : Option Json.Value}
    (h : Happens session event session' answer) (hworkflow : event.workflow = some document) :
    answer = .done ∧ session' = ⟨session.editor.setWorkflow document, session.pending⟩ := by
  cases h with
  | exchanged hdocument =>
    rw [hworkflow] at hdocument
    cases hdocument
    exact ⟨rfl, rfl⟩
  | started url hstarts =>
    rw [Event.starts_of_workflow hworkflow] at hstarts
    cases hstarts
  | _ => cases hworkflow

/-- What does not know a load that it is about does nothing. -/
theorem Happens.of_unused {id : String} (h : Happens session event session' answer)
    (hstarts : event.starts = none) (hends : event.ends id = true)
    (hunused : session.ticket? id = none) :
    answer = .known false ∧ session'.editor = session.editor := by
  cases h with
  | rejected | assigned => cases hends
  | started url hname =>
    rw [hstarts] at hname
    cases hname
  | unknown => exact ⟨rfl, rfl⟩
  | failed hload | finished hload =>
    rw [← eq_of_beq hends, ticket?_of_find? hload] at hunused
    cases hunused
  | @abandoned name =>
    have hcontains : session.pending.contains name = false := by
      rw [← isSome_ticket?, eq_of_beq hends, hunused]
      rfl
    rw [hcontains]
    exact ⟨rfl, rfl⟩
  | exchanged hworkflow =>
    rw [Event.ends_of_workflow hworkflow] at hends
    cases hends

/-- A load that is under way under one name in two sessions, with its ticket in each. -/
structure Shares (session other : Session) (id : String) (ticket ticket' : Nat) : Prop where
  left : session.ticket? id = some ticket
  right : other.ticket? id = some ticket'

/-- One session follows another one from which the same steps remain, but which has seen more. It
shows the same; under way in it are the loads that will be applied, in the order that they have in
the other one, and it takes whatever the other one takes. -/
structure Follows (rest : List Observation) (session other : Session) : Prop where
  snapshot : other.editor.snapshot = session.editor.snapshot
  bounded : session.Bounded
  bounded' : other.Bounded
  pending : ∀ id,
    (other.ticket? id).isSome = ((session.ticket? id).isSome && appliedIn id rest)
  takes : ∀ id ticket ticket', Shares session other id ticket ticket' →
    session.editor.committed < ticket → other.editor.committed < ticket'
  order : ∀ id ticket ticket' later laterTicket laterTicket',
    Shares session other id ticket ticket' → Shares session other later laterTicket laterTicket' →
    ticket < laterTicket → ticket' < laterTicket'

/-- How far two sessions get with what they have taken when both take a step: no further, or as far
as a load that both have under way, or past everything that the first one has under way. -/
inductive Advances (session session' other other' : Session) : Prop where
  | stays (h : session'.editor.committed = session.editor.committed)
      (h' : other'.editor.committed = other.editor.committed)
  | serves {id : String} {ticket ticket' : Nat} (hshares : Shares session other id ticket ticket')
      (h : session'.editor.committed = ticket) (h' : other'.editor.committed = ticket')
  | overtakes (h : session.editor.issued < session'.editor.committed)

section Follows

variable {rest : List Observation} {other other' : Session} {answer' : Answer}

theorem Follows.representation (h : Follows rest session other) :
    other.editor.representation = session.editor.representation :=
  congrArg Snapshot.representation h.snapshot

/-- An assignment is called last in both sessions. -/
theorem Follows.assigned {document : Json.Value} {definitions : Definitions}
    (h : Follows rest session other)
    (hparse : Definitions.parse session.editor.representation document = .ok definitions)
    (hother : Happens other (.assign document) other' answer') :
    let editor := (session.editor.takeTicket.commit (session.editor.issued + 1) definitions).1
    answer' = .assigned (.ok ()) ∧ other'.editor.snapshot = editor.snapshot ∧
      Advances session ⟨editor, session.pending⟩ other other' := by
  have hlt : session.editor.takeTicket.committed < session.editor.issued + 1 :=
    Nat.lt_succ_of_le h.bounded.committed
  have hlt' : other.editor.takeTicket.committed < other.editor.issued + 1 :=
    Nat.lt_succ_of_le h.bounded'.committed
  cases hother with
  | rejected hparse' =>
    rw [h.representation, hparse] at hparse'
    cases hparse'
  | assigned hparse' =>
    rw [h.representation, hparse] at hparse'
    cases hparse'
    rw [Editor.commit_of_lt hlt, Editor.commit_of_lt hlt']
    refine ⟨rfl, Editor.hold_snapshot_congr h.snapshot, .overtakes ?_⟩
    simp
  | started url hstarts => cases hstarts
  | exchanged hworkflow => cases hworkflow

/-- A load that is applied in one session is under way in the one that follows, and applied there.
-/
theorem Follows.finished {id : String} {fetched : Except LoadError Json.Value} {load : PendingLoad}
    {definitions : Definitions} {snapshot : Snapshot}
    (h : Follows (⟨.finish id fetched, .loaded (.ok .applied), snapshot⟩ :: rest) session other)
    (hload : session.pending.find? id = some load)
    (hread : Definitions.ofFetched session.editor.representation fetched = .ok definitions)
    (hlt : session.editor.committed < load.ticket)
    (hother : Happens other (.finish id fetched) other' answer') :
    let editor := (session.editor.commit load.ticket definitions).1
    answer' = .loaded (.ok .applied) ∧ other'.editor.snapshot = editor.snapshot ∧
      Advances session ⟨editor, session.pending.erase id⟩ other other' := by
  have hticket := ticket?_of_find? hload
  cases hother with
  | unknown hnone =>
    have hpending := h.pending id
    simp [ticket?_of_find?_none hnone, hticket, appliedIn, Event.ends, Answer.isApplied] at hpending
  | failed hload' hread' =>
    rw [h.representation, hread] at hread'
    cases hread'
  | @finished _ _ load' _ hload' hread' =>
    rw [h.representation, hread] at hread'
    cases hread'
    have hshares : Shares session other id load.ticket load'.ticket :=
      ⟨hticket, ticket?_of_find? hload'⟩
    have hlt' := h.takes id _ _ hshares hlt
    rw [Editor.commit_of_lt hlt, Editor.commit_of_lt hlt']
    refine ⟨rfl, Editor.hold_snapshot_congr h.snapshot, .serves hshares ?_ ?_⟩
    · simp
    · simp
  | started url hstarts => cases hstarts
  | exchanged hworkflow => cases hworkflow

/-- A name that is not in use in one session is not in use in the one that follows. -/
theorem Follows.unused {id : String} (h : Follows rest session other)
    (hnone : session.ticket? id = none) : other.ticket? id = none := by
  have hpending := h.pending id
  rw [hnone] at hpending
  simpa using hpending

/-- A step that lasts is taken by both sessions alike. -/
theorem Follows.alike
    (h : Follows (⟨event, answer, session'.editor.snapshot⟩ :: rest) session other)
    (hstep : Happens session event session' answer)
    (hother : Happens other event other' answer')
    (hlasts : Observation.lasts ⟨event, answer, session'.editor.snapshot⟩ rest = true) :
    answer' = answer ∧ other'.editor.snapshot = session'.editor.snapshot ∧
      Advances session session' other other' := by
  cases hstep with
  | rejected | failed => simp [Observation.lasts, Event.starts, Answer.isVoid] at hlasts
  | assigned hparse => exact h.assigned hparse hother
  | started url hstarts =>
    -- The other session may start the load with another ticket; all that is shown is that it did.
    have hvoid := hother.of_void (.inl (by rw [hstarts]; rfl))
    exact ⟨hother.answer_of_starts hstarts, hvoid.1.trans h.snapshot, .stays rfl hvoid.2⟩
  | unknown hnone =>
    have hunused := h.unused (ticket?_of_find?_none hnone)
    obtain ⟨hanswer, heditor⟩ := hother.of_unused rfl (by simp [Event.ends]) hunused
    rw [heditor]
    exact ⟨hanswer, h.snapshot, .stays rfl (by rw [heditor])⟩
  | @finished _ _ load definitions hload hread =>
    -- A load that is superseded does not last, so that it is applied here.
    rcases Nat.lt_or_ge session.editor.committed load.ticket with hlt | hge
    · rw [Editor.commit_applied_iff.mpr hlt] at h ⊢
      exact h.finished hload hread hlt hother
    · simp [Observation.lasts, Event.starts, Answer.isVoid, Editor.commit_of_le hge] at hlasts
  | @abandoned id =>
    have hcontains : session.pending.contains id = false := by
      simpa [Observation.lasts, Event.starts] using hlasts
    have hunused : session.ticket? id = none := by
      rw [← isSome_ticket?] at hcontains
      simpa using hcontains
    obtain ⟨hanswer, heditor⟩ :=
      hother.of_unused rfl (by simp [Event.ends]) (h.unused hunused)
    rw [heditor, hcontains]
    exact ⟨hanswer, h.snapshot, .stays rfl (by rw [heditor])⟩
  | exchanged hworkflow =>
    obtain ⟨hanswer, rfl⟩ := hother.of_workflow hworkflow
    exact ⟨hanswer, Editor.setWorkflow_snapshot_congr h.snapshot _, .stays (by simp) (by simp)⟩

/-- A load that both have under way after the same step was started by it, or was there before. -/
theorem Shares.of_step {id : String} {ticket ticket' : Nat}
    (h : Shares session' other' id ticket ticket') (hstep : Happens session event session' answer)
    (hother : Happens other event other' answer') :
    (ticket = session.editor.issued + 1 ∧ ticket' = other.editor.issued + 1) ∨
      Shares session other id ticket ticket' := by
  obtain ⟨hleft, hright⟩ := h
  rw [hstep.ticket?] at hleft
  rw [hother.ticket?] at hright
  by_cases hstarts : event.starts = some id
  · rw [if_pos hstarts] at hleft hright
    exact .inl ⟨(Option.some.inj hleft).symm, (Option.some.inj hright).symm⟩
  · rw [if_neg hstarts] at hleft hright
    by_cases hends : event.ends id = true
    · rw [if_pos hends] at hleft
      cases hleft
    · rw [if_neg hends] at hleft hright
      exact .inr ⟨hleft, hright⟩

/-- What both have under way after the same step is in the same order in both. -/
theorem Follows.order_of_step {id later : String}
    {ticket ticket' laterTicket laterTicket' : Nat} (h : Follows rest session other)
    (hstep : Happens session event session' answer) (hother : Happens other event other' answer')
    (hshares : Shares session' other' id ticket ticket')
    (hlater : Shares session' other' later laterTicket laterTicket') (hlt : ticket < laterTicket) :
    ticket' < laterTicket' := by
  rcases hshares.of_step hstep hother with ⟨hticket, hticket'⟩ | hbefore
  · rcases hlater.of_step hstep hother with ⟨hnew, hnew'⟩ | hlater
    · omega
    · have hle := h.bounded.pending _ _ hlater.left
      omega
  · rcases hlater.of_step hstep hother with ⟨hnew, hnew'⟩ | hlater
    · have hle := h.bounded'.pending _ _ hbefore.right
      omega
    · exact h.order id ticket ticket' later laterTicket laterTicket' hbefore hlater hlt

/-- What has been served in one session may have overtaken less in the one that follows, and never
more. -/
theorem Follows.takes_of_step {id : String} {ticket ticket' : Nat} (h : Follows rest session other)
    (hstep : Happens session event session' answer) (hother : Happens other event other' answer')
    (hadvances : Advances session session' other other')
    (hshares : Shares session' other' id ticket ticket')
    (hlt : session'.editor.committed < ticket) : other'.editor.committed < ticket' := by
  have hcommitted := h.bounded'.committed
  rcases hshares.of_step hstep hother with ⟨hticket, hticket'⟩ | hbefore
  · cases hadvances with
    | stays hsame hsame' => omega
    | serves hserved hsame hsame' =>
      have hle := h.bounded'.pending _ _ hserved.right
      omega
    | overtakes hover => omega
  · cases hadvances with
    | stays hsame hsame' =>
      rw [hsame] at hlt
      rw [hsame']
      exact h.takes id ticket ticket' hbefore hlt
    | serves hserved hsame hsame' =>
      rw [hsame] at hlt
      rw [hsame']
      exact h.order _ _ _ id ticket ticket' hserved hbefore hlt
    | overtakes hover =>
      have hle := h.bounded.pending _ _ hbefore.left
      omega

/-- Both sessions go on alike after a step that lasts. -/
theorem Follows.kept
    (h : Follows (⟨event, answer, session'.editor.snapshot⟩ :: rest) session other)
    (hstep : Happens session event session' answer)
    (hother : Happens other event other' answer')
    (hlasts : Observation.lasts ⟨event, answer, session'.editor.snapshot⟩ rest = true) :
    Follows rest session' other' := by
  obtain ⟨-, hsnapshot, hadvances⟩ := h.alike hstep hother hlasts
  refine ⟨hsnapshot, hstep.bounded h.bounded, hother.bounded h.bounded', ?_, ?_, ?_⟩
  · intro id
    rw [hstep.ticket?, hother.ticket?]
    by_cases hstarts : event.starts = some id
    · have happlied : appliedIn id rest = true := by
        simpa [Observation.lasts, hstarts] using hlasts
      simp [hstarts, happlied]
    · by_cases hends : event.ends id = true
      · simp [hstarts, hends]
      · have hpending := h.pending id
        simpa [hstarts, hends, appliedIn] using hpending
  · intro id ticket ticket' hshares hlt
    exact h.takes_of_step hstep hother hadvances hshares hlt
  · intro id ticket ticket' later laterTicket laterTicket' hshares hlater hlt
    exact h.order_of_step hstep hother hshares hlater hlt

theorem Happens.not_lasts {snapshot : Snapshot} (h : Happens session event session' answer)
    (hlasts : Observation.lasts ⟨event, answer, snapshot⟩ rest = false) :
    (event.starts.isSome ∨ answer.isVoid = true) ∧ answer.isApplied = false := by
  cases hstarts : event.starts with
  | some id =>
    rw [h.answer_of_starts hstarts]
    exact ⟨.inl rfl, rfl⟩
  | none =>
    have hvoid : answer.isVoid = true := by simpa [Observation.lasts, hstarts] using hlasts
    refine ⟨.inr hvoid, ?_⟩
    unfold Answer.isApplied
    split
    · cases hvoid
    · rfl

/-- A session is still followed if it takes a step that does not last and the other one does not. -/
theorem Follows.skipped
    (h : Follows (⟨event, answer, session'.editor.snapshot⟩ :: rest) session other)
    (hstep : Happens session event session' answer)
    (hlasts : Observation.lasts ⟨event, answer, session'.editor.snapshot⟩ rest = false) :
    Follows rest session' other := by
  obtain ⟨hvoid, happlied⟩ := hstep.not_lasts hlasts
  obtain ⟨hsnapshot, hcommitted⟩ := hstep.of_void hvoid
  have hended : ∀ id, event.ends id = true → other.ticket? id = none := by
    intro id hends
    have hpending := h.pending id
    simpa [appliedIn, hends, happlied] using hpending
  have hshares : ∀ id ticket ticket', Shares session' other id ticket ticket' →
      Shares session other id ticket ticket' := by
    intro id ticket ticket' hafter
    obtain ⟨hleft, hright⟩ := hafter
    have hends : ¬ event.ends id = true := by
      intro hends
      rw [hended id hends] at hright
      cases hright
    have hstarts : ¬ event.starts = some id := by
      intro hstarts
      exact hends (by simp [Event.ends_of_starts hstarts])
    rw [hstep.ticket?, if_neg hstarts, if_neg hends] at hleft
    exact ⟨hleft, hright⟩
  refine ⟨h.snapshot.trans hsnapshot.symm, hstep.bounded h.bounded, h.bounded', ?_, ?_, ?_⟩
  · intro id
    rw [hstep.ticket?]
    by_cases hstarts : event.starts = some id
    · have hends : event.ends id = true := by simp [Event.ends_of_starts hstarts]
      have hnever : appliedIn id rest = false := by simpa [Observation.lasts, hstarts] using hlasts
      simp [hended id hends, hnever]
    · by_cases hends : event.ends id = true
      · simp [hended id hends, hstarts, hends]
      · have hpending := h.pending id
        simpa [hstarts, hends, appliedIn] using hpending
  · intro id ticket ticket' hafter hlt
    exact h.takes id ticket ticket' (hshares _ _ _ hafter) (hcommitted ▸ hlt)
  · intro id ticket ticket' later laterTicket laterTicket' hafter hlater
    exact h.order id ticket ticket' later laterTicket laterTicket' (hshares _ _ _ hafter)
      (hshares _ _ _ hlater)

/-- A session from which the steps that come to nothing are left out shows what is left of the other
one, and ends where the other one ends. -/
theorem Follows.trace (events : List Event) (h : Follows (session.trace events) session other) :
    other.trace ((lasting (session.trace events)).map Observation.event) =
        lasting (session.trace events) ∧
      (other.run ((lasting (session.trace events)).map Observation.event)).editor.snapshot =
        (session.run events).editor.snapshot := by
  -- Which steps are left out is decided by what comes after them, so that the induction has to be
  -- on what remains of the run, with both sessions as they are by then.
  induction events generalizing session other with
  | nil => exact ⟨rfl, h.snapshot⟩
  | cons event events ih =>
    have hstep := session.step_happens event
    have hother := other.step_happens event
    simp only [Session.trace] at h ⊢
    rw [lasting]
    cases hlasts : Observation.lasts ⟨event, (session.step event).2.1,
        (session.step event).1.editor.snapshot⟩ ((session.step event).1.trace events) with
    | true =>
      obtain ⟨hanswer, hsnapshot, -⟩ := h.alike hstep hother hlasts
      obtain ⟨htrace, hrun⟩ := ih (h.kept hstep hother hlasts)
      constructor
      · simp [Session.trace, hanswer, hsnapshot, htrace]
      · exact hrun
    | false =>
      obtain ⟨htrace, hrun⟩ := ih (h.skipped hstep hlasts)
      exact ⟨htrace, hrun⟩

end Follows

/-- What a load comes to depends on its ticket, on the greatest one served, and on what is held. -/
theorem step_finish_congr {other : Session} {id : String}
    (hsnapshot : other.editor.snapshot = session.editor.snapshot)
    (hcommitted : other.editor.committed = session.editor.committed)
    (hticket : other.ticket? id = session.ticket? id) (fetched : Except LoadError Json.Value) :
    (other.step (.finish id fetched)).2.1 = (session.step (.finish id fetched)).2.1 ∧
      (other.step (.finish id fetched)).1.editor.snapshot =
        (session.step (.finish id fetched)).1.editor.snapshot := by
  have hrepresentation : other.editor.representation = session.editor.representation :=
    congrArg Snapshot.representation hsnapshot
  cases hsession : session.ticket? id with
  | none =>
    rw [hsession] at hticket
    have hstep := session.step_happens (.finish id fetched)
    have hother := other.step_happens (.finish id fetched)
    obtain ⟨hanswer, heditor⟩ := hstep.of_unused rfl (by simp [Event.ends]) hsession
    obtain ⟨hanswer', heditor'⟩ := hother.of_unused rfl (by simp [Event.ends]) hticket
    rw [hanswer, hanswer', heditor, heditor']
    exact ⟨rfl, hsnapshot⟩
  | some ticket =>
    rw [hsession] at hticket
    obtain ⟨load, hload, rfl⟩ := Option.map_eq_some_iff.mp hsession
    obtain ⟨load', hload', hsame⟩ := Option.map_eq_some_iff.mp hticket
    simp only [step, hload, hload']
    cases hread : Definitions.ofFetched session.editor.representation fetched with
    | error error =>
      have hread' := hrepresentation ▸ hread
      obtain ⟨heditor, hresult⟩ := Editor.finishLoad_of_error load hread
      obtain ⟨heditor', hresult'⟩ := Editor.finishLoad_of_error load' hread'
      rw [heditor, hresult, heditor', hresult']
      exact ⟨rfl, hsnapshot⟩
    | ok definitions =>
      have hread' := hrepresentation ▸ hread
      obtain ⟨heditor, hresult⟩ := Editor.finishLoad_of_ok load hread
      obtain ⟨heditor', hresult'⟩ := Editor.finishLoad_of_ok load' hread'
      obtain ⟨houtcome, hafter⟩ :=
        Editor.commit_congr hsnapshot hcommitted load.ticket definitions
      rw [heditor, hresult, heditor', hresult', hsame, houtcome]
      exact ⟨rfl, hafter⟩

theorem Follows.start (connection : Connection) (representation : Representation)
    (rest : List Observation) :
    Follows rest (.start (.start connection representation))
      (.start (.start connection representation)) where
  snapshot := rfl
  bounded := .start connection representation
  bounded' := .start connection representation
  pending id := rfl
  takes id ticket ticket' h := by cases h.left
  order id ticket ticket' later laterTicket laterTicket' h := by cases h.left

end Session

/-- Operations that come to nothing are invisible. No step of theirs changes what is published, nor
what a load comes to that is under way; and a run without them shows the same answers and the same
snapshots in every step that is left, and publishes the same in the end. -/
theorem void_operations_are_invisible (connection : Connection) (representation : Representation)
    (events : List Event) :
    let initial := Session.start (.start connection representation)
    let session := initial.run events
    let trace := initial.trace events
    (∀ event, event.starts.isSome ∨ (session.step event).2.1.isVoid = true →
      let next := (session.step event).1
      next.editor.snapshot = session.editor.snapshot ∧
      ∀ id fetched, event.ends id = false →
        (next.step (.finish id fetched)).2.1 = (session.step (.finish id fetched)).2.1 ∧
        (next.step (.finish id fetched)).1.editor.snapshot =
          (session.step (.finish id fetched)).1.editor.snapshot) ∧
    initial.trace ((lasting trace).map Observation.event) = lasting trace ∧
    (initial.run ((lasting trace).map Observation.event)).editor.snapshot =
      session.editor.snapshot := by
  intro initial session trace
  refine ⟨?_, (Session.Follows.start connection representation trace).trace events⟩
  intro event hvoid next
  have hstep := session.step_happens event
  obtain ⟨hsnapshot, hcommitted⟩ := hstep.of_void hvoid
  refine ⟨hsnapshot, fun id fetched hends => ?_⟩
  have hstarts : ¬ event.starts = some id := by
    intro hstarts
    simp [Event.ends_of_starts hstarts] at hends
  have hticket : next.ticket? id = session.ticket? id := by
    rw [hstep.ticket?, if_neg hstarts, hends]
    rfl
  exact Session.step_finish_congr hsnapshot hcommitted hticket fetched

end FlowContract
