import FlowContract.Proofs.Editor.Steps
import Mathlib.Data.List.Induction

/-!
The order of loads. What is said here about a run is said by positions in it: where an operation was
called, and which operations have brought definitions since. Main statement: the operation called
last among those that have brought definitions is the one whose definitions are held, in whatever
order loads are finished, given up or forgotten.
-/

namespace FlowContract

open Json (Value)

/-- The load called at a position of a run is still under way under a name when the run ends. -/
structure Underway (events : List Event) (position : Nat) (id : String) : Prop where
  started : ∃ event, events[position]? = some event ∧ event.starts = some id
  lasting : ∀ later event, position < later → events[later]? = some event →
    event.ends id = false

/-- The operation called at a position of a run has brought definitions by the end of the run. -/
inductive Accepted (representation : Representation) (events : List Event) :
    Nat → Definitions → Prop where
  | assigned {position : Nat} {document : Value} {definitions : Definitions}
      (hcall : events[position]? = some (.assign document))
      (hparse : Definitions.parse representation document = .ok definitions) :
      Accepted representation events position definitions
  | loaded {position completion : Nat} {id : String} {document : Value}
      {definitions : Definitions} (hcall : Underway (events.take completion) position id)
      (hfinish : events[completion]? = some (.finish id (.ok document)))
      (hparse : Definitions.parse representation document = .ok definitions) :
      Accepted representation events position definitions

/-- Of the operations that have brought definitions, the one called last. -/
structure Latest (representation : Representation) (events : List Event) (position : Nat)
    (definitions : Definitions) : Prop where
  accepted : Accepted representation events position definitions
  last : ∀ other definitions', Accepted representation events other definitions' →
    other ≤ position

/-- The number of calls in a run up to a position, which is the ticket of a call made there. -/
def ticketAt (events : List Event) (position : Nat) : Nat :=
  (events.take (position + 1)).countP Event.calls

theorem getElem?_concat {α : Type} {l : List α} {last a : α} {position : Nat} :
    (l ++ [last])[position]? = some a ↔
      l[position]? = some a ∨ (position = l.length ∧ last = a) := by
  rcases Nat.lt_trichotomy position l.length with h | h | h
  · rw [List.getElem?_append_left h]
    simp [Nat.ne_of_lt h]
  · subst h
    simp
  · rw [List.getElem?_eq_none (by simp; omega), List.getElem?_eq_none (Nat.le_of_lt h)]
    simp [Nat.ne_of_gt h]

theorem Underway.lt_length {events : List Event} {position : Nat} {id : String}
    (h : Underway events position id) : position < events.length := by
  obtain ⟨event, hevent, -⟩ := h.started
  exact (List.getElem?_eq_some_iff.mp hevent).1

theorem Underway.not_lt {events : List Event} {position other : Nat} {id : String}
    (h : Underway events position id) (hother : Underway events other id) : ¬ position < other := by
  intro hlt
  obtain ⟨event, hevent, hstarts⟩ := hother.started
  have hends := h.lasting other event hlt hevent
  simp [Event.ends_of_starts hstarts] at hends

/-- A name is that of one load at a time. -/
theorem Underway.unique {events : List Event} {position other : Nat} {id : String}
    (h : Underway events position id) (hother : Underway events other id) : position = other := by
  have hle := h.not_lt hother
  have hge := hother.not_lt h
  omega

/-- One more event starts a load, or ends one, or leaves those under way alone. -/
theorem underway_concat {events : List Event} {event : Event} {position : Nat} {id : String} :
    Underway (events ++ [event]) position id ↔
      (Underway events position id ∧ event.ends id = false) ∨
        (position = events.length ∧ event.starts = some id) := by
  constructor
  · intro h
    obtain ⟨call, hcall, hstarts⟩ := h.started
    rcases getElem?_concat.mp hcall with hcall | ⟨hposition, rfl⟩
    · have hlt := (List.getElem?_eq_some_iff.mp hcall).1
      refine .inl ⟨⟨⟨call, hcall, hstarts⟩, ?_⟩, ?_⟩
      · intro later other hlater hother
        exact h.lasting later other hlater (getElem?_concat.mpr (.inl hother))
      · exact h.lasting events.length event hlt (getElem?_concat.mpr (.inr ⟨rfl, rfl⟩))
    · exact .inr ⟨hposition, hstarts⟩
  · rintro (⟨h, hends⟩ | ⟨rfl, hstarts⟩)
    · obtain ⟨call, hcall, hstarts⟩ := h.started
      refine ⟨⟨call, getElem?_concat.mpr (.inl hcall), hstarts⟩, ?_⟩
      intro later other hlater hother
      rcases getElem?_concat.mp hother with hother | ⟨-, rfl⟩
      · exact h.lasting later other hlater hother
      · exact hends
    · refine ⟨⟨event, getElem?_concat.mpr (.inr ⟨rfl, rfl⟩), hstarts⟩, ?_⟩
      intro later other hlater hother
      rw [List.getElem?_eq_none (by simp; omega)] at hother
      cases hother

/-- One more event brings definitions by being an assignment, or by finishing a load. -/
theorem accepted_concat {representation : Representation} {events : List Event} {event : Event}
    {position : Nat} {definitions : Definitions} :
    Accepted representation (events ++ [event]) position definitions ↔
      Accepted representation events position definitions ∨
      (position = events.length ∧ ∃ document, event = .assign document ∧
        Definitions.parse representation document = .ok definitions) ∨
      (∃ id document, event = .finish id (.ok document) ∧ Underway events position id ∧
        Definitions.parse representation document = .ok definitions) := by
  constructor
  · rintro (⟨hcall, hparse⟩ | ⟨hcall, hfinish, hparse⟩)
    · rcases getElem?_concat.mp hcall with hcall | ⟨hposition, rfl⟩
      · exact .inl (.assigned hcall hparse)
      · exact .inr (.inl ⟨hposition, _, rfl, hparse⟩)
    · rename_i completion id document
      rcases getElem?_concat.mp hfinish with hfinish | ⟨rfl, rfl⟩
      · have hlt := (List.getElem?_eq_some_iff.mp hfinish).1
        rw [List.take_append_of_le_length (Nat.le_of_lt hlt)] at hcall
        exact .inl (.loaded hcall hfinish hparse)
      · rw [List.take_left] at hcall
        exact .inr (.inr ⟨id, document, rfl, hcall, hparse⟩)
  · rintro (h | ⟨rfl, document, rfl, hparse⟩ | ⟨id, document, rfl, hcall, hparse⟩)
    · cases h with
      | assigned hcall hparse => exact .assigned (getElem?_concat.mpr (.inl hcall)) hparse
      | loaded hcall hfinish hparse =>
        have hlt := (List.getElem?_eq_some_iff.mp hfinish).1
        refine .loaded ?_ (getElem?_concat.mpr (.inl hfinish)) hparse
        rw [List.take_append_of_le_length (Nat.le_of_lt hlt)]
        exact hcall
    · exact .assigned (getElem?_concat.mpr (.inr ⟨rfl, rfl⟩)) hparse
    · refine .loaded ?_ (getElem?_concat.mpr (.inr ⟨rfl, rfl⟩)) hparse
      rw [List.take_left]
      exact hcall

/-- What is under way or has brought definitions was called within the run. -/
theorem Underway.called {events : List Event} {position : Nat} {id : String}
    (h : Underway events position id) :
    ∃ event, events[position]? = some event ∧ event.calls = true := by
  obtain ⟨event, hevent, hstarts⟩ := h.started
  exact ⟨event, hevent, Event.calls_of_starts hstarts⟩

theorem Accepted.called {representation : Representation} {events : List Event} {position : Nat}
    {definitions : Definitions} (h : Accepted representation events position definitions) :
    ∃ event, events[position]? = some event ∧ event.calls = true := by
  cases h with
  | assigned hcall hparse => exact ⟨_, hcall, rfl⟩
  | loaded hcall hfinish hparse =>
    obtain ⟨event, hevent, hcalls⟩ := hcall.called
    refine ⟨event, ?_, hcalls⟩
    rw [List.getElem?_take] at hevent
    split at hevent
    · exact hevent
    · cases hevent

theorem Accepted.lt_length {representation : Representation} {events : List Event} {position : Nat}
    {definitions : Definitions} (h : Accepted representation events position definitions) :
    position < events.length := by
  obtain ⟨event, hevent, -⟩ := h.called
  exact (List.getElem?_eq_some_iff.mp hevent).1

/-- A load under way has brought nothing yet: its position is that of the start of a load, and
finishing that load would have ended it. -/
theorem Underway.not_accepted {representation : Representation} {events : List Event}
    {position : Nat} {id : String} {definitions : Definitions}
    (h : Underway events position id) :
    ¬ Accepted representation events position definitions := by
  intro haccepted
  obtain ⟨event, hevent, hstarts⟩ := h.started
  cases haccepted with
  | assigned hcall hparse =>
    rw [hcall] at hevent
    cases hevent
    cases hstarts
  | loaded hcall hfinish hparse =>
    rename_i completion name document
    have hlt := hcall.lt_length
    obtain ⟨call, hfirst, hname⟩ := hcall.started
    rw [List.length_take] at hlt
    rw [List.getElem?_take_of_lt (by omega), hevent] at hfirst
    cases hfirst
    rw [hstarts] at hname
    cases hname
    have hends := h.lasting completion _ (by omega) hfinish
    simp [Event.ends] at hends

/-- An operation brings definitions at most once. -/
theorem Accepted.unique {representation : Representation} {events : List Event} {position : Nat}
    {definitions definitions' : Definitions}
    (h : Accepted representation events position definitions)
    (h' : Accepted representation events position definitions') : definitions = definitions' := by
  induction events using List.reverseRecOn with
  | nil =>
    obtain ⟨event, hevent, -⟩ := h.called
    simp at hevent
  | append_singleton events event ih =>
    rcases accepted_concat.mp h with h | ⟨hposition, document, rfl, hparse⟩ |
        ⟨id, document, rfl, hunderway, hparse⟩
    · rcases accepted_concat.mp h' with h' | ⟨hposition, -⟩ | ⟨id, -, -, hunderway, -⟩
      · exact ih h h'
      · have hlt := h.lt_length
        omega
      · exact absurd h hunderway.not_accepted
    · rcases accepted_concat.mp h' with h' | ⟨-, document', hevent, hparse'⟩ | ⟨_, _, hevent, -⟩
      · have hlt := h'.lt_length
        omega
      · cases hevent
        exact Except.ok.inj (hparse.symm.trans hparse')
      · cases hevent
    · rcases accepted_concat.mp h' with h' | ⟨-, _, hevent, -⟩ | ⟨_, document', hevent, -, hparse'⟩
      · exact absurd h' hunderway.not_accepted
      · cases hevent
      · cases hevent
        exact Except.ok.inj (hparse.symm.trans hparse')

theorem Latest.unique {representation : Representation} {events : List Event}
    {position position' : Nat} {definitions definitions' : Definitions}
    (h : Latest representation events position definitions)
    (h' : Latest representation events position' definitions') : definitions = definitions' := by
  have hposition : position = position' :=
    Nat.le_antisymm (h'.last _ _ h.accepted) (h.last _ _ h'.accepted)
  subst hposition
  exact h.accepted.unique h'.accepted

theorem ticketAt_concat {events : List Event} (event : Event) {position : Nat}
    (h : position < events.length) :
    ticketAt (events ++ [event]) position = ticketAt events position := by
  unfold ticketAt
  rw [List.take_append_of_le_length h]

theorem ticketAt_length (events : List Event) {event : Event} (h : event.calls = true) :
    ticketAt (events ++ [event]) events.length = events.countP Event.calls + 1 := by
  unfold ticketAt
  rw [List.take_of_length_le (by simp)]
  simp [h]

theorem ticketAt_le (events : List Event) (position : Nat) :
    ticketAt events position ≤ events.countP Event.calls :=
  (List.take_sublist _ _).countP_le

theorem ticketAt_of_calls {events : List Event} {position : Nat} {event : Event}
    (hevent : events[position]? = some event) (hcalls : event.calls = true) :
    ticketAt events position = (events.take position).countP Event.calls + 1 := by
  unfold ticketAt
  rw [List.take_add_one, hevent]
  simp [hcalls]

theorem ticketAt_pos {events : List Event} {position : Nat} {event : Event}
    (hevent : events[position]? = some event) (hcalls : event.calls = true) :
    0 < ticketAt events position := by
  rw [ticketAt_of_calls hevent hcalls]
  omega

/-- A later call has a greater ticket. -/
theorem ticketAt_lt {events : List Event} {position later : Nat} {event : Event}
    (h : position < later) (hevent : events[later]? = some event) (hcalls : event.calls = true) :
    ticketAt events position < ticketAt events later := by
  have hearlier : (events.take (position + 1)).countP Event.calls ≤
      (events.take later).countP Event.calls :=
    (List.take_sublist_take_left h).countP_le
  rw [ticketAt_of_calls hevent hcalls]
  exact Nat.lt_succ_of_le hearlier

/-- The loads that are pending are those under way, each with the ticket of its call. -/
def Tracks (events : List Event) (session : Session) : Prop :=
  ∀ id ticket, session.ticket? id = some ticket ↔
    ∃ position, Underway events position id ∧ ticketAt events position = ticket

theorem Tracks.concat {events : List Event} {event : Event} {session session' : Session}
    {answer : Answer} (h : Tracks events session)
    (hissued : session.editor.issued = events.countP Event.calls)
    (hstep : session.Happens event session' answer) : Tracks (events ++ [event]) session' := by
  intro name ticket
  rw [hstep.ticket?, hissued]
  simp only [underway_concat]
  split
  · rename_i hstarts
    have hends : event.ends name = true := by simp [Event.ends_of_starts hstarts]
    have hticket := ticketAt_length events (Event.calls_of_starts hstarts)
    constructor
    · intro heq
      exact ⟨events.length, .inr ⟨rfl, hstarts⟩, hticket.trans (Option.some.inj heq)⟩
    · rintro ⟨position, ⟨-, hfalse⟩ | ⟨rfl, -⟩, rfl⟩
      · rw [hends] at hfalse
        cases hfalse
      · rw [hticket]
  · rename_i hstarts
    split
    · rename_i hends
      simp [hends, hstarts]
    · rename_i hends
      rw [h name ticket]
      constructor
      · rintro ⟨position, hunderway, rfl⟩
        exact ⟨position, .inl ⟨hunderway, by simpa using hends⟩,
          ticketAt_concat _ hunderway.lt_length⟩
      · rintro ⟨position, ⟨hunderway, -⟩ | ⟨-, hfalse⟩, rfl⟩
        · exact ⟨position, hunderway, (ticketAt_concat _ hunderway.lt_length).symm⟩
        · exact absurd hfalse hstarts

/-- What an editor holds, and the ticket that it holds it under, after a run. -/
inductive Held (representation : Representation) (events : List Event) (committed : Nat)
    (definitions : Definitions) : Prop where
  | nothing (hnone : ∀ position accepted, ¬ Accepted representation events position accepted)
      (hcommitted : committed = 0) (hempty : definitions = .empty representation)
  | latest {position : Nat} {accepted : Definitions}
      (hlatest : Latest representation events position accepted)
      (hcommitted : committed = ticketAt events position) (hequal : definitions == accepted)

theorem Held.concat {representation : Representation} {events : List Event} {event : Event}
    {committed : Nat} {definitions : Definitions}
    (h : Held representation events committed definitions)
    (hnone : ∀ position accepted, Accepted representation (events ++ [event]) position accepted →
      Accepted representation events position accepted) :
    Held representation (events ++ [event]) committed definitions := by
  cases h with
  | nothing hbefore hcommitted hempty =>
    exact .nothing (fun position accepted hnew => hbefore position accepted (hnone _ _ hnew))
      hcommitted hempty
  | latest hlatest hcommitted hequal =>
    refine .latest ⟨accepted_concat.mpr (.inl hlatest.accepted), ?_⟩ ?_ hequal
    · intro other accepted hother
      exact hlatest.last other accepted (hnone _ _ hother)
    · rw [ticketAt_concat _ hlatest.accepted.lt_length]
      exact hcommitted

/-- What is held stays if no definitions are brought. -/
theorem Held.concat_of_unread {representation : Representation} {events : List Event}
    {event : Event} {committed : Nat} {definitions : Definitions}
    (h : Held representation events committed definitions)
    (hunread : ∀ document read, event.document = some document →
      Definitions.parse representation document ≠ .ok read) :
    Held representation (events ++ [event]) committed definitions := by
  refine h.concat fun position accepted haccepted => ?_
  rcases accepted_concat.mp haccepted with hold | ⟨-, document, rfl, hparse⟩ |
      ⟨id, document, rfl, -, hparse⟩
  · exact hold
  · exact absurd hparse (hunread document accepted rfl)
  · exact absurd hparse (hunread document accepted rfl)

/-- Definitions that have just been brought are taken exactly if nothing has been brought that was
called later; either way the latest call is the one that counts. -/
theorem Held.commit {representation : Representation} {events : List Event} {event : Event}
    (editor : Editor) {position : Nat} {definitions : Definitions}
    (h : Held representation events editor.committed editor.snapshot.definitions)
    (hnew : Accepted representation (events ++ [event]) position definitions)
    (honly : ∀ other accepted, Accepted representation (events ++ [event]) other accepted →
      Accepted representation events other accepted ∨ other = position) :
    Held representation (events ++ [event])
      (editor.commit (ticketAt (events ++ [event]) position) definitions).1.committed
      (editor.commit (ticketAt (events ++ [event]) position)
        definitions).1.snapshot.definitions := by
  obtain ⟨call, hcall, hcalls⟩ := hnew.called
  cases h with
  | nothing hbefore hcommitted hempty =>
    have hpositive := ticketAt_pos hcall hcalls
    rw [Editor.commit_of_lt (by omega)]
    refine .latest ⟨hnew, ?_⟩ Editor.hold_committed Editor.hold_definitions
    intro other accepted hother
    rcases honly other accepted hother with hother | rfl
    · exact absurd hother (hbefore other accepted)
    · exact Nat.le_refl _
  | @latest last accepted hlatest hcommitted hequal =>
    have hsame := ticketAt_concat event hlatest.accepted.lt_length
    obtain ⟨lastCall, hlastCall, hlastCalls⟩ := hlatest.accepted.called
    have hlastCall' : (events ++ [event])[last]? = some lastCall :=
      getElem?_concat.mpr (.inl hlastCall)
    rcases Nat.lt_or_ge last position with hlt | hge
    · have hticket := ticketAt_lt hlt hcall hcalls
      rw [Editor.commit_of_lt (by omega)]
      refine .latest ⟨hnew, ?_⟩ Editor.hold_committed Editor.hold_definitions
      intro other otherAccepted hother
      rcases honly other otherAccepted hother with hother | rfl
      · have hle := hlatest.last other otherAccepted hother
        omega
      · exact Nat.le_refl _
    · have hticket : ticketAt (events ++ [event]) position ≤ ticketAt (events ++ [event]) last := by
        rcases Nat.eq_or_lt_of_le hge with rfl | hlt
        · exact Nat.le_refl _
        · exact Nat.le_of_lt (ticketAt_lt hlt hlastCall' hlastCalls)
      rw [Editor.commit_of_le (by omega)]
      refine .latest ⟨accepted_concat.mpr (.inl hlatest.accepted), ?_⟩
        (hcommitted.trans hsame.symm) hequal
      intro other otherAccepted hother
      rcases honly other otherAccepted hother with hother | rfl
      · exact hlatest.last other otherAccepted hother
      · exact hge

/-- A load under way would be applied exactly if nothing has been brought that was called later. -/
theorem Held.lt_ticket_iff {representation : Representation} {events : List Event}
    {committed position : Nat} {definitions : Definitions} {id : String}
    (h : Held representation events committed definitions)
    (hunderway : Underway events position id) :
    committed < ticketAt events position ↔
      ¬ ∃ later accepted, position < later ∧ Accepted representation events later accepted := by
  obtain ⟨call, hcall, hcalls⟩ := hunderway.called
  cases h with
  | nothing hnone hcommitted hempty =>
    have hpositive := ticketAt_pos hcall hcalls
    constructor
    · rintro - ⟨later, accepted, -, haccepted⟩
      exact hnone later accepted haccepted
    · intro _
      omega
  | @latest last accepted hlatest hcommitted hequal =>
    obtain ⟨lastCall, hlastCall, hlastCalls⟩ := hlatest.accepted.called
    rcases Nat.lt_trichotomy last position with hlt | rfl | hgt
    · have hticket := ticketAt_lt hlt hcall hcalls
      constructor
      · rintro - ⟨later, other, hlater, hother⟩
        have hle := hlatest.last later other hother
        omega
      · intro _
        omega
    · -- The load itself cannot be the one that counts, since it has brought nothing yet.
      exact absurd hlatest.accepted hunderway.not_accepted
    · have hticket := ticketAt_lt hgt hlastCall hlastCalls
      constructor
      · intro hcommitted'
        omega
      · intro hno
        exact absurd ⟨last, accepted, hgt, hlatest.accepted⟩ hno

/-- What holds of a session after a run from an editor with nothing in it. -/
structure Ordered (representation : Representation) (events : List Event) (session : Session) :
    Prop where
  represents : session.editor.representation = representation
  issued : session.editor.issued = events.countP Event.calls
  tracks : Tracks events session
  held : Held representation events session.editor.committed session.editor.snapshot.definitions

theorem Ordered.start (connection : Connection) (representation : Representation) :
    Ordered representation [] (.start (.start connection representation)) where
  represents := rfl
  issued := rfl
  tracks := by
    intro id ticket
    constructor
    · intro hfind
      cases hfind
    · rintro ⟨position, hunderway, -⟩
      exact absurd hunderway.lt_length (Nat.not_lt_zero position)
  held := by
    refine .nothing ?_ rfl rfl
    intro position accepted haccepted
    exact absurd haccepted.lt_length (Nat.not_lt_zero position)

namespace Ordered

variable {representation : Representation} {events : List Event} {event : Event}
  {session session' : Session} {answer : Answer} {id : String}

theorem not_underway (h : Ordered representation events session)
    (hfind : session.pending.find? id = none) (position : Nat) :
    ¬ Underway events position id := by
  intro hunderway
  have hticket := (h.tracks id _).mpr ⟨position, hunderway, rfl⟩
  rw [Session.ticket?_of_find?_none hfind] at hticket
  cases hticket

theorem underway {load : PendingLoad} (h : Ordered representation events session)
    (hfind : session.pending.find? id = some load) :
    ∃ position, Underway events position id ∧ ticketAt events position = load.ticket :=
  (h.tracks id load.ticket).mp (Session.ticket?_of_find? hfind)

/-- An assignment is called last, so that it is always the one that counts. -/
theorem held_assign {document : Value} {definitions : Definitions}
    (h : Ordered representation events session)
    (hparse : Definitions.parse representation document = .ok definitions) :
    let editor := (session.editor.takeTicket.commit (session.editor.issued + 1) definitions).1
    Held representation (events ++ [.assign document]) editor.committed
      editor.snapshot.definitions := by
  have hnew : Accepted representation (events ++ [.assign document]) events.length definitions :=
    accepted_concat.mpr (.inr (.inl ⟨rfl, document, rfl, hparse⟩))
  have hticket : ticketAt (events ++ [.assign document]) events.length =
      session.editor.issued + 1 := by
    rw [ticketAt_length events rfl, h.issued]
  rw [← hticket]
  refine Held.commit session.editor.takeTicket h.held hnew ?_
  intro other accepted hother
  rcases accepted_concat.mp hother with hother | ⟨hposition, -⟩ | ⟨_, _, hevent, -⟩
  · exact .inl hother
  · exact .inr hposition
  · cases hevent

theorem held_finish {document : Value} {definitions : Definitions} {load : PendingLoad}
    (h : Ordered representation events session)
    (hfind : session.pending.find? id = some load)
    (hparse : Definitions.parse representation document = .ok definitions) :
    let editor := (session.editor.commit load.ticket definitions).1
    Held representation (events ++ [.finish id (.ok document)]) editor.committed
      editor.snapshot.definitions := by
  obtain ⟨position, hunderway, hticket⟩ := h.underway hfind
  have hnew :
      Accepted representation (events ++ [.finish id (.ok document)]) position definitions :=
    accepted_concat.mpr (.inr (.inr ⟨id, document, rfl, hunderway, hparse⟩))
  rw [← hticket, ← ticketAt_concat _ hunderway.lt_length]
  refine Held.commit session.editor h.held hnew ?_
  intro other accepted hother
  rcases accepted_concat.mp hother with hother | ⟨-, _, hevent, -⟩ | ⟨_, _, hevent, hother, -⟩
  · exact .inl hother
  · cases hevent
  · cases hevent
    exact .inr (hother.unique hunderway)

/-- One event keeps the order. -/
theorem concat (h : Ordered representation events session)
    (hstep : session.Happens event session' answer) :
    Ordered representation (events ++ [event]) session' where
  represents := hstep.representation.trans h.represents
  issued := by
    rw [hstep.issued, h.issued]
    simp [List.countP_append, List.countP_singleton]
  tracks := h.tracks.concat h.issued hstep
  held := by
    have hrepresents := h.represents
    cases hstep with
    | assigned hparse =>
      rw [hrepresents] at hparse
      exact h.held_assign hparse
    | finished hfind hread =>
      rw [hrepresents] at hread
      obtain ⟨document, rfl, hparse⟩ := Definitions.ofFetched_eq_ok_iff.mp hread
      exact h.held_finish hfind hparse
    | rejected hparse =>
      rw [hrepresents] at hparse
      refine h.held.concat_of_unread fun document read hdocument hread => ?_
      cases hdocument
      rw [hparse] at hread
      cases hread
    | started url hstarts =>
      refine h.held.concat_of_unread fun document read hdocument => ?_
      rw [Event.document_of_starts hstarts] at hdocument
      cases hdocument
    | unknown hfind =>
      refine h.held.concat fun position accepted haccepted => ?_
      rcases accepted_concat.mp haccepted with hold | ⟨-, _, hevent, -⟩ |
          ⟨_, _, hevent, hunderway, -⟩
      · exact hold
      · cases hevent
      · cases hevent
        exact absurd hunderway (h.not_underway hfind position)
    | @failed _ fetched _ _ hfind hread =>
      rw [hrepresents] at hread
      refine h.held.concat_of_unread fun document read hdocument hparse => ?_
      cases fetched with
      | error error => cases hdocument
      | ok fetched =>
        cases hdocument
        rw [Definitions.ofFetched_eq_ok_iff.mpr ⟨_, rfl, hparse⟩] at hread
        cases hread
    | abandoned =>
      refine h.held.concat_of_unread fun document read hdocument => ?_
      cases hdocument
    | exchanged hworkflow =>
      simp only [Editor.setWorkflow_committed, Editor.setWorkflow_definitions]
      refine h.held.concat_of_unread fun document read hdocument => ?_
      rw [Event.document_of_workflow hworkflow] at hdocument
      cases hdocument

/-- Every run keeps the order. -/
theorem run (connection : Connection) (representation : Representation) (events : List Event) :
    Ordered representation events
      ((Session.start (.start connection representation)).run events) := by
  -- Positions are counted from the start, so that the run grows at its end.
  induction events using List.reverseRecOn with
  | nil => exact .start connection representation
  | append_singleton events event ih =>
    rw [Session.run_concat]
    exact ih.concat (Session.step_happens _ _)

/-- Neither counter outgrows the number of calls, so that both fit wherever that number does. -/
theorem counters_le (h : Ordered representation events session) :
    session.editor.issued = events.countP Event.calls ∧
      session.editor.committed ≤ events.countP Event.calls := by
  refine ⟨h.issued, ?_⟩
  cases h.held with
  | nothing hnone hcommitted hempty =>
    rw [hcommitted]
    exact Nat.zero_le _
  | latest hlatest hcommitted hequal =>
    rw [hcommitted]
    exact ticketAt_le events _

/-- A load under way is applied with what it brings, unless a later call has brought something. -/
theorem finish {document : Value} {definitions : Definitions} {position : Nat}
    (h : Ordered representation events session) (hunderway : Underway events position id)
    (hparse : Definitions.parse representation document = .ok definitions) :
    ∃ outcome, (session.step (.finish id (.ok document))).2.1 = .loaded (.ok outcome) ∧
      (outcome = .applied ↔
        ¬ ∃ later accepted, position < later ∧ Accepted representation events later accepted) := by
  have hticket := (h.tracks id _).mpr ⟨position, hunderway, rfl⟩
  obtain ⟨load, hfind, hload⟩ := Option.map_eq_some_iff.mp hticket
  rw [← h.represents] at hparse
  have hread : Definitions.ofFetched session.editor.representation (.ok document) =
      .ok definitions :=
    Definitions.ofFetched_eq_ok_iff.mpr ⟨document, rfl, hparse⟩
  refine ⟨(session.editor.commit load.ticket definitions).2, ?_, ?_⟩
  · have hresult := (Editor.finishLoad_of_ok load hread).2
    simp only [Session.step, hfind, hresult]
  · rw [← h.held.lt_ticket_iff hunderway, ← hload]
    exact Editor.commit_applied_iff

end Ordered

/-- In every run from an editor with nothing in it, the definitions held are those of the call that
is latest among the calls that have brought any, and a load is superseded exactly if a later call
has brought some. -/
theorem run_holds_latest_called (connection : Connection) (representation : Representation)
    (events : List Event) :
    let session := (Session.start (.start connection representation)).run events
    let held := session.editor.snapshot.definitions
    ((∃ position accepted, Latest representation events position accepted ∧ held == accepted) ∨
      ((∀ position accepted, ¬ Accepted representation events position accepted) ∧
        held = .empty representation)) ∧
    (∀ position accepted, Latest representation events position accepted → held == accepted) ∧
    ∀ position id document accepted, Underway events position id →
      Definitions.parse representation document = .ok accepted →
      ∃ outcome, (session.step (.finish id (.ok document))).2.1 = .loaded (.ok outcome) ∧
        (outcome = .applied ↔ ¬ ∃ later accepted,
          position < later ∧ Accepted representation events later accepted) ∧
        (outcome = .superseded ↔ ∃ later accepted,
          position < later ∧ Accepted representation events later accepted) := by
  intro session held
  have hordered := Ordered.run connection representation events
  refine ⟨?_, ?_, ?_⟩
  · cases hordered.held with
    | nothing hnone _ hempty => exact .inr ⟨hnone, hempty⟩
    | latest hlatest _ hequal => exact .inl ⟨_, _, hlatest, hequal⟩
  · intro position accepted hlatest
    cases hordered.held with
    | nothing hnone _ _ => exact absurd hlatest.accepted (hnone position accepted)
    | latest hlatest' _ hequal =>
      rw [hlatest.unique hlatest']
      exact hequal
  · intro position id document accepted hunderway hparse
    obtain ⟨outcome, hanswer, happlied⟩ := hordered.finish hunderway hparse
    refine ⟨outcome, hanswer, happlied, ?_⟩
    cases outcome <;> simp_all

end FlowContract
