import FlowContract.Proofs.Definitions.Classification
import FlowContract.Proofs.Editor.Effects

/-!
Coherence of what an editor publishes. The definitions it holds are at all times those that are read
from the document it holds, in the representation that it was started with. What it publishes names
all that an editor needs to be put into the same state again.
-/

namespace FlowContract

open Json (Value)

namespace Definitions

theorem raw_of_parse {representation : Representation} {document : Value}
    {definitions : Definitions} (h : parse representation document = .ok definitions) :
    definitions.raw = document := by
  cases representation with
  | catalog =>
    obtain ⟨_, -, rfl⟩ := Except.map_eq_ok_iff.mp h
    rfl
  | operatorList version =>
    obtain ⟨_, -, rfl⟩ := Except.map_eq_ok_iff.mp h
    rfl

/-- What an editor holds in the beginning could have been read. -/
theorem parse_empty (representation : Representation) :
    parse representation (empty representation).raw = .ok (empty representation) := by
  cases representation with
  | catalog =>
    have hcheck : SchemaDocument.shape.check (empty .catalog).raw .root = .ok () := rfl
    have hget : (empty .catalog).raw.get? "definitions" = some (.mapping ∅) := rfl
    have hcatalog : Catalog.parse (.mapping ∅) (Path.root.key "definitions") = .ok .empty := by
      have htraverse : (∅ : SortedMap Value).traverse (fun id entry =>
          Definition.parse entry ((Path.root.key "definitions").key id)) = .ok ∅ :=
        SortedMap.traverse_eq_pure fun i => i.elim0
      rw [Catalog.parse_mapping, htraverse]
      rfl
    simp only [parse, SchemaDocument.parse, hcheck, hget, Option.getD_some, hcatalog]
    rfl
  | operatorList version => cases version <;> rfl

/-- The documents of the beginning have no numbers, so that what equals them is the same. -/
theorem raw_of_equal_empty {representation : Representation} {definitions : Definitions}
    (h : (empty representation == definitions) = true) :
    definitions.raw = (empty representation).raw := by
  have hraw : (empty representation).raw.equal definitions.raw = true :=
    (Bool.and_eq_true_iff.mp h).1
  have hdoubles : (empty representation).raw.WithoutDoubles := by
    cases representation with
    | catalog => exact .mapping fun ⟨0, _⟩ => .mapping fun i => i.elim0
    | operatorList version => exact .list nofun
  exact (Json.Value.eq_of_equal hdoubles hraw).symm

/-- Parsed definitions are of a representation, and are as many as the document of that
representation has: the entries of its catalog, or the elements of its list. -/
inductive HasForm : Representation → Value → ParsedDefinitions → Nat → Prop where
  | catalog {raw : Value} {document : SchemaDocument} {members : SortedMap Value}
      (h : raw.get? "definitions" = some (.mapping members)) :
      HasForm .catalog raw (.catalog document) members.keys.length
  | operatorList {version : SchemaVersion} {operators : List Descriptor} {items : List Value} :
      HasForm (.operatorList version) (.list items) (.operatorList ⟨version, operators⟩)
        items.length

theorem hasForm_of_parse {representation : Representation} {document : Value}
    {definitions : Definitions} (h : parse representation document = .ok definitions) :
    HasForm representation definitions.raw definitions.parsed definitions.size := by
  cases representation with
  | catalog =>
    obtain ⟨schema, hschema, rfl⟩ := Except.map_eq_ok_iff.mp h
    obtain ⟨entries, catalog, definitions, rfl, hholds, hcatalog, rfl⟩ :=
      SchemaDocument.of_parse hschema
    obtain ⟨members, result, rfl, -, rfl⟩ := Catalog.of_parse hcatalog
    exact .catalog hholds.catalog
  | operatorList version =>
    obtain ⟨list, hlist, rfl⟩ := Except.map_eq_ok_iff.mp h
    obtain ⟨items, operators, rfl, rfl, hlength⟩ := DescriptorList.of_parse hlist
    have hsize : (ParsedDefinitions.operatorList ⟨version, operators⟩).size = items.length :=
      hlength
    rw [size, hsize]
    exact .operatorList

end Definitions

namespace Snapshot

/-- What an editor publishes is coherent: it belongs to the server and the representation that the
editor was started with, and its definitions are what is read from the document it holds. -/
structure Coherent (connection : Connection) (representation : Representation) (s : Snapshot) :
    Prop where
  belongs : s.connection = connection
  represents : s.representation = representation
  reread : Definitions.parse representation s.definitions.raw = .ok s.definitions

end Snapshot

section Steps

variable {connection : Connection} {representation : Representation} {editor : Editor}
  {session session' : Session} {event : Event} {answer : Answer}

theorem Snapshot.Coherent.initial (connection : Connection) (representation : Representation) :
    (Snapshot.initial connection representation).Coherent connection representation :=
  ⟨rfl, rfl, Definitions.parse_empty representation⟩

/-- A document and what was read from it are replaced together, or both stay. -/
theorem Snapshot.Coherent.commit (h : editor.snapshot.Coherent connection representation)
    {document : Value} {definitions : Definitions}
    (hparse : Definitions.parse representation document = .ok definitions) (ticket : Nat) :
    (editor.commit ticket definitions).1.snapshot.Coherent connection representation := by
  have hread : Definitions.parse representation definitions.raw = .ok definitions := by
    rw [Definitions.raw_of_parse hparse]
    exact hparse
  rcases Nat.lt_or_ge editor.committed ticket with hlt | hge
  · rw [Editor.commit_of_lt hlt, Editor.hold]
    split
    · exact h
    · exact ⟨h.belongs, h.represents, hread⟩
  · rw [Editor.commit_of_le hge]
    exact h

theorem Snapshot.Coherent.setWorkflow (h : editor.snapshot.Coherent connection representation)
    (document : Option Value) :
    (editor.setWorkflow document).snapshot.Coherent connection representation := by
  unfold Editor.setWorkflow
  split
  · exact h
  · exact ⟨h.belongs, h.represents, h.reread⟩

theorem Session.Happens.coherent (hstep : session.Happens event session' answer)
    (h : session.editor.snapshot.Coherent connection representation) :
    session'.editor.snapshot.Coherent connection representation := by
  have hrepresentation : session.editor.representation = representation := h.represents
  cases hstep with
  | rejected | started | unknown | failed | abandoned => exact h
  | assigned hparse =>
    rw [hrepresentation] at hparse
    have htaken : session.editor.takeTicket.snapshot.Coherent connection representation := h
    exact htaken.commit hparse _
  | finished hload hread =>
    rw [hrepresentation] at hread
    obtain ⟨document, -, hparse⟩ := Definitions.ofFetched_eq_ok_iff.mp hread
    exact h.commit hparse _
  | exchanged hworkflow => exact h.setWorkflow _

theorem Session.run_coherent_from (events : List Event)
    (h : session.editor.snapshot.Coherent connection representation) :
    (session.run events).editor.snapshot.Coherent connection representation := by
  induction events generalizing session with
  | nil => exact h
  | cons event rest ih => exact ih ((session.step_happens event).coherent h)

end Steps

/-- A value has the keys of what an editor publishes and no others, with these contents. -/
structure Json.Value.IsWire (wire : Value) (representation : Representation)
    (connection : Connection) (document workflow : Value) : Prop where
  keys : ∃ entries, wire = .mapping entries ∧ ∀ key, key ∈ entries.keys ↔
    key ∈ ["serverUrl", "token", representation.wireField, "workflow"]
  serverUrl : wire.get? "serverUrl" = some (.string connection.serverUrl)
  token : wire.get? "token" = some (.string connection.token)
  document : wire.get? representation.wireField = some document
  workflow : wire.get? "workflow" = some workflow

theorem Json.Value.IsWire.unique {wire : Value} {representation : Representation}
    {connection connection' : Connection} {document document' workflow workflow' : Value}
    (h : wire.IsWire representation connection document workflow)
    (h' : wire.IsWire representation connection' document' workflow') :
    connection' = connection ∧ document' = document ∧ workflow' = workflow := by
  have hserverUrl := h'.serverUrl.symm.trans h.serverUrl
  have htoken := h'.token.symm.trans h.token
  have hdocument := h'.document.symm.trans h.document
  have hworkflow := h'.workflow.symm.trans h.workflow
  simp only [Option.some.injEq, Value.string.injEq] at hserverUrl htoken hdocument hworkflow
  refine ⟨?_, hdocument, hworkflow⟩
  cases connection
  cases connection'
  simp only at hserverUrl htoken
  rw [hserverUrl, htoken]

namespace Snapshot

theorem isWire_toWire (s : Snapshot) :
    s.toWire.IsWire s.representation s.connection s.definitions.raw (s.workflow.getD .null) := by
  let pairs : List (String × Value) := [
    ("serverUrl", .string s.connection.serverUrl),
    ("token", .string s.connection.token),
    (s.representation.wireField, s.definitions.raw),
    ("workflow", s.workflow.getD .null)]
  have hnodup : (pairs.map Prod.fst).Nodup := by
    cases hrepresentation : s.representation with
    | catalog => simp [pairs, hrepresentation, Representation.wireField]
    | operatorList version => simp [pairs, hrepresentation, Representation.wireField]
  have hfind {key : String} {v : Value} (hmem : (key, v) ∈ pairs) : s.toWire.get? key = some v :=
    (SortedMap.find?_ofList hnodup).mpr hmem
  refine ⟨⟨_, rfl, ?_⟩, hfind ?_, hfind ?_, hfind ?_, hfind ?_⟩
  · intro key
    exact SortedMap.mem_keys_ofList hnodup
  · simp [pairs]
  · simp [pairs]
  · simp [pairs]
  · simp [pairs]

/-- What is published depends on the document and not on what was read from it. -/
theorem toWire_congr {s t : Snapshot} (hconnection : s.connection = t.connection)
    (hrepresentation : s.representation = t.representation)
    (hraw : s.definitions.raw = t.definitions.raw)
    (hworkflow : s.workflow.getD .null = t.workflow.getD .null) : s.toWire = t.toWire := by
  unfold toWire
  rw [hconnection, hrepresentation, hraw, hworkflow]

end Snapshot

namespace Editor

variable {editor : Editor} {definitions : Definitions}

/-- An editor without definitions holds the document of those that it takes, also if they are equal
to none. -/
theorem hold_raw_of_empty (h : editor.snapshot.definitions = .empty editor.representation) :
    (editor.hold definitions).snapshot.definitions.raw = definitions.raw := by
  unfold hold
  split
  · rename_i hequal
    rw [h] at hequal ⊢
    exact (Definitions.raw_of_equal_empty hequal).symm
  · rfl

theorem setWorkflow_of_none (h : editor.snapshot.workflow = none) (document : Option Value) :
    (editor.setWorkflow document).snapshot.workflow = document := by
  unfold setWorkflow
  split
  · rename_i hequal
    rw [h] at hequal ⊢
    cases document with
    | none => rfl
    | some v => cases hequal
  · rfl

theorem hold_workflow :
    (editor.hold definitions).snapshot.workflow = editor.snapshot.workflow := by
  unfold hold
  split <;> rfl

/-- An editor that is started anew holds what is read from the document that it takes. -/
theorem assign_start (connection : Connection) {representation : Representation}
    {document : Value} (h : Definitions.parse representation document = .ok definitions) :
    let taken := ((start connection representation).assign document).editor
    taken.snapshot.Coherent connection representation ∧
      taken.snapshot.definitions = definitions ∧ taken.snapshot.workflow = none := by
  intro taken
  let fresh := start connection representation
  have hparse : Definitions.parse fresh.representation document = .ok definitions := h
  have heditor : taken = (fresh.takeTicket.commit 1 definitions).1 := (assign_of_ok hparse).1
  have hcoherent : taken.snapshot.Coherent connection representation := by
    rw [heditor]
    exact Snapshot.Coherent.commit (.initial connection representation) h 1
  -- No ticket has been served yet, so that the first one cannot come too late.
  have htaken : taken = { fresh.takeTicket with committed := 1 }.hold definitions :=
    heditor.trans (congrArg Prod.fst (commit_of_lt Nat.one_pos))
  have hraw : taken.snapshot.definitions.raw = document := by
    rw [htaken, hold_raw_of_empty rfl, Definitions.raw_of_parse h]
  have hreread := hcoherent.reread
  rw [hraw, h, Except.ok.injEq] at hreread
  refine ⟨hcoherent, hreread.symm, ?_⟩
  rw [htaken]
  exact hold_workflow

end Editor

/-- An editor that is started anew takes a document, and publishes a wire form once it has received
a workflow. No workflow at all is published as null. -/
structure Republishes (connection : Connection) (representation : Representation)
    (document workflow wire : Value) : Prop where
  takes : ((Session.start (.start connection representation)).step (.assign document)).2.1 =
    .assigned (.ok ())
  publishes : ∀ event received, event.workflow = some received → received.getD .null = workflow →
    ((Session.start (.start connection representation)).run
      [.assign document, event]).editor.snapshot.toWire = wire

theorem Snapshot.Coherent.republishes {connection : Connection} {representation : Representation}
    {s : Snapshot} (h : s.Coherent connection representation) :
    Republishes connection representation s.definitions.raw (s.workflow.getD .null) s.toWire := by
  let fresh := Editor.start connection representation
  have hparse : Definitions.parse fresh.representation s.definitions.raw = .ok s.definitions :=
    h.reread
  constructor
  · exact congrArg Answer.assigned (Editor.assign_of_ok hparse).2
  · intro event received hevent hreceived
    let taken := (fresh.assign s.definitions.raw).editor
    have hrun : (Session.start fresh).run [.assign s.definitions.raw, event] =
        ⟨taken.setWorkflow received, ∅⟩ :=
      (Session.Happens.of_workflow (Session.step_happens ⟨taken, ∅⟩ event) hevent).2
    obtain ⟨htaken, hdefinitions, hnone⟩ := Editor.assign_start connection h.reread
    have hfinal := htaken.setWorkflow received
    rw [hrun]
    apply toWire_congr
    · exact hfinal.belongs.trans h.belongs.symm
    · exact hfinal.represents.trans h.represents.symm
    · rw [Editor.setWorkflow_definitions]
      exact congrArg Definitions.raw hdefinitions
    · rw [Editor.setWorkflow_of_none hnone]
      exact hreceived

/-- After every run from an editor with nothing in it, what is held is what is read from the
document that is held, in the representation of the editor; what is published has exactly the fields
of that representation; and from these fields an editor started anew comes to publish the same. -/
theorem run_is_coherent (connection : Connection) (representation : Representation)
    (events : List Event) :
    let s := ((Session.start (.start connection representation)).run events).editor.snapshot
    Definitions.parse representation s.definitions.raw = .ok s.definitions ∧
    Definitions.HasForm representation s.definitions.raw s.definitions.parsed s.definitions.size ∧
    s.toWire.IsWire representation connection s.definitions.raw (s.workflow.getD .null) ∧
    ∀ connection' document workflow,
      s.toWire.IsWire representation connection' document workflow →
      Republishes connection' representation document workflow s.toWire := by
  intro s
  have hcoherent : s.Coherent connection representation :=
    Session.run_coherent_from events (.initial connection representation)
  have hwire : s.toWire.IsWire representation connection s.definitions.raw
      (s.workflow.getD .null) := by
    have hs := s.isWire_toWire
    rwa [hcoherent.belongs, hcoherent.represents] at hs
  refine ⟨hcoherent.reread, Definitions.hasForm_of_parse hcoherent.reread, hwire, ?_⟩
  intro connection' document workflow hother
  obtain ⟨rfl, rfl, rfl⟩ := hwire.unique hother
  exact hcoherent.republishes

end FlowContract
