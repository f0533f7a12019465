import FlowContract.Proofs.Editor.Coherence
import FlowContract.Proofs.Json.Printing

/-!
The text of what an editor publishes. Main statement: a reader of this text finds the document that
the editor holds exactly if the doubles in it are read back as they are and if it leaves room for
the mapping around it.
-/

namespace FlowContract

open Json (Layout Syntax Value)

namespace Json

/-- Whether a value is found again in the text of a mapping that holds it. -/
structure Value.Survives (v : Value) : Prop where
  doubles : v.AllDoubles Double.IsStable
  depth : v.document.depth < Syntax.nestingLimit

end Json

namespace Json.Value.IsWire

variable {wire document workflow : Value} {entries : SortedMap Value}
  {representation : Representation} {connection : Connection} {layout : Layout}

/-- What holds of all that is published holds of the four contents. -/
theorem forall_entries_iff
    (h : (Value.mapping entries).IsWire representation connection document workflow)
    (holds : Value → Prop) : (∀ entry ∈ entries.entries, holds entry.2) ↔
      holds (.string connection.serverUrl) ∧ holds (.string connection.token) ∧
        holds document ∧ holds workflow := by
  have hmem {key : String} {v : Value} (hget : (Value.mapping entries).get? key = some v) :
      (key, v) ∈ entries.entries := SortedMap.mem_entries_iff.mpr hget
  constructor
  · intro hall
    exact ⟨hall _ (hmem h.serverUrl), hall _ (hmem h.token), hall _ (hmem h.document),
      hall _ (hmem h.workflow)⟩
  · rintro ⟨hserverUrl, htoken, hdocument, hworkflow⟩ ⟨key, v⟩ hentry
    have hfind := SortedMap.mem_entries_iff.mp hentry
    obtain ⟨_, heq, hkeys⟩ := h.keys
    cases heq
    have hkey := (hkeys key).mp (SortedMap.mem_keys_iff.mpr ⟨v, hfind⟩)
    have hvalue {v' : Value} (hget : (Value.mapping entries).get? key = some v')
        (hholds : holds v') : holds v :=
      Option.some.inj (hget.symm.trans hfind) ▸ hholds
    simp only [List.mem_cons, List.not_mem_nil, or_false] at hkey
    rcases hkey with rfl | rfl | rfl | rfl
    · exact hvalue h.serverUrl hserverUrl
    · exact hvalue h.token htoken
    · exact hvalue h.document hdocument
    · exact hvalue h.workflow hworkflow

/-- Where no workflow has come, the whole of what is published is read back with the document. -/
theorem ofText_write (h : wire.IsWire representation connection document .null)
    (hlayout : layout.Blank) (hdocument : document.Survives) :
    Value.ofText (wire.write layout 0) = .ok wire := by
  obtain ⟨entries, rfl, -⟩ := h.keys
  rw [Value.ofText_write hlayout, Value.value?_document_eq_self_iff, Value.allDoubles_mapping_iff,
    h.forall_entries_iff]
  have hroom : ∀ entry ∈ entries.entries, entry.2.document.depth ≤ Syntax.nestingLimit - 1 :=
    (h.forall_entries_iff (·.document.depth ≤ Syntax.nestingLimit - 1)).mpr
      ⟨Nat.zero_le _, Nat.zero_le _, Nat.le_pred_of_lt hdocument.depth, Nat.zero_le _⟩
  have hdepth := Value.depth_document_mapping_le_iff.mpr hroom
  exact ⟨hdepth, trivial, trivial, hdocument.doubles, trivial⟩

theorem survives_of_ofText (h : wire.IsWire representation connection document workflow)
    (hlayout : layout.Blank) {wire' : Value}
    (hread : Value.ofText (wire.write layout 0) = .ok wire')
    (hget : wire'.get? representation.wireField = some document) : document.Survives := by
  obtain ⟨entries, rfl, -⟩ := h.keys
  obtain ⟨hdepth, hvalue⟩ := (Value.ofText_write hlayout _ _).mp hread
  have hroom := Value.depth_document_mapping_le_iff.mp hdepth _
    (SortedMap.mem_entries_iff.mpr h.document)
  obtain ⟨document', hget', hdocument⟩ := Value.get?_of_document hvalue h.document
  rw [hget, Option.some.injEq] at hget'
  subst hget'
  exact ⟨(Value.value?_document_eq_self_iff document).mp hdocument, Nat.lt_succ_of_le hroom⟩

end Json.Value.IsWire

end FlowContract
