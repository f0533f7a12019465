import FlowContract.Config.File
import FlowContract.Config.Printer
import FlowContract.Editor.State
import FlowContract.Proofs.Config.Written
import FlowContract.Proofs.Json.Printing

/-!
Configurations survive being written and read. The order of the fields makes no difference, so the
text may be that of the configuration or that of its value.
-/

namespace FlowContract

open Json (Document Layout Value)

namespace Json

theorem document_ofNat (n : UInt64) : (Value.ofNat n.toNat).document = .count n :=
  congrArg Document.number (Number.reread_integer _ _ _)

theorem Document.spelled_count (n : UInt64) :
    (Document.count n).Spelled (Number.ofNat n.toNat).write.toList := by
  rw [← document_ofNat]
  exact (Number.ofNat n.toNat).spelled_write

end Json

variable {layout : Layout}

namespace LoaderConfig

theorem spelled_write (hlayout : layout.Blank) (loader : LoaderConfig) (depth : Nat) :
    loader.document.Spelled (loader.write layout depth).toList :=
  Document.spelled_enclosed_mapping hlayout depth
    (.cons ⟨_, rfl, Document.spelled_count _⟩ (.cons ⟨_, rfl, Json.spells_writeString _⟩ .nil))

theorem toValue_eq (loader : LoaderConfig) : loader.toValue = .mapping (.ofSorted [
    ("timeout_secs", .ofNat loader.timeoutSeconds.toNat),
    ("user_agent", .string loader.userAgent)]
    (show ["timeout_secs", "user_agent"].Pairwise (· < ·) by decide)) :=
  Value.ofPairs_of_sorted _

theorem document_toValue (loader : LoaderConfig) : loader.toValue.document = loader.document := by
  rw [toValue_eq, Value.document_mapping, SortedMap.entries_ofSorted]
  simp only [List.map_cons, List.map_nil, Json.document_ofNat]
  rfl

theorem allDoubles_toValue (holds : Double → Prop) (loader : LoaderConfig) :
    loader.toValue.AllDoubles holds := by
  rw [toValue_eq, Value.allDoubles_mapping_iff, SortedMap.entries_ofSorted]
  simp [Value.AllDoubles, Value.ofNat, Json.Number.ofNat]

end LoaderConfig

namespace Representation

theorem spelled_write (hlayout : layout.Blank) (representation : Representation) (depth : Nat) :
    representation.document.Spelled (representation.write layout depth).toList := by
  cases representation with
  | catalog =>
    exact Document.spelled_enclosed_mapping hlayout depth
      (.cons ⟨_, rfl, Json.spells_writeString _⟩ .nil)
  | operatorList version =>
    exact Document.spelled_enclosed_mapping hlayout depth
      (.cons ⟨_, rfl, Json.spells_writeString _⟩ (.cons ⟨_, rfl, Json.spells_writeString _⟩ .nil))

theorem toValue_catalog :
    toValue .catalog = .mapping (.ofSorted [("kind", .string "catalog")]
      (show ["kind"].Pairwise (· < ·) by decide)) :=
  Value.ofPairs_of_sorted _

theorem toValue_operatorList (version : SchemaVersion) :
    toValue (.operatorList version) = .mapping (.ofSorted [
      ("kind", .string "operator_list"), ("schema_version", .string version.name)]
      (show ["kind", "schema_version"].Pairwise (· < ·) by decide)) :=
  Value.ofPairs_of_sorted _

theorem document_toValue (representation : Representation) :
    representation.toValue.document = representation.document := by
  cases representation with
  | catalog =>
    rw [toValue_catalog, Value.document_mapping, SortedMap.entries_ofSorted]
    rfl
  | operatorList =>
    rw [toValue_operatorList, Value.document_mapping, SortedMap.entries_ofSorted]
    rfl

theorem allDoubles_toValue (holds : Double → Prop) (representation : Representation) :
    representation.toValue.AllDoubles holds := by
  cases representation with
  | catalog =>
    rw [toValue_catalog, Value.allDoubles_mapping_iff, SortedMap.entries_ofSorted]
    simp [Value.AllDoubles]
  | operatorList =>
    rw [toValue_operatorList, Value.allDoubles_mapping_iff, SortedMap.entries_ofSorted]
    simp [Value.AllDoubles]

end Representation

namespace EditorConfig

theorem spelledBy_write (hlayout : layout.Blank) (config : EditorConfig) :
    config.document.SpelledBy (config.write layout) :=
  Document.spelledBy_of_spelled <| Document.spelled_enclosed_mapping hlayout 0 <|
    .cons ⟨_, rfl, Json.spells_writeString _⟩ <| .cons ⟨_, rfl, Json.spells_writeString _⟩ <|
      .cons ⟨_, rfl, config.definitions.spelled_write hlayout 1⟩ <|
        .cons ⟨_, rfl, config.loader.spelled_write hlayout 1⟩ .nil

/-- The value of a configuration has its fields in ascending order. -/
theorem toValue_eq (config : EditorConfig) : config.toValue = .mapping (.ofSorted [
    ("definitions", config.definitions.toValue),
    ("loader", config.loader.toValue),
    ("server_url", .string config.serverUrl),
    ("token", .string config.token)]
    (show ["definitions", "loader", "server_url", "token"].Pairwise (· < ·) by decide)) := by
  have hperm (a b c d : String × Value) : [a, b, c, d].Perm [c, d, a, b] :=
    show ([a, b] ++ [c, d]).Perm ([c, d] ++ [a, b]) from List.perm_append_comm
  exact congrArg Value.mapping (Json.ofList_of_perm (hperm _ _ _ _) _)

theorem document_toValue (config : EditorConfig) : config.toValue.document = .mapping [
    ("definitions", config.definitions.document),
    ("loader", config.loader.document),
    ("server_url", .string config.serverUrl),
    ("token", .string config.token)] := by
  rw [toValue_eq, Value.document_mapping, SortedMap.entries_ofSorted]
  simp only [List.map_cons, List.map_nil, config.definitions.document_toValue,
    config.loader.document_toValue]
  rfl

theorem ofText_write (hlayout : layout.Blank) (config : EditorConfig) :
    ofText (config.write layout) = .ok config :=
  Config.ofText_of_given (config.spelledBy_write hlayout) rfl rfl rfl rfl

/-- The fields need not stand in the order in which they are declared. -/
theorem ofText_write_toValue (hlayout : layout.Blank) (config : EditorConfig) :
    ofText (config.toValue.write layout 0) = .ok config := by
  have hspelled := Document.spelledBy_of_spelled <|
    config.toValue.spelled_write hlayout 0
  rw [document_toValue] at hspelled
  exact Config.ofText_of_given hspelled rfl rfl rfl rfl

/-- The text stands for the value of the configuration. -/
theorem value?_document (config : EditorConfig) :
    config.document.value? = some config.toValue := by
  have hdefinitions : config.definitions.document.value? = some config.definitions.toValue := by
    rw [← config.definitions.document_toValue, Value.value?_document_eq_self_iff]
    exact config.definitions.allDoubles_toValue _
  have hloader : config.loader.document.value? = some config.loader.toValue := by
    rw [← config.loader.document_toValue, Value.value?_document_eq_self_iff]
    exact config.loader.allDoubles_toValue _
  simp only [document, Document.value?, Document.valuesOfMembers, hdefinitions, hloader,
    Option.bind_eq_bind, Option.bind_some]
  rfl

theorem depth_document (config : EditorConfig) : config.document.depth = 2 := by
  cases hdefinitions : config.definitions <;>
    simp [document, Document.depth, Document.depthOfMembers, hdefinitions, Representation.document,
      LoaderConfig.document, Document.count]

theorem valueOfText_write (hlayout : layout.Blank) (config : EditorConfig) :
    Value.ofText (config.write layout) = .ok config.toValue := by
  rw [(config.spelledBy_write hlayout).ofText_eq_ok_iff, config.depth_document]
  exact ⟨by decide, config.value?_document⟩

/-- What an editor shows when it has been set up. -/
def startingState (config : EditorConfig) : Except ConfigError Value :=
  config.usable.map fun config => (Editor.ofConfig config).snapshot.toWire

/-- A configuration that is written, on one line or on many, is read back as it is. What is written
stands for the configuration's value, whose own text, with the fields in the order of their names,
is read back as well. An editor set up from what is read shows the same state, or cannot be set up
either. -/
theorem configuration_survives_writing (config : EditorConfig) :
    ∀ layout ∈ [Layout.compact, Layout.indented],
      ofText (config.write layout) = .ok config ∧
      Value.ofText (config.write layout) = .ok config.toValue ∧
      ofText (config.toValue.write layout 0) = .ok config ∧
      (ofText (config.write layout)).bind startingState = config.startingState := by
  intro layout hmem
  have hlayout : layout.Blank := by
    simp only [List.mem_cons, List.not_mem_nil, or_false] at hmem
    rcases hmem with rfl | rfl
    · exact Layout.blank_compact
    · exact Layout.blank_indented
  refine ⟨config.ofText_write hlayout, config.valueOfText_write hlayout,
    config.ofText_write_toValue hlayout, ?_⟩
  rw [config.ofText_write hlayout]
  rfl

/-- A token that looks like the end of a string and of a mapping. -/
theorem quoted_token_survives_writing :
    EditorConfig.ofText (
        "\x7b\"server_url\":\"s\",\"token\":\"\\\"\x7d\"," ++
        "\"definitions\":\x7b\"kind\":\"catalog\"\x7d," ++
        "\"loader\":\x7b\"timeout_secs\":18446744073709551615,\"user_agent\":\"\"\x7d\x7d") =
      .ok ⟨"s", "\"\x7d", .catalog, ⟨18446744073709551615, ""⟩⟩ := by
  have hread := (configuration_survives_writing
    ⟨"s", "\"\x7d", .catalog, ⟨18446744073709551615, ""⟩⟩ .compact (by simp)).1
  rw [← hread]
  congr 1

end EditorConfig

end FlowContract
