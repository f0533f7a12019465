import FlowContract.Proofs.Config.Reading

/-!
Configurations as documents: every field is written out, each under one name and in one order. What
is written is read as what it is.
-/

namespace FlowContract

open Json (Document)

def Json.Document.count (n : UInt64) : Document := .number (some (.ofNat n.toNat))

def LoaderConfig.document (loader : LoaderConfig) : Document :=
  .mapping [
    ("timeout_secs", .count loader.timeoutSeconds),
    ("user_agent", .string loader.userAgent)]

/-- A catalog has no details. -/
def Representation.document : Representation → Document
  | .catalog => .mapping [("kind", .string "catalog")]
  | .operatorList version =>
    .mapping [("kind", .string "operator_list"), ("schema_version", .string version.name)]

def EditorConfig.document (config : EditorConfig) : Document :=
  .mapping [
    ("server_url", .string config.serverUrl),
    ("token", .string config.token),
    ("definitions", config.definitions.document),
    ("loader", config.loader.document)]

namespace Config

theorem isString_string_iff {value value' : String} :
    IsString (.string value) value' ↔ value' = value := by
  simp [IsString, eq_comm]

theorem isCount_count_iff {n n' : UInt64} : IsCount (.count n) n' ↔ n' = n := by
  have hlt := n.toNat_lt
  have hcount : Document.count n = .number (some (.integer n.toNat (by omega) (by omega))) := by
    simp only [Document.count, Json.Number.ofNat, Document.number.injEq, Option.some.injEq,
      Json.Number.integer.injEq]
    omega
  rw [hcount]
  constructor
  · rintro ⟨value, least, greatest, hvalue, -, rfl⟩
    obtain rfl : (n.toNat : Int) = value := by simpa using hvalue
    simp
  · rintro rfl
    exact ⟨n'.toNat, by omega, by omega, rfl, by omega, by simp⟩

theorem ofName?_name (version : SchemaVersion) :
    SchemaVersion.ofName? version.name = some version := by
  cases version <;> rfl

theorem isVersion_name_iff {version version' : SchemaVersion} :
    IsVersion (.string version.name) version' ↔ version' = version := by
  simp [IsVersion, ofName?_name, eq_comm]

theorem isLoader_document_iff {loader loader' : LoaderConfig} :
    IsLoader loader.document loader' ↔ loader' = loader := by
  simp [IsLoader, LoaderConfig.document, given, Filled, isCount_count_iff, isString_string_iff,
    LoaderDraft.complete]

theorem isDetail_string (value : String) : IsDetail (.string value) :=
  ⟨Nat.zero_le _, _, rfl⟩

theorem isRepresentation_document_iff {representation representation' : Representation} :
    IsRepresentation representation.document representation' ↔
      representation' = representation := by
  cases representation with
  | catalog =>
    constructor
    · rintro ⟨-, tag, ⟨_, htag, ⟨⟩⟩, hof⟩
      cases tag with
      | catalog => exact hof
      | operatorList => simp [IsTag] at htag
    · rintro rfl
      exact ⟨by simp, .catalog, ⟨.catalog, rfl, rfl⟩, rfl⟩
  | operatorList version =>
    constructor
    · rintro ⟨-, tag, ⟨_, htag, ⟨⟩⟩, hof⟩
      cases tag with
      | catalog => simp [IsTag] at htag
      | operatorList =>
        obtain ⟨held, ⟨version', hversion, rfl⟩, rfl⟩ := hof
        rw [isVersion_name_iff.mp hversion]
        rfl
    · rintro rfl
      refine ⟨by simpa using isDetail_string _, .operatorList, ⟨.operatorList, rfl, rfl⟩,
        some version, ⟨version, isVersion_name_iff.mpr rfl, rfl⟩, rfl⟩

/-- A mapping that gives each field of a configuration once is read as this configuration. -/
theorem ofText_of_given {config : EditorConfig} {members : List (String × Document)}
    {text : String} (h : (Document.mapping members).SpelledBy text)
    (hserver : given ["server_url", "serverUrl"] members = [.string config.serverUrl])
    (htoken : given ["token"] members = [.string config.token])
    (hdefinitions : given ["definitions"] members = [config.definitions.document])
    (hloader : given ["loader"] members = [config.loader.document]) :
    EditorConfig.ofText text = .ok config := by
  refine (ofText_mapping_eq_ok_iff h config).mpr ⟨⟨some config.serverUrl, some config.token,
    some config.definitions, some config.loader⟩, ⟨?_, ?_, ?_, ?_⟩, rfl⟩
  · exact hserver ▸ ⟨_, rfl, rfl⟩
  · exact htoken ▸ ⟨_, rfl, rfl⟩
  · exact hdefinitions ▸ ⟨_, isRepresentation_document_iff.mpr rfl, rfl⟩
  · exact hloader ▸ ⟨_, isLoader_document_iff.mpr rfl, rfl⟩

end Config

end FlowContract
