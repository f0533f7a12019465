import FlowContract.Definitions.Representation

/-!
Configurations: how an editor instance is set up, and how a configuration is written down.
-/

namespace FlowContract

open Json (Value)

structure LoaderConfig where
  timeoutSeconds : UInt64
  userAgent : String
  deriving DecidableEq

namespace LoaderConfig

/-- Half a minute, under the editor's own name. -/
def standard : LoaderConfig := ⟨30, "workflow-editor/0.2.0"⟩

instance : Inhabited LoaderConfig := ⟨standard⟩

def toValue (loader : LoaderConfig) : Value :=
  .ofFields [
    ("timeout_secs", some (.ofNat loader.timeoutSeconds.toNat)),
    ("user_agent", some (.string loader.userAgent))]

end LoaderConfig

namespace Representation

/-- The names by which configurations call the representations. -/
def tag : Representation → String
  | catalog => "catalog"
  | operatorList _ => "operator_list"

def toValue (representation : Representation) : Value :=
  .ofFields [
    ("kind", some (.string representation.tag)),
    ("schema_version", match representation with
      | catalog => none
      | operatorList version => some (.string version.name))]

end Representation

structure EditorConfig where
  serverUrl : String
  token : String
  definitions : Representation
  loader : LoaderConfig
  deriving DecidableEq

namespace EditorConfig

/-- A configuration with everything but server and token as it is by default. -/
def standard (serverUrl token : String) : EditorConfig :=
  ⟨serverUrl, token, default, .standard⟩

def toValue (config : EditorConfig) : Value :=
  .ofFields [
    ("server_url", some (.string config.serverUrl)),
    ("token", some (.string config.token)),
    ("definitions", some config.definitions.toValue),
    ("loader", some config.loader.toValue)]

end EditorConfig

end FlowContract
