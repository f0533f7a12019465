import FlowContract.Config.Basic
import FlowContract.Json.Printer

/-!
The text of a configuration. Its fields come out in the order in which they are declared, not in
that of their names.
-/

namespace FlowContract

open Json (Layout)

def LoaderConfig.write (layout : Layout) (depth : Nat) (loader : LoaderConfig) : String :=
  layout.enclose depth "\x7b" "\x7d" [
    layout.member "timeout_secs" (Json.Number.ofNat loader.timeoutSeconds.toNat).write,
    layout.member "user_agent" (Json.writeString loader.userAgent)]

/-- The tag stands in front of what else is known of a representation. -/
def Representation.write (layout : Layout) (depth : Nat) (representation : Representation) :
    String :=
  layout.enclose depth "\x7b" "\x7d" <|
    layout.member "kind" (Json.writeString representation.tag) ::
      match representation with
      | .catalog => []
      | .operatorList version => [layout.member "schema_version" (Json.writeString version.name)]

def EditorConfig.write (layout : Layout) (config : EditorConfig) : String :=
  layout.enclose 0 "\x7b" "\x7d" [
    layout.member "server_url" (Json.writeString config.serverUrl),
    layout.member "token" (Json.writeString config.token),
    layout.member "definitions" (config.definitions.write layout 1),
    layout.member "loader" (config.loader.write layout 1)]

end FlowContract
