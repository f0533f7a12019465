import FlowContract.Config.Reader
import FlowContract.Load.Fetch

/-!
Configurations in files, and which of them a program can work with.
-/

namespace FlowContract

namespace LoaderConfig

/-- Whether requests can be made under the configured name: it may not hold control characters
other than tabs. -/
def isUsable (loader : LoaderConfig) : Bool :=
  loader.userAgent.toList.all fun c => c == '\t' || (0x20 ≤ c.toNat && c.toNat != 0x7f)

end LoaderConfig

namespace EditorConfig

def ofContent (path : String) (content : Except FileError ByteArray) :
    Except ConfigError EditorConfig :=
  match content with
  | .error e => .error (.unreadable path e.message)
  | .ok bytes =>
    match String.fromUTF8? bytes with
    | none => .error (.unreadable path "stream did not contain valid UTF-8")
    | some text => ofText text

def ofFile {m : Type → Type} [Monad m] (surroundings : Surroundings m) (path : String) :
    m (Except ConfigError EditorConfig) := do
  let content ← surroundings.readFile path
  pure (ofContent path content)

/-- A configuration with which documents can be fetched. -/
def usable (config : EditorConfig) : Except ConfigError EditorConfig :=
  if config.loader.isUsable then .ok config else .error (.unusable "builder error")

end EditorConfig

end FlowContract
