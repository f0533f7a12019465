/-!
Why a document could not be fetched.
-/

namespace FlowContract

/-- The causes for which no document is there. -/
inductive LoadFailure where
  | invalidUrl (reason : String)
  | unsupportedScheme (scheme : String)
  | transport (reason : String)
  /-- The server answered, but not with a document. -/
  | status (code : Nat)
  | unreadableFile (reason : String)
  /-- What was fetched is no document. -/
  | malformed (reason : String)
  deriving DecidableEq

namespace LoadFailure

def message : LoadFailure → String
  | invalidUrl reason => s!"invalid URL: {reason}"
  | unsupportedScheme scheme => s!"no handler for URL scheme '{scheme}'"
  | transport reason => s!"transport error: {reason}"
  | status code => s!"server answered with status {code}"
  | unreadableFile reason => s!"could not read file: {reason}"
  | malformed reason => s!"response is not valid JSON: {reason}"

end LoadFailure

/-- A document that could not be fetched, and why. -/
structure LoadError where
  url : String
  cause : LoadFailure
  deriving DecidableEq

def LoadError.message (e : LoadError) : String :=
  s!"failed to load '{e.url}': {e.cause.message}"

end FlowContract
