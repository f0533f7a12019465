import FlowContract.Json.Reader
import FlowContract.Load.Failure
import FlowContract.Load.FileTree
import FlowContract.Load.Url

/-!
Fetching documents: what a URL leads to, from the web, from files or from memory.
-/

namespace FlowContract

open Json (Value)

/-- What lies outside: files and servers. -/
structure Surroundings (m : Type → Type) where
  readFile : String → m (Except FileError ByteArray)
  /-- The path of a file without detours. -/
  canonicalPath : String → m (Except FileError String)
  /-- The body of a server's answer. -/
  request : Url → m (Except LoadFailure ByteArray)

namespace Surroundings

/-- A tree of files seen from one of its directories, and no server that answers. -/
def ofFiles (root : FileTree) (current : List String) : Surroundings Id where
  readFile path := root.read current path
  canonicalPath path := root.canonical current path
  request url := .error (.transport s!"error sending request for url ({url.write})")

def fetchBytes {m : Type → Type} [Monad m] (surroundings : Surroundings m) (url : Url) :
    m (Except LoadFailure ByteArray) :=
  if url.scheme = "http" || url.scheme = "https" then surroundings.request url
  else if url.scheme = "file" then
    match url.filePath? with
    | none => pure (.error (.invalidUrl "not a local file path"))
    | some path => do
      let content ← surroundings.readFile path
      pure (content.mapError fun e => .unreadableFile s!"{path}: {e.message}")
  else pure (.error (.unsupportedScheme url.scheme))

def parseDocument (bytes : ByteArray) : Except LoadFailure Value :=
  (Value.ofBytes bytes).mapError fun e => .malformed e.message

def fetch {m : Type → Type} [Monad m] (surroundings : Surroundings m) (url : String) :
    m (Except LoadError Value) := do
  let result ← match Url.parse url with
    | .error e => pure (.error (.invalidUrl e.message))
    | .ok parsed => do
      let bytes ← surroundings.fetchBytes parsed
      pure (bytes.bind parseDocument)
  pure (result.mapError fun cause => ⟨url, cause⟩)

end Surroundings

/-- Documents in memory under their URLs. -/
structure DocumentStore where
  documents : SortedMap Value
  /-- How often a document has been asked for. -/
  fetches : Nat

namespace DocumentStore

def empty : DocumentStore := ⟨∅, 0⟩

/-- Puts a document under a URL, in place of one that may be there. -/
def insert (store : DocumentStore) (url : String) (document : Value) : DocumentStore :=
  { store with documents := store.documents.insert url document }

def remove (store : DocumentStore) (url : String) : DocumentStore :=
  { store with documents := store.documents.erase url }

def fetch (store : DocumentStore) (url : String) : Except LoadError Value :=
  match store.documents.find? url with
  | some document => .ok document
  | none => .error ⟨url, .transport "no document registered for this URL"⟩

/-- The store after a document has been asked for. -/
def count (store : DocumentStore) : DocumentStore := { store with fetches := store.fetches + 1 }

end DocumentStore

end FlowContract
