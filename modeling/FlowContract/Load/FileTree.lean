import FlowContract.SortedMap

/-!
Files under names: how a path is followed through directories, and what is found at its end.
-/

namespace FlowContract

/-- Why a file cannot be had. -/
inductive FileError where
  | notFound
  | notDirectory
  | isDirectory
  | nameTooLong
  | nulInName
  | denied
  /-- Any other reason, in the words of the system. -/
  | other (reason : String)
  deriving DecidableEq

def FileError.message : FileError → String
  | notFound => "No such file or directory (os error 2)"
  | denied => "Permission denied (os error 13)"
  | notDirectory => "Not a directory (os error 20)"
  | isDirectory => "Is a directory (os error 21)"
  | nameTooLong => "File name too long (os error 36)"
  | nulInName => "file name contained an unexpected NUL byte"
  | other reason => reason

/-- A file, or a directory with what is in it. -/
inductive FileTree where
  | file (content : ByteArray)
  | directory (entries : SortedMap FileTree)

namespace FileTree

def empty : FileTree := directory ∅

/-- What stands under a name, where names can stand. -/
def child? : FileTree → String → Except FileError FileTree
  | file _, _ => .error .notDirectory
  | directory entries, name =>
    if 255 < name.utf8ByteSize then .error .nameTooLong
    else
      match entries.find? name with
      | some tree => .ok tree
      | none => .error .notFound

/-- Follows names from the top. -/
def descend (tree : FileTree) : List String → Except FileError FileTree
  | [] => .ok tree
  | name :: rest => do
    let next ← tree.child? name
    next.descend rest

/-- Puts a file under a chain of names; directories on the way are made as they are needed. -/
def write (content : ByteArray) : List String → FileTree → FileTree
  | [], _ => file content
  | name :: rest, directory entries =>
    directory (entries.insert name (write content rest ((entries.find? name).getD empty)))
  | name :: rest, file _ => directory (SortedMap.ofList [(name, write content rest empty)])

/-- Makes a directory under a chain of names. -/
def makeDirectory : List String → FileTree → FileTree
  | [], directory entries => directory entries
  | [], file _ => empty
  | name :: rest, directory entries =>
    directory (entries.insert name (makeDirectory rest ((entries.find? name).getD empty)))
  | name :: rest, file _ => directory (SortedMap.ofList [(name, makeDirectory rest empty)])

/-- The steps that a path spells. A slash at the end asks for a directory, as a point does. -/
def steps (path : String) : List String :=
  let parts := path.splitOn "/"
  let names := parts.filter (· != "")
  if parts.getLast? == some "" && !names.isEmpty then names ++ ["."] else names

/-- Follows the steps of a path; the place so far is a chain of names from the top. -/
def walk (root : FileTree) (here : List String) : List String → Except FileError (List String)
  | [] => .ok here
  | step :: rest => do
    match ← root.descend here with
    | file _ => .error .notDirectory
    | directory _ => pure ()
    if step = "." then walk root here rest
    else if step = ".." then walk root here.dropLast rest
    else
      let next := here ++ [step]
      let _ ← root.descend next
      walk root next rest

/-- How many bytes a path may have. -/
def longestPath : Nat := 4095

/-- Where a path leads, seen from a directory. -/
def locate (root : FileTree) (current : List String) (path : String) :
    Except FileError (List String) :=
  if path.isEmpty then .error .notFound
  else if path.toList.contains '\x00' then .error .nulInName
  else if longestPath < path.utf8ByteSize then .error .nameTooLong
  else walk root (if path.startsWith "/" then [] else current) (steps path)

/-- The content of the file to which a path leads. -/
def read (root : FileTree) (current : List String) (path : String) :
    Except FileError ByteArray := do
  let place ← root.locate current path
  match ← root.descend place with
  | file content => pure content
  | directory _ => .error .isDirectory

/-- A path without detours: the place as a chain of names from the top. -/
def canonical (root : FileTree) (current : List String) (path : String) :
    Except FileError String := do
  let place ← root.locate current path
  pure ("/" ++ "/".intercalate place)

end FileTree

end FlowContract
