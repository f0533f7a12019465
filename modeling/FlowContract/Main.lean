import FlowContract.CommandLine

/-!
The program: arguments, files and output streams around the command line. Servers are out of its
reach.
-/

namespace FlowContract.CommandLine

/-- What a failed operation on a file means. -/
def fileError : IO.Error → FileError
  | .noFileOrDirectory .. => .notFound
  | .permissionDenied .. => .denied
  | .inappropriateType .. => .isDirectory
  | .noSuchThing .. => .notFound
  | e => .other (toString e)

def attempt {α : Type} (action : IO α) : IO (Except FileError α) := do
  match ← action.toBaseIO with
  | .ok result => pure (.ok result)
  | .error e => pure (.error (fileError e))

def machine : Surroundings IO where
  readFile path := attempt (IO.FS.readBinFile path)
  canonicalPath path := attempt do
    let resolved ← IO.FS.realPath path
    pure resolved.toString
  request url := pure (.error (.transport s!"error sending request for url ({url.write})"))

end FlowContract.CommandLine

open FlowContract.CommandLine in
/-- Runs the tool on the arguments of the program; arguments that make no sense have the exit
code 2. -/
def main (arguments : List String) : IO UInt32 := do
  match parseArguments arguments with
  | none =>
    IO.eprintln "error: unexpected or missing arguments"
    pure 2
  | some invocation =>
    let start ← IO.monoMsNow
    let elapsed : IO String := do
      let now ← IO.monoMsNow
      pure s!"{now - start}ms"
    let output ← run machine elapsed invocation
    IO.print (Output.text output.stdout)
    IO.eprint (Output.text output.stderr)
    pure output.code.toUInt32
