import FlowContract.Config.File
import FlowContract.Definitions.Report
import FlowContract.Editor.State
import FlowContract.Json.Printer

/-!
The command line: loads a definitions document, checks it and lists what is in it.
-/

namespace FlowContract.CommandLine

open Json (Value)

/-- What the tool is asked to do. -/
structure Invocation where
  /-- A URL or the path of a file. -/
  source : String
  representation : Representation
  configPath : Option String
  printState : Bool
  deriving DecidableEq

/-- Arguments as far as they are known. -/
structure Draft where
  source : Option String
  variant : Option String
  schemaVersion : Option String
  configPath : Option String
  printState : Bool

namespace Draft

/-- Gives an option its value; options are given once. -/
def set? (draft : Draft) (option value : String) : Option Draft :=
  if option = "--variant" || option = "-v" then
    if draft.variant.isNone then some { draft with variant := some value } else none
  else if option = "--schema-version" then
    if draft.schemaVersion.isNone then some { draft with schemaVersion := some value } else none
  else if option = "--config" || option = "-c" then
    if draft.configPath.isNone then some { draft with configPath := some value } else none
  else none

/-- Takes an argument that belongs to no option. -/
def place? (draft : Draft) (argument : String) : Option Draft :=
  if draft.source.isNone then some { draft with source := some argument } else none

/-- What the arguments ask for. A catalog is checked, and the second schema version applies, unless
something else is said. -/
def complete? (draft : Draft) : Option Invocation := do
  let source ← draft.source
  let version ← match draft.schemaVersion with
    | none => some .v2
    | some name => SchemaVersion.ofName? name
  let representation ← match draft.variant with
    | none | some "catalog" => some Representation.catalog
    | some "operator-list" => some (.operatorList version)
    | some _ => none
  pure ⟨source, representation, draft.configPath, draft.printState⟩

end Draft

/-- An option with its value behind an equals sign, or directly behind a letter. -/
def attached? (argument : String) : Option (String × String) :=
  let letters := argument.toList
  if argument.startsWith "--" then
    let name := letters.takeWhile (· != '=')
    if name.length < letters.length then
      some (String.ofList name, String.ofList (letters.drop (name.length + 1)))
    else none
  else
    match letters with
    | '-' :: letter :: first :: rest =>
      let value := if first == '=' then rest else first :: rest
      some (String.ofList ['-', letter], String.ofList value)
    | _ => none

/-- Takes arguments in order; behind two dashes nothing is an option. -/
def takeArguments (plain : Bool) : Draft → List String → Option Draft
  | draft, [] => some draft
  | draft, argument :: rest =>
    if plain || !argument.startsWith "-" || argument = "-" then do
      let draft ← draft.place? argument
      takeArguments plain draft rest
    else if argument = "--" then takeArguments true draft rest
    else if argument = "--print-state" then
      if draft.printState then none
      else takeArguments plain { draft with printState := true } rest
    else
      match attached? argument with
      | some (option, value) => do
        let draft ← draft.set? option value
        takeArguments plain draft rest
      | none =>
        match rest with
        | value :: rest => do
          let draft ← draft.set? argument value
          takeArguments plain draft rest
        | [] => none

/-- What a list of arguments asks for, if it is well-formed. -/
def parseArguments (arguments : List String) : Option Invocation :=
  (takeArguments false ⟨none, none, none, none, false⟩ arguments).bind Draft.complete?

/-- What a run leaves: the exit code, and the lines it has written. -/
structure Output where
  code : UInt8
  stdout : List String
  stderr : List String
  deriving DecidableEq

namespace Output

/-- Lines as text, each with its end. -/
def text (lines : List String) : String := String.join (lines.map (· ++ "\n"))

/-- A run that ends early, after some lines. -/
def failure (printed : List String) (message : String) : Output :=
  ⟨1, printed, ["", "Error: " ++ message]⟩

end Output

/-- The URL of a source. What is a URL already stays as it is; a path is made absolute. -/
def resolveSource {m : Type → Type} [Monad m] (surroundings : Surroundings m)
    (source : String) : m (Except String String) :=
  match Url.parse source with
  | .ok _ => pure (.ok source)
  | .error _ => do
    match ← surroundings.canonicalPath source with
    | .error e => pure (.error s!"Cannot resolve '{source}': {e.message}")
    | .ok path => pure (.ok (Url.ofFilePath path))

/-- What is written about a document that was rejected. -/
def rejectionLines (representation : Representation) (document : Value) (rejection : Rejection) :
    List String :=
  let report := Report.ofDefinitions representation document
  ["", "Validation failed " ++ rejection.message]
    ++ rejection.alternatives.map (fun alternative => "  or " ++ alternative.message)
    ++ ["", s!"--- Validation Summary ({report.errorCount} errors) ---"]
    ++ report.lines

/-- What is written about a catalog: its operators, then its datatypes. -/
def catalogLines (catalog : Catalog) : List String :=
  [s!"Operators: {catalog.operators.length}"]
    ++ catalog.operators.map (fun (id, operator) =>
      s!"  -> {id} ({operator.typeTag}): {operator.shownTitle}")
    ++ [s!"Datatypes: {catalog.datatypes.length}"]
    ++ catalog.datatypes.map (fun (id, datatype) =>
      s!"  -> {id} = " ++ " | ".intercalate datatype.variantNames)

/-- What is written about a list of operators. -/
def operatorListLines (list : DescriptorList) : List String :=
  s!"Operators ({list.version.name}): {list.size}"
    :: list.operators.map fun operator => s!"  -> {operator.title} -> {operator.outputType.name}"

/-- What is written about definitions that were taken. -/
def summaryLines : ParsedDefinitions → List String
  | .catalog document => catalogLines document.definitions
  | .operatorList list => operatorListLines list

/-- Checks a document that was fetched, and writes what is found. The times are those that fetching
and all of the work have taken. -/
def report (invocation : Invocation) (editor : Editor) (document : Value) (printed : List String)
    (fetchTime totalTime : String) : Output :=
  let assigned := editor.assign document
  match assigned.result with
  | .error rejection =>
    ⟨1, printed, rejectionLines invocation.representation document rejection⟩
  | .ok _ =>
    let snapshot := assigned.editor.snapshot
    let times :=
      ["", s!"Validation Successful! Fetched in {fetchTime}, total {totalTime}"]
    let state := if invocation.printState then ["", snapshot.toWire.indented] else []
    ⟨0, printed ++ times ++ summaryLines snapshot.definitions.parsed ++ state ++ [""], []⟩

/-- Runs the tool. The configuration's own representation gives way to the one asked for; `elapsed`
tells the time since the run has begun. -/
def run {m : Type → Type} [Monad m] (surroundings : Surroundings m) (elapsed : m String)
    (invocation : Invocation) : m Output := do
  let config ← match invocation.configPath with
    | none => pure (.ok (EditorConfig.standard "" ""))
    | some path => EditorConfig.ofFile surroundings path
  match config with
  | .error e => pure (.failure [] ("Failed to load config: " ++ e.message))
  | .ok config =>
    let config := { config with definitions := invocation.representation }
    match config.usable with
    | .error e => pure (.failure [] ("Failed to create loader: " ++ e.message))
    | .ok config =>
      match ← resolveSource surroundings invocation.source with
      | .error message => pure (.failure [] message)
      | .ok url =>
        let printed := [s!"Loading {invocation.representation.wireField} from: {url}"]
        let fetched ← surroundings.fetch url
        let fetchTime ← elapsed
        match fetched with
        | .error e => pure (.failure printed e.message)
        | .ok document =>
          let totalTime ← elapsed
          pure (report invocation (.ofConfig config) document printed fetchTime totalTime)

end FlowContract.CommandLine
