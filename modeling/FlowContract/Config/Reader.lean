import FlowContract.Config.Basic
import FlowContract.Config.Fault

/-!
Reading configurations from texts. Fields are taken in the order in which they are written, so the
first thing wrong in the text is what is reported. Fields that are not known are passed over.
-/

namespace FlowContract.Config

open Json (Symbol Syntax Key Ending Value Number Outline)

def readString : Syntax → Except Fault String
  | .scalar _ _ (.ok (.string value)) _ => .ok value
  | other => .error (unexpected "a string" other)

def readCount : Syntax → Except Fault UInt64
  | .scalar _ stop (.ok (.number (.integer value _ _))) _ =>
    if value < 0 then .error ⟨.wrongValue s!"integer `{value}`" "u64", .at stop⟩
    else .ok (UInt64.ofNat value.toNat)
  | other => .error (unexpected "u64" other)

/-- Takes a fault of the text as one of the configuration. -/
def ofText {α : Type} (result : Except Json.Fault α) : Except Fault α :=
  result.mapError .ofText

/-- Takes the members of a mapping in order. What a member adds depends on its name; the offset is
that behind the name. -/
def foldMembers {σ : Type} (add : σ → String → Nat → Syntax → Except Fault σ) :
    σ → List (Key × Syntax) → Except Fault σ
  | draft, [] => .ok draft
  | draft, (key, value) :: rest => do
    let name ← ofText key.reading
    let draft ← add draft name key.stop value
    foldMembers add draft rest

/-- Fills a field that may be given once. -/
def fillOnce {α : Type} (name : String) (stop : Nat) (held : Option α)
    (read : Except Fault α) : Except Fault (Option α) :=
  match held with
  | some _ => .error ⟨.duplicateField name, .leavingMapping stop⟩
  | none => read.map some

/-- The end of a mapping all of whose members have been taken: the place behind it. -/
def readEnding : Ending → Except Fault Nat
  | .closed stop => .ok stop
  | .broken defect => .error (.ofText defect.reading)

/-- Reads an element of a list of fields, if the list goes on so far. -/
def readElement {α : Type} (read : Syntax → Except Fault α) (items : List Syntax)
    (ending : Ending) (i : Nat) : Except Fault (Option α) :=
  match items[i]? with
  | some item => (read item).map some
  | none => (readEnding ending).map fun _ => none

/-- The end of a list of fields that have all been taken: nothing may follow. -/
def endFields (items : List Syntax) (ending : Ending) (count : Nat) : Except Fault Unit :=
  match items[count]?, ending with
  | some item, _ => .error ⟨.text .trailingCharacters, .at (item.start + 1)⟩
  | none, .closed _ => .ok ()
  | none, .broken defect => .error (.ofText defect.closing)

structure LoaderDraft where
  timeoutSeconds : Option UInt64
  userAgent : Option String

namespace LoaderDraft

def complete (draft : LoaderDraft) : LoaderConfig :=
  ⟨draft.timeoutSeconds.getD LoaderConfig.standard.timeoutSeconds,
    draft.userAgent.getD LoaderConfig.standard.userAgent⟩

def add (draft : LoaderDraft) (name : String) (stop : Nat) (value : Syntax) :
    Except Fault LoaderDraft := do
  if name = "timeout_secs" then
    let timeoutSeconds ← fillOnce name stop draft.timeoutSeconds (readCount value)
    pure { draft with timeoutSeconds }
  else if name = "user_agent" then
    let userAgent ← fillOnce name stop draft.userAgent (readString value)
    pure { draft with userAgent }
  else
    ofText value.skip
    pure draft

end LoaderDraft

def readLoader : Syntax → Except Fault LoaderConfig
  | .mapping _ members ending => do
    let draft ← foldMembers LoaderDraft.add ⟨none, none⟩ members
    let _ ← readEnding ending
    pure draft.complete
  | .list _ items ending => do
    let timeoutSeconds ← readElement readCount items ending 0
    let userAgent ← readElement readString items ending 1
    endFields items ending 2
    pure (LoaderDraft.complete ⟨timeoutSeconds, userAgent⟩)
  | other => .error (unexpected "struct LoaderConfig" other)

/-- The representations, before their details are known. -/
inductive Tag where
  | catalog
  | operatorList
  deriving DecidableEq

def readTag : Syntax → Except Fault Tag
  | .scalar _ stop (.ok (.string name)) _ =>
    if name = "catalog" then .ok .catalog
    else if name = "operator_list" then .ok .operatorList
    else .error ⟨.unknownVariant name "catalog" "operator_list", .at stop⟩
  | other => .error (unexpected "variant identifier" other)

/-- What is given of a representation besides its tag: members by name, or elements. -/
inductive Details where
  | members (members : List (String × Syntax))
  | items (items : List Syntax)

/-- Inside the configuration and the representation, so many lists and mappings may enclose one
another. -/
def detailNesting : Nat := Syntax.nestingLimit - 2

/-- A tag that may come at any place among the members, and the members besides it so far, the last
one first. -/
structure TaggedDraft where
  tag : Option Tag
  members : List (String × Syntax)

def TaggedDraft.add (draft : TaggedDraft) (name : String) (stop : Nat) (value : Syntax) :
    Except Fault TaggedDraft := do
  if name = "kind" then
    let tag ← fillOnce name stop draft.tag (readTag value)
    pure { draft with tag }
  else
    let _ ← ofText (value.read detailNesting)
    pure { draft with members := (name, value) :: draft.members }

/-- Reads the tag of a representation and what is given besides it, and the place behind. -/
def readTagged : Syntax → Except Fault (Tag × Details × Nat)
  | .mapping _ members ending => do
    let draft ← foldMembers TaggedDraft.add ⟨none, []⟩ members
    let stop ← readEnding ending
    match draft.tag with
    | some tag => pure (tag, .members draft.members.reverse, stop)
    | none => .error ⟨.missingField "kind", .at stop⟩
  | .list _ [] ending => do
    let stop ← readEnding ending
    .error ⟨.missingField "kind", .at stop⟩
  | .list _ (first :: rest) ending => do
    let tag ← readTag first
    let _ ← ofText (Syntax.readItems detailNesting rest)
    let stop ← readEnding ending
    pure (tag, .items rest, stop)
  | other => .error (unexpected "internally tagged enum DefinitionsVariant" other)

def versionOfName (name : String) : Except Problem SchemaVersion :=
  match SchemaVersion.ofName? name with
  | some version => .ok version
  | none => .error (.unknownVariant name "v1" "v2")

/-- Reads a schema version: its name, or a mapping from its name to nothing. -/
def readVersion : Syntax → Except Problem SchemaVersion
  | .scalar _ _ (.ok (.string name)) _ => versionOfName name
  | .mapping _ [(key, value)] _ => do
    let version ← versionOfName ((key.reading.toOption).getD "")
    match value with
    | .scalar _ _ (.ok .null) _ | .mapping _ [] _ => pure version
    | other => .error (.wrongType (describe other) "unit")
  | .mapping _ _ _ => .error (.wrongValue "map" "map with a single key")
  | other => .error (.wrongType (describe other) "string or map")

/-- Takes the schema version from the members of an operator list's representation. -/
def foldVersion : Option SchemaVersion → List (String × Syntax) →
    Except Problem (Option SchemaVersion)
  | held, [] => .ok held
  | held, (name, value) :: rest =>
    if name = "schema_version" then
      match held with
      | some _ => .error (.duplicateField name)
      | none => do
        let version ← readVersion value
        foldVersion (some version) rest
    else foldVersion held rest

/-- Puts a tag and its details together. A catalog has no details: a list may not hold any, while
members are passed over. -/
def assemble : Tag → Details → Except Problem Representation
  | .catalog, .members _ | .catalog, .items [] => .ok .catalog
  | .catalog, .items items => .error (.wrongLength items.length "0 elements in sequence")
  | .operatorList, .members members => do
    let version ← foldVersion none members
    pure (.operatorList (version.getD default))
  | .operatorList, .items [] => .ok (.operatorList default)
  | .operatorList, .items (first :: rest) => do
    let version ← readVersion first
    if rest.isEmpty then pure (.operatorList version)
    else .error (.wrongLength (rest.length + 1) "1 element in sequence")

/-- Reads a representation. Its details are judged when all of it has been read; what is wrong with
them is reported on the way out of what encloses it. -/
def readRepresentation (leaving : Nat → Place) (s : Syntax) : Except Fault Representation := do
  let (tag, details, stop) ← readTagged s
  (assemble tag details).mapError fun problem => ⟨problem, leaving stop⟩

structure Draft where
  serverUrl : Option String
  token : Option String
  definitions : Option Representation
  loader : Option LoaderConfig

namespace Draft

def add (draft : Draft) (name : String) (stop : Nat) (value : Syntax) : Except Fault Draft := do
  if name = "server_url" || name = "serverUrl" then
    let serverUrl ← fillOnce "server_url" stop draft.serverUrl (readString value)
    pure { draft with serverUrl }
  else if name = "token" then
    let token ← fillOnce name stop draft.token (readString value)
    pure { draft with token }
  else if name = "definitions" then
    let definitions ← fillOnce name stop draft.definitions
      (readRepresentation .leavingMapping value)
    pure { draft with definitions }
  else if name = "loader" then
    let loader ← fillOnce name stop draft.loader (readLoader value)
    pure { draft with loader }
  else
    ofText value.skip
    pure draft

/-- The configuration, if server and token are known. -/
def complete (draft : Draft) : Except Problem EditorConfig :=
  match draft.serverUrl, draft.token with
  | some serverUrl, some token =>
    .ok ⟨serverUrl, token, draft.definitions.getD default, draft.loader.getD default⟩
  | none, _ => .error (.missingField "server_url")
  | some _, none => .error (.missingField "token")

end Draft

/-- An element that a list of fields has to have. -/
def requireElement {α : Type} (ending : Ending) (i : Nat) : Option α → Except Fault α
  | some value => .ok value
  | none => do
    let stop ← readEnding ending
    .error ⟨.wrongLength i "struct EditorConfig with 4 elements", .at stop⟩

/-- Reads a configuration from the structure of a text. -/
def readConfig : Syntax → Except Fault EditorConfig
  | .mapping _ members ending => do
    let draft ← foldMembers Draft.add ⟨none, none, none, none⟩ members
    let stop ← readEnding ending
    draft.complete.mapError fun problem => ⟨problem, .at stop⟩
  | .list _ items ending => do
    let serverUrl ← readElement readString items ending 0
    let serverUrl ← requireElement ending 0 serverUrl
    let token ← readElement readString items ending 1
    let token ← requireElement ending 1 token
    let definitions ← readElement (readRepresentation .leavingList) items ending 2
    let loader ← readElement readLoader items ending 3
    endFields items ending 4
    pure ⟨serverUrl, token, definitions.getD default, loader.getD default⟩
  | other => .error (unexpected "struct EditorConfig" other)

/-- Reads a configuration from the whole of a text. -/
def ofOutline (outline : Outline) : Except Fault EditorConfig := do
  let config ← readConfig outline.root
  match outline.trailing with
  | none => pure config
  | some start => .error ⟨.text .trailingCharacters, .at (start + 1)⟩

end FlowContract.Config

namespace FlowContract

inductive ConfigError where
  /-- The file cannot be read. -/
  | unreadable (path message : String)
  /-- The text is no configuration. -/
  | malformed (message : String)
  /-- Nothing can be fetched with the configuration. -/
  | unusable (message : String)
  deriving DecidableEq

def ConfigError.message : ConfigError → String
  | unreadable path message => s!"Could not read config file '{path}': {message}"
  | malformed message => s!"Failed to parse config JSON: {message}"
  | unusable message => s!"Could not build HTTP client: {message}"

def EditorConfig.ofText (text : String) : Except ConfigError EditorConfig :=
  let input := Json.Symbol.ofString text
  (Config.ofOutline (.ofSymbols input)).mapError fun fault => .malformed (fault.message input)

end FlowContract
