import FlowContract.Proofs.CommandLine.Listing
import FlowContract.Proofs.Editor.WireText
import FlowContract.Proofs.Json.Bytes

/-!
The command line against the library. A run with a configuration that can be worked with and a
source that can be read comes down to reading the document and taking it into an editor with nothing
in it. Main statement: the run succeeds exactly if the document is read as definitions; it tells of
one that is refused what the report on it tells, and of one that is taken what it is made of and
what the editor then publishes.
-/

namespace FlowContract.CommandLine

open Json (Document Layout Number Numeral Syntax Value)

/-- What a run is configured with: a configuration from a file that can be worked with, or the
standard one. -/
def Configures (surroundings : Surroundings Id) : Option String → EditorConfig → Prop
  | none, config => config = .standard "" ""
  | some path, config =>
    EditorConfig.ofFile surroundings path = pure (.ok config) ∧ config.loader.isUsable = true

/-- A source that can be read, with its URL and its content. -/
structure Supplies (surroundings : Surroundings Id) (source url : String) (content : ByteArray) :
    Prop where
  resolves : resolveSource surroundings source = pure (.ok url)
  fetches : ∃ parsed, Url.parse url = .ok parsed ∧
    surroundings.fetchBytes parsed = pure (.ok content)

/-- What is shown of an editor that holds a document: what it publishes is read from it with the
document if that is found again in such a text, and never otherwise. -/
structure Shows (representation : Representation) (connection : Connection) (document : Value)
    (text : String) : Prop where
  survives : document.Survives → ∃ wire, Value.ofText text = .ok wire ∧
    wire.IsWire representation connection document .null
  only : ∀ wire, Value.ofText text = .ok wire →
    wire.get? representation.wireField = some document → document.Survives

def loadingLine (representation : Representation) (url : String) : String :=
  s!"Loading {representation.wireField} from: {url}"

def successLines (fetchTime totalTime : String) : List String :=
  ["", s!"Validation Successful! Fetched in {fetchTime}, total {totalTime}"]

/-- The head of what is written about a document that is refused. -/
def refusalLines (rejection : Rejection) (count : Nat) : List String :=
  ["", "Validation failed " ++ rejection.message]
    ++ rejection.alternatives.map (fun alternative => "  or " ++ alternative.message)
    ++ ["", s!"--- Validation Summary ({count} errors) ---"]

/-- The editor that a run starts with: nothing is in it, and it has the representation that is asked
for. -/
def newEditor (config : EditorConfig) (representation : Representation) : Editor :=
  .ofConfig { config with definitions := representation }

section Report

variable {invocation : Invocation} {document : Value} (config : EditorConfig)
  (printed : List String) (fetchTime totalTime : String)

theorem report_of_error {rejection : Rejection}
    (h : Definitions.parse invocation.representation document = .error rejection) :
    report invocation (newEditor config invocation.representation) document printed fetchTime
      totalTime = ⟨1, printed, rejectionLines invocation.representation document rejection⟩ := by
  have hparse : Definitions.parse
      (newEditor config invocation.representation).representation document = .error rejection := h
  have hassigned := (Editor.assign_of_error hparse).2
  simp only [report, hassigned]

theorem shows_indented {s : Snapshot} {connection : Connection} {representation : Representation}
    (h : s.Coherent connection representation) (hworkflow : s.workflow = none) :
    Shows representation connection s.definitions.raw s.toWire.indented := by
  have hwire := s.isWire_toWire
  rw [h.belongs, h.represents, hworkflow, Option.getD_none] at hwire
  exact ⟨fun hdocument => ⟨_, hwire.ofText_write Layout.blank_indented hdocument, hwire⟩,
    fun wire => hwire.survives_of_ofText Layout.blank_indented⟩

theorem report_of_ok {definitions : Definitions}
    (h : Definitions.parse invocation.representation document = .ok definitions) :
    ∃ state,
      Shows invocation.representation ⟨config.serverUrl, config.token⟩ document state ∧
      report invocation (newEditor config invocation.representation) document printed fetchTime
        totalTime = ⟨0, printed ++ successLines fetchTime totalTime
          ++ summaryLines definitions.parsed
          ++ (if invocation.printState then ["", state] else []) ++ [""], []⟩ := by
  obtain ⟨hcoherent, hdefinitions, hworkflow⟩ :=
    Editor.assign_start ⟨config.serverUrl, config.token⟩ h
  have hparse : Definitions.parse
      (newEditor config invocation.representation).representation document = .ok definitions := h
  have hassigned := (Editor.assign_of_ok hparse).2
  have hshows := shows_indented hcoherent hworkflow
  rw [hdefinitions, Definitions.raw_of_parse h] at hshows
  refine ⟨_, hshows, ?_⟩
  rw [← hdefinitions]
  simp only [report, hassigned]
  rfl

end Report

section Run

variable {surroundings : Surroundings Id} {elapsed : String} {invocation : Invocation}
  {config : EditorConfig} {url : String} {content : ByteArray}

theorem Configures.usable {configPath : Option String}
    (h : Configures surroundings configPath config) (representation : Representation) :
    { config with definitions := representation }.usable =
      .ok { config with definitions := representation } := by
  have hloader : config.loader.isUsable = true := by
    cases configPath with
    | none =>
      subst h
      decide
    | some path => exact h.2
  simp only [EditorConfig.usable, hloader, if_true]

theorem Supplies.fetch_eq {source : String} (h : Supplies surroundings source url content) :
    surroundings.fetch url =
      pure ((Surroundings.parseDocument content).mapError fun cause => ⟨url, cause⟩) := by
  obtain ⟨parsed, hparsed, hcontent⟩ := h.fetches
  simp only [Surroundings.fetch, hparsed, hcontent]
  rfl

/-- The configuration's own representation plays no part. -/
theorem run_eq (hconfig : Configures surroundings invocation.configPath config)
    (hsource : Supplies surroundings invocation.source url content) :
    run surroundings (pure elapsed) invocation =
      let printed := [loadingLine invocation.representation url]
      pure <| match Surroundings.parseDocument content with
        | .error cause => .failure printed (LoadError.message ⟨url, cause⟩)
        | .ok document =>
          report invocation (newEditor config invocation.representation) document printed elapsed
            elapsed := by
  have husable := hconfig.usable invocation.representation
  simp only [run]
  cases hpath : invocation.configPath with
  | none =>
    rw [hpath] at hconfig
    subst hconfig
    simp only [pure_bind, husable, hsource.resolves, hsource.fetch_eq]
    cases Surroundings.parseDocument content <;> rfl
  | some path =>
    rw [hpath] at hconfig
    simp only [hconfig.1, pure_bind, husable, hsource.resolves, hsource.fetch_eq]
    cases Surroundings.parseDocument content <;> rfl

theorem run_of_malformed (hconfig : Configures surroundings invocation.configPath config)
    (hsource : Supplies surroundings invocation.source url content) {e : Json.TextError}
    (h : Value.ofBytes content = .error e) :
    run surroundings (pure elapsed) invocation = pure (.failure
      [loadingLine invocation.representation url]
      (LoadError.message ⟨url, .malformed e.message⟩)) := by
  rw [run_eq hconfig hsource, Surroundings.parseDocument, h]
  rfl

theorem run_of_read (hconfig : Configures surroundings invocation.configPath config)
    (hsource : Supplies surroundings invocation.source url content) {document : Value}
    (h : Value.ofBytes content = .ok document) :
    run surroundings (pure elapsed) invocation = pure
      (report invocation (newEditor config invocation.representation) document
        [loadingLine invocation.representation url] elapsed elapsed) := by
  rw [run_eq hconfig hsource, Surroundings.parseDocument, h]
  rfl

theorem code_eq_zero_iff (hconfig : Configures surroundings invocation.configPath config)
    (hsource : Supplies surroundings invocation.source url content) :
    (run surroundings (pure elapsed) invocation).run.code = 0 ↔
      ∃ document definitions, Value.ofBytes content = .ok document ∧
        Definitions.parse invocation.representation document = .ok definitions := by
  cases hread : Value.ofBytes content with
  | error e =>
    rw [run_of_malformed hconfig hsource hread, Id.run_pure]
    simp [Output.failure]
  | ok document =>
    rw [run_of_read hconfig hsource hread, Id.run_pure]
    cases hparse : Definitions.parse invocation.representation document with
    | error rejection =>
      rw [report_of_error _ _ _ _ hparse]
      simp [hparse]
    | ok definitions =>
      obtain ⟨state, -, hreport⟩ := report_of_ok config _ _ _ hparse
      rw [hreport]
      simp [hparse]

/-- A run whose configuration can be worked with and whose source can be read. It succeeds exactly
if the content is read as a document and the document as definitions; a text that holds a document
is read exactly if it is not nested too deep and none of its numbers is out of range for the reader,
as some just below the largest double are. A document that is refused is told of by the first
rejection, which stands in the summary again, and by as many lines as the report on it counts. Of a
document that is taken all parts are named once and in order, and what is shown of the editor is
read back with this document wherever it survives its own text. -/
theorem verdict_matches_library (hconfig : Configures surroundings invocation.configPath config)
    (hsource : Supplies surroundings invocation.source url content) :
    let representation := invocation.representation
    let output := (run surroundings (pure elapsed) invocation).run
    let printed := [loadingLine representation url]
    (output.code = 0 ↔ ∃ document definitions, Value.ofBytes content = .ok document ∧
      Definitions.parse representation document = .ok definitions) ∧
    (∀ text written, content = text.toUTF8 → Document.SpelledBy written text →
      (output.code = 0 ↔ written.depth ≤ Syntax.nestingLimit ∧
        ∃ document definitions, written.value? = some document ∧
          Definitions.parse representation document = .ok definitions)) ∧
    (∀ document rejection, Value.ofBytes content = .ok document →
      Definitions.parse representation document = .error rejection →
      let report := Report.ofDefinitions representation document
      report.Accounts rejection ∧
        output = ⟨1, printed, refusalLines rejection report.errorCount ++ report.lines⟩) ∧
    ∀ document definitions, Value.ofBytes content = .ok document →
      Definitions.parse representation document = .ok definitions →
      ∃ lines state, Lists representation document lines ∧
        Shows representation ⟨config.serverUrl, config.token⟩ document state ∧
        output = ⟨0, printed ++ successLines elapsed elapsed ++ lines ++
          (if invocation.printState then ["", state] else []) ++ [""], []⟩ := by
  intro representation output printed
  have hcode : output.code = 0 ↔ ∃ document definitions, Value.ofBytes content = .ok document ∧
      Definitions.parse representation document = .ok definitions :=
    code_eq_zero_iff hconfig hsource
  have houtput {document : Value} (hread : Value.ofBytes content = .ok document) :
      output = report invocation (newEditor config representation) document printed elapsed
        elapsed :=
    congrArg Id.run (run_of_read hconfig hsource hread)
  refine ⟨hcode, ?_, ?_, ?_⟩
  · rintro text written rfl hwritten
    simp only [hcode, Value.ofBytes_toUTF8, hwritten.ofText_eq_ok_iff, and_assoc,
      exists_and_left]
  · intro document rejection hread hparse report
    refine ⟨(Definitions.explains representation document).accounts hparse, ?_⟩
    rw [houtput hread, report_of_error _ _ _ _ hparse]
    rfl
  · intro document definitions hread hparse
    obtain ⟨state, hshows, hreport⟩ := report_of_ok config _ _ _ hparse
    exact ⟨_, state, lists_of_parse hparse, hshows, (houtput hread).trans hreport⟩

/-- `17976931348623157081e289` is below the largest double, but scaling leads beyond it. -/
example : (⟨false, [1, 7, 9, 7, 6, 9, 3, 1, 3, 4, 8, 6, 2, 3, 1, 5, 7, 0, 8, 1], [],
    some (false, [2, 8, 9])⟩ : Numeral).value? = none := by decide +kernel

end Run

/-! ### A server with one answer -/

/-- A server that answers every request with the same content. -/
def serving (content : ByteArray) : Surroundings Id where
  readFile _ := pure (.error .notFound)
  canonicalPath _ := pure (.error .notFound)
  request _ := pure (.ok content)

/-- A request for a list of operators, to be shown as it is then published. -/
def listRequest : Invocation := ⟨"http://[::1]/", .operatorList .v2, none, true⟩

theorem supplies_serving (content : ByteArray) :
    Supplies (serving content) listRequest.source listRequest.source content :=
  ⟨rfl, _, rfl, rfl⟩

theorem configures_standard (content : ByteArray) :
    Configures (serving content) listRequest.configPath (.standard "" "") := rfl

/-- What the tool leaves when the answer is a text. -/
def listRun (text : String) : Output :=
  (run (serving text.toUTF8) (pure "1ms") listRequest).run

/-- A list of one operator, with a fragment in the schema of its input. -/
def listAround (fragment : Value) : Value :=
  let schema := .ofSorted [("maximum", fragment)] (show ["maximum"].Pairwise (· < ·) by decide)
  let input := .ofSorted
    [("name", .string "a"), ("schema", .mapping schema), ("type", .string "raster")]
    (show ["name", "schema", "type"].Pairwise (· < ·) by decide)
  let operator := .ofSorted
    [("inputs", .list [.mapping input]), ("outputType", .string "raster"), ("title", .string "T")]
    (show ["inputs", "outputType", "title"].Pairwise (· < ·) by decide)
  .list [.mapping operator]

/-- What the text of such a list holds. -/
def documentAround (fragment : Document) : Document :=
  let input := .mapping [("name", .string "a"), ("schema", .mapping [("maximum", fragment)]),
    ("type", .string "raster")]
  .list [.mapping [("inputs", .list [input]), ("outputType", .string "raster"),
    ("title", .string "T")]]

/-- The text of such a list, given that of the fragment. -/
def textAround (fragment : String) : String :=
  let mapping (depth : Nat) := Layout.compact.enclose depth "\x7b" "\x7d"
  let list (depth : Nat) := Layout.compact.enclose depth "[" "]"
  let string (name text : String) := Layout.compact.member name (Json.writeString text)
  let schema := mapping 4 [Layout.compact.member "maximum" fragment]
  let input := mapping 3
    [string "name" "a", Layout.compact.member "schema" schema, string "type" "raster"]
  list 0 [mapping 1 [Layout.compact.member "inputs" (list 2 [input]), string "outputType" "raster",
    string "title" "T"]]

theorem exists_parse_listAround (fragment : Value) : ∃ definitions,
    Definitions.parse listRequest.representation (listAround fragment) = .ok definitions :=
  ⟨_, rfl⟩

theorem depth_documentAround (fragment : Document) :
    (documentAround fragment).depth = fragment.depth + 5 := by
  simp [documentAround, Document.depth, Document.depthOfItems, Document.depthOfMembers]

theorem value?_documentAround {fragment : Document} {v : Value} (h : fragment.value? = some v) :
    (documentAround fragment).value? = some (listAround v) := by
  simp only [documentAround, Document.value?, Document.valuesOfMembers, Document.valuesOfItems, h,
    Option.bind_eq_bind, Option.bind_some, Option.map_some, pure, listAround,
    ← Value.ofPairs_of_sorted]

theorem document_listAround (fragment : Value) :
    (listAround fragment).document = documentAround fragment.document := by
  simp only [listAround, Value.document_list, Value.document_mapping, SortedMap.entries_ofSorted,
    List.map_cons, List.map_nil]
  rfl

theorem survives_listAround_iff {fragment : Value} : (listAround fragment).Survives ↔
    fragment.AllDoubles Json.Double.IsStable ∧
      fragment.document.depth + 5 < Syntax.nestingLimit := by
  have hdoubles : (listAround fragment).AllDoubles Json.Double.IsStable ↔
      fragment.AllDoubles Json.Double.IsStable := by
    simp only [listAround, Value.allDoubles_list_iff, Value.allDoubles_mapping_iff,
      SortedMap.entries_ofSorted, List.forall_mem_cons]
    simp [Value.AllDoubles]
  have hdepth : (listAround fragment).document.depth = fragment.document.depth + 5 := by
    rw [document_listAround, depth_documentAround]
  rw [← hdoubles, ← hdepth]
  exact ⟨fun h => ⟨h.doubles, h.depth⟩, fun h => ⟨h.1, h.2⟩⟩

theorem spelledBy_textAround {fragment : String} {written : Document}
    (h : written.Spelled fragment.toList) :
    (documentAround written).SpelledBy (textAround fragment) := by
  have hblank := Layout.blank_compact
  have hstring (text : String) := Json.spells_writeString text
  have hschema : (Document.mapping [("maximum", written)]).Spelled _ :=
    Document.spelled_enclosed_mapping hblank 4 (.cons ⟨_, rfl, h⟩ .nil)
  have hinput : (Document.mapping [("name", .string "a"),
      ("schema", .mapping [("maximum", written)]), ("type", .string "raster")]).Spelled _ :=
    Document.spelled_enclosed_mapping hblank 3 <| .cons ⟨_, rfl, hstring _⟩ <|
      .cons ⟨_, rfl, hschema⟩ <| .cons ⟨_, rfl, hstring _⟩ .nil
  exact Document.spelledBy_of_spelled <| Document.spelled_enclosed_list hblank 0 <| .cons
    (Document.spelled_enclosed_mapping hblank 1 <|
      .cons ⟨_, rfl, Document.spelled_enclosed_list hblank 2 (.cons hinput .nil)⟩ <|
      .cons ⟨_, rfl, hstring _⟩ <| .cons ⟨_, rfl, hstring _⟩ .nil) .nil

theorem ofBytes_textAround {fragment : String} {written : Document} {v : Value}
    (hspelled : written.Spelled fragment.toList)
    (hdepth : written.depth + 5 ≤ Syntax.nestingLimit) (hv : written.value? = some v) :
    Value.ofBytes (textAround fragment).toUTF8 = .ok (listAround v) := by
  rw [Value.ofBytes_toUTF8, (spelledBy_textAround hspelled).ofText_eq_ok_iff,
    depth_documentAround]
  exact ⟨hdepth, value?_documentAround hv⟩

/-- A list of one operator is taken, and is found again in what is shown. -/
theorem one_operator_is_taken :
    let text := textAround "null"
    Configures (serving text.toUTF8) listRequest.configPath (.standard "" "") ∧
      Supplies (serving text.toUTF8) listRequest.source listRequest.source text.toUTF8 ∧
      (listRun text).code = 0 ∧
      ∃ printed state wire, (listRun text).stdout = printed ++ ["", state, ""] ∧
        Value.ofText state = .ok wire ∧ wire.get? "definitions" = some (listAround .null) := by
  intro text
  have hconfig := configures_standard text.toUTF8
  have hsource := supplies_serving text.toUTF8
  have hnull : Document.null.Spelled "null".toList := (rfl : "null".toList = ['n', 'u', 'l', 'l'])
  have hread : Value.ofBytes text.toUTF8 = .ok (listAround .null) :=
    ofBytes_textAround hnull (by decide) rfl
  obtain ⟨definitions, hparse⟩ := exists_parse_listAround .null
  obtain ⟨lines, state, -, hshows, houtput⟩ :=
    (verdict_matches_library hconfig hsource).2.2.2 _ _ hread hparse
  have hrun : listRun text = _ := houtput
  obtain ⟨wire, hwire, hfields⟩ :=
    hshows.survives (survives_listAround_iff.mpr ⟨by simp [Value.AllDoubles], by decide⟩)
  refine ⟨hconfig, hsource, congrArg Output.code hrun,
    [loadingLine listRequest.representation listRequest.source] ++ successLines "1ms" "1ms"
      ++ lines, state, wire, ?_, hwire, hfields.document⟩
  rw [hrun]
  simp [listRequest]

/-! ### Documents that are not found again -/

/-- The tool takes a text and shows what is published, but whoever reads this does not find the
document in it. -/
def Loses (text : String) : Prop :=
  ∃ document printed state, Value.ofBytes text.toUTF8 = .ok document ∧ (listRun text).code = 0 ∧
    (listRun text).stdout = printed ++ ["", state, ""] ∧
    ∀ wire, Value.ofText state = .ok wire → wire.get? "definitions" ≠ some document

/-- A text holds a document that the representation takes, but the tool does not. -/
def Overlooks (text : String) : Prop :=
  ∃ written document definitions, Document.SpelledBy written text ∧
    written.value? = some document ∧
    Definitions.parse listRequest.representation document = .ok definitions ∧
    (listRun text).code ≠ 0

theorem loses_textAround {fragment : String} {written : Document} {v : Value}
    (hspelled : written.Spelled fragment.toList)
    (hdepth : written.depth + 5 ≤ Syntax.nestingLimit) (hv : written.value? = some v)
    (hlost : v.AllDoubles Json.Double.IsStable → Syntax.nestingLimit ≤ v.document.depth + 5) :
    Loses (textAround fragment) := by
  have hread := ofBytes_textAround hspelled hdepth hv
  obtain ⟨definitions, hparse⟩ := exists_parse_listAround v
  obtain ⟨state, hshows, hreport⟩ := report_of_ok (.standard "" "")
    [loadingLine listRequest.representation listRequest.source] "1ms" "1ms" hparse
  have hrun : listRun (textAround fragment) = _ :=
    congrArg Id.run (run_of_read (configures_standard _) (supplies_serving _) hread)
  rw [Id.run_pure, hreport] at hrun
  refine ⟨_, [loadingLine listRequest.representation listRequest.source]
    ++ successLines "1ms" "1ms" ++ summaryLines definitions.parsed, state, hread,
    congrArg Output.code hrun, ?_, ?_⟩
  · rw [hrun]
    simp [listRequest]
  · intro wire hwire hget
    obtain ⟨hdoubles, hroom⟩ := survives_listAround_iff.mp (hshows.only wire hwire hget)
    exact Nat.not_le.mpr hroom (hlost hdoubles)

theorem overlooks_textAround {fragment : String} {written : Document} {v : Value}
    (hspelled : written.Spelled fragment.toList)
    (hdepth : Syntax.nestingLimit < written.depth + 5) (hv : written.value? = some v) :
    Overlooks (textAround fragment) := by
  obtain ⟨definitions, hparse⟩ := exists_parse_listAround v
  have htext := spelledBy_textAround hspelled
  refine ⟨_, _, definitions, htext, value?_documentAround hv, hparse, fun hcode => ?_⟩
  obtain ⟨document, -, hread, -⟩ :=
    (code_eq_zero_iff (configures_standard _) (supplies_serving _)).mp hcode
  rw [Value.ofBytes_toUTF8, htext.ofText_eq_ok_iff, depth_documentAround] at hread
  exact Nat.not_le.mpr hdepth hread.1

/-- The double that is read from `30e22`, and the one below. -/
def unstable : Double := ⟨false, 0x44cfc3842bd1f072, by decide⟩

def belowUnstable : Double := ⟨false, 0x44cfc3842bd1f071, by decide⟩

theorem spelled_scientific (whole exponent : List Nat) {sign : List Char} {value : Option Number}
    (hwhole : Numeral.IsWhole whole) (hexponent : Numeral.AreDigits exponent)
    (hsign : sign = [] ∨ sign = ['+'])
    (hvalue : (⟨false, whole, [], some (false, exponent)⟩ : Numeral).value? = value) :
    (Document.number value).Spelled
      (Numeral.digitText whole ++ 'e' :: sign ++ Numeral.digitText exponent) := by
  refine ⟨_, ⟨hwhole, [], 'e' :: sign ++ Numeral.digitText exponent, .inl ⟨rfl, rfl⟩, ?_, ?_⟩,
    hvalue⟩
  · exact ⟨hexponent, 'e', sign, .inl rfl, hsign, rfl⟩
  · simp

theorem spelled_unstable :
    (Document.number (some (.double unstable))).Spelled "30e22".toList := by
  refine spelled_scientific [3, 0] [2, 2] ?_ ?_ (.inl rfl) ?_
  · simp [Numeral.IsWhole, Numeral.AreDigits]
  · simp [Numeral.AreDigits]
  · decide +kernel

theorem spelled_belowUnstable : (Document.number (some (.double belowUnstable))).Spelled
    (Number.double unstable).write.toList := by
  have hwrite : (Number.double unstable).write = "3e+23" := by decide +kernel
  rw [hwrite]
  refine spelled_scientific [3] [2, 3] ?_ ?_ (.inr rfl) ?_
  · simp [Numeral.IsWhole, Numeral.AreDigits]
  · simp [Numeral.AreDigits]
  · decide +kernel

theorem not_isStable_unstable : ¬ Json.Double.IsStable unstable := by
  rw [Json.Double.IsStable, Number.reread_of_spelled spelled_belowUnstable]
  decide

/-- Lists in lists. -/
def nestedLists : Nat → Value
  | 0 => .list []
  | n + 1 => .list [nestedLists n]

theorem depth_nestedLists (n : Nat) : (nestedLists n).document.depth = n + 1 := by
  induction n with
  | zero => rfl
  | succ n ih => simp [nestedLists, Value.document_list, Document.depth, Document.depthOfItems, ih]

theorem allDoubles_nestedLists (holds : Double → Prop) (n : Nat) :
    (nestedLists n).AllDoubles holds := by
  induction n with
  | zero => simp [nestedLists, Value.allDoubles_list_iff]
  | succ n ih => simpa [nestedLists, Value.allDoubles_list_iff] using ih

theorem value?_nestedLists (n : Nat) : (nestedLists n).document.value? = some (nestedLists n) :=
  (Value.value?_document_eq_self_iff _).mpr (allDoubles_nestedLists _ n)

/-- What is shown does not hold the document where a double changes when it is written and read, or
where the mapping around the document is one too many; and a document that is itself nested too deep
is not taken. -/
theorem tool_loses_and_overlooks_documents :
    Loses (textAround "30e22") ∧ Loses (textAround (nestedLists 121).compact) ∧
      Overlooks (textAround (nestedLists 122).compact) := by
  have hspelled (n : Nat) := (nestedLists n).spelled_write Layout.blank_compact 0
  refine ⟨?_, ?_, ?_⟩
  · exact loses_textAround spelled_unstable (by decide) rfl
      fun hstable => absurd hstable not_isStable_unstable
  · refine loses_textAround (hspelled 121) ?_ (value?_nestedLists 121) fun _ => ?_
    · rw [depth_nestedLists, Syntax.nestingLimit]
    · rw [depth_nestedLists, Syntax.nestingLimit]
  · refine overlooks_textAround (hspelled 122) ?_ (value?_nestedLists 122)
    rw [depth_nestedLists, Syntax.nestingLimit]
    decide

end FlowContract.CommandLine
