import FlowContract.Json.Token

/-!
The structure of a text: what encloses what, in the order in which it is written, with the places
that messages refer to. A text that breaks off has a structure too; the place where it does so is
part of it, and what is reported there is left to the reader.
-/

namespace FlowContract.Json

inductive Ending where
  /-- With its closing bracket, behind which reading goes on. -/
  | closed (stop : Nat)
  /-- It does not. -/
  | broken (defect : Defect)

/-- A key of a mapping, and the place behind it. -/
structure Key where
  reading : Except Fault String
  stop : Nat

/-- The structure of a value in a text. -/
inductive Syntax where
  | scalar (start stop : Nat) (reading : Except Fault Value) (skipping : Except Fault Unit)
  | list (start : Nat) (items : List Syntax) (ending : Ending)
  /-- Keys may repeat. -/
  | mapping (start : Nat) (members : List (Key × Syntax)) (ending : Ending)
  /-- No value stands where one has to. -/
  | missing (start : Nat) (defect : Defect)

def Syntax.start : Syntax → Nat
  | .scalar start _ _ _ | .list start _ _ | .mapping start _ _ | .missing start _ => start

/-- A list or mapping whose end has not been reached; members in reverse order. -/
inductive Frame where
  | list (start : Nat) (items : List Syntax)
  | mapping (start : Nat) (members : List (Key × Syntax))
  /-- A mapping whose last key waits for its value. -/
  | keyed (start : Nat) (members : List (Key × Syntax)) (key : Key)

/-- The value of a frame that ends. -/
def Frame.finish (ending : Ending) : Frame → Syntax
  | .list start items => .list start items.reverse ending
  | .mapping start members | .keyed start members _ => .mapping start members.reverse ending

/-- What may follow. -/
inductive Expected where
  /-- A value: at the start of the text or behind a colon. -/
  | value
  /-- The first element of a list, or its end. -/
  | firstItem
  /-- An element of a list, behind a comma. -/
  | item
  /-- The first key of a mapping, or its end. -/
  | firstKey
  /-- A key of a mapping, behind a comma. -/
  | key
  /-- The colon behind a key. -/
  | colon (key : Key)
  /-- A comma or the end of what encloses the value before. -/
  | continuation

/-- The structure of a text so far. -/
inductive Progress where
  /-- Inside the given frames, the innermost one first. -/
  | within (frames : List Frame) (expected : Expected)
  /-- The value is complete, or broken off. -/
  | complete (root : Syntax)
  /-- Something stands behind the complete value. -/
  | followed (root : Syntax) (start : Nat)

namespace Progress

/-- Puts a value where it belongs. -/
def place (value : Syntax) : List Frame → Progress
  | [] => .complete value
  | .list start items :: frames => .within (.list start (value :: items) :: frames) .continuation
  | .keyed start members key :: frames =>
    .within (.mapping start ((key, value) :: members) :: frames) .continuation
  | .mapping start members :: frames =>
    .within (.mapping start members :: frames) .continuation

/-- A value at which a text breaks off, inside everything that encloses it. -/
def abandon (defect : Defect) (value : Syntax) : List Frame → Syntax
  | [] => value
  | .list start items :: frames =>
    abandon defect (.list start (value :: items).reverse (.broken defect)) frames
  | .keyed start members key :: frames =>
    abandon defect (.mapping start ((key, value) :: members).reverse (.broken defect)) frames
  | .mapping start members :: frames =>
    abandon defect (.mapping start members.reverse (.broken defect)) frames

/-- A text that breaks off inside the innermost frame, not at a value. -/
def breakOff (start : Nat) (defect : Defect) : List Frame → Syntax
  | [] => .missing start defect
  | frame :: frames => abandon defect (frame.finish (.broken defect)) frames

/-- The defect of a text that ends too soon. -/
def endDefect (stop : Nat) : List Frame → Expected → Defect
  | _, .value => .same .endInValue stop
  | _, .firstItem => .same .endInList stop
  | _, .item => ⟨⟨.endInValue, stop⟩, ⟨.endInValue, stop⟩, ⟨.trailingCharacters, stop⟩⟩
  | _, .key => ⟨⟨.endInValue, stop⟩, ⟨.endInMapping, stop⟩, ⟨.endInMapping, stop⟩⟩
  | .list _ _ :: _, .continuation => .same .endInList stop
  | _, _ => .same .endInMapping stop

/-- The defect of a token that must not stand where it does. Readers notice it by its first
byte. -/
def tokenDefect (t : Token) : List Frame → Expected → Defect
  | _, .item =>
    let seen := t.start + 1
    if t.closesList then
      ⟨⟨.trailingComma, seen⟩, ⟨.valueExpected, seen⟩, ⟨.trailingComma, seen⟩⟩
    else ⟨⟨.valueExpected, seen⟩, ⟨.valueExpected, seen⟩, ⟨.trailingCharacters, seen⟩⟩
  | _, .value | _, .firstItem => .same .valueExpected (t.start + 1)
  | _, .key =>
    let seen := t.start + 1
    let problem := if t.closesMapping then Problem.trailingComma else .keyNotString
    ⟨⟨problem, seen⟩, ⟨.keyNotString, seen⟩, ⟨.keyNotString, seen⟩⟩
  | _, .firstKey => .same .keyNotString (t.start + 1)
  | _, .colon _ => .same .colonExpected (t.start + 1)
  | .list _ _ :: _, .continuation =>
    let seen := t.start + 1
    ⟨⟨.commaOrListEndExpected, seen⟩, ⟨.commaOrListEndExpected, seen⟩,
      ⟨.trailingCharacters, seen⟩⟩
  | _, .continuation => .same .commaOrMappingEndExpected (t.start + 1)

/-- The structure after a token at which a value may begin. -/
def beginValue (frames : List Frame) (expected : Expected) (t : Token) : Progress :=
  match t.lexeme with
  | .beginList => .within (.list t.start [] :: frames) .firstItem
  | .beginMapping => .within (.mapping t.start [] :: frames) .firstKey
  | .scalar _ reading skipping =>
    let value := Syntax.scalar t.start t.stop reading skipping
    match skipping with
    | .ok () => place value frames
    | .error fault => .complete (abandon (.same fault.problem fault.offset) value frames)
  | _ =>
    let defect := tokenDefect t frames expected
    .complete <| match expected with
      | .value => abandon defect (.missing t.start defect) frames
      | _ => breakOff t.start defect frames

/-- The structure after a token at which a key may stand. -/
def beginKey (frames : List Frame) (expected : Expected) (t : Token) : Progress :=
  match t.lexeme with
  | .scalar true reading skipping =>
    let text := reading.map fun value => value.string?.getD ""
    match skipping with
    | .ok () => .within frames (.colon ⟨text, t.stop⟩)
    | .error fault =>
      let read : Fault := match text with
        | .ok _ => fault
        | .error fault => fault
      .complete (breakOff t.start ⟨read, fault, fault⟩ frames)
  | _ => .complete (breakOff t.start (tokenDefect t frames expected) frames)

/-- The structure after a closing bracket of the innermost frame. -/
def close (stop : Nat) : List Frame → Progress
  | [] => .within [] .value
  | frame :: frames => place (frame.finish (.closed stop)) frames

/-- Gives the innermost mapping its next key. -/
def openKey (key : Key) : List Frame → List Frame
  | .mapping start members :: frames => .keyed start members key :: frames
  | frames => frames

def step : Progress → Token → Progress
  | .complete root, t => .followed root t.start
  | .followed root start, _ => .followed root start
  | .within frames expected, t =>
    match expected with
    | .value | .item => beginValue frames expected t
    | .firstItem => if t.closesList then close t.stop frames else beginValue frames expected t
    | .key => beginKey frames expected t
    | .firstKey => if t.closesMapping then close t.stop frames else beginKey frames expected t
    | .colon key =>
      match t.lexeme with
      | .colon => .within (openKey key frames) .value
      | _ =>
        let defect := tokenDefect t frames expected
        .complete (abandon defect (.missing t.start defect) (openKey key frames))
    | .continuation =>
      match t.lexeme, frames with
      | .comma, .list _ _ :: _ => .within frames .item
      | .comma, _ => .within frames .key
      | .endList, .list _ _ :: _ => close t.stop frames
      | .endMapping, .mapping _ _ :: _ => close t.stop frames
      | _, _ => .complete (breakOff t.start (tokenDefect t frames expected) frames)

/-- The structure of a text that has ended, with the start of what stands behind its value. -/
def finish (stop : Nat) : Progress → Syntax × Option Nat
  | .complete root => (root, none)
  | .followed root start => (root, some start)
  | .within frames expected =>
    let defect := endDefect stop frames expected
    match expected with
    | .value => (abandon defect (.missing stop defect) frames, none)
    | .colon key => (abandon defect (.missing stop defect) (openKey key frames), none)
    | _ => (breakOff stop defect frames, none)

end Progress

/-- The structure of a text, and the place of the first thing behind its value. -/
structure Outline where
  root : Syntax
  trailing : Option Nat

def Outline.ofSymbols (input : List Symbol) : Outline :=
  let progress := (Token.ofSymbols input).foldl Progress.step (.within [] .value)
  let (root, trailing) := progress.finish (Symbol.widths input)
  ⟨root, trailing⟩

end FlowContract.Json
