import FlowContract.Json.Reader
import FlowContract.Text.Quoted

/-!
What can be wrong with a configuration text, and where.
-/

namespace FlowContract.Config

open Json (Symbol Syntax Value Number Position)

/-- The ways in which a text fails to be a configuration. -/
inductive Problem where
  /-- It is no document. -/
  | text (problem : Json.Problem)
  | wrongType (found expected : String)
  | wrongValue (found expected : String)
  | wrongLength (length : Nat) (expected : String)
  /-- One of two names has to stand there, and another does. -/
  | unknownVariant (name first second : String)
  | missingField (name : String)
  | duplicateField (name : String)
  deriving DecidableEq

def Problem.message : Problem → String
  | text problem => problem.message
  | wrongType found expected => s!"invalid type: {found}, expected {expected}"
  | wrongValue found expected => s!"invalid value: {found}, expected {expected}"
  | wrongLength length expected => s!"invalid length {length}, expected {expected}"
  | unknownVariant name first second =>
    s!"unknown variant `{name}`, expected `{first}` or `{second}`"
  | missingField name => s!"missing field `{name}`"
  | duplicateField name => s!"duplicate field `{name}`"

/-- Where a reader stands when a problem is reported. A problem with a mapping or list as a whole
is reported on the way out of it. -/
inductive Place where
  | at (offset : Nat)
  /-- Past the blanks behind an offset, and past the bracket there if it closes the mapping. -/
  | leavingMapping (offset : Nat)
  /-- Past the blanks behind an offset, and past the bracket there if it closes the list, or past
  the comma there and the blanks behind it. -/
  | leavingList (offset : Nat)
  deriving DecidableEq

namespace Place

/-- The input behind a number of bytes. -/
def dropBytes (bytes : Nat) : List Symbol → List Symbol
  | [] => []
  | symbol :: rest =>
    if bytes = 0 then symbol :: rest else dropBytes (bytes - symbol.width) rest

/-- An offset past the blanks at the head of the input there, and the input there. -/
def pastBlanks (offset : Nat) (input : List Symbol) : Nat × List Symbol :=
  let blanks := input.takeWhile Symbol.isBlank
  (offset + blanks.length, input.drop blanks.length)

/-- The number of bytes passed in an input. -/
def resolve (input : List Symbol) : Place → Nat
  | .at offset => offset
  | leavingMapping offset =>
    match pastBlanks offset (dropBytes offset input) with
    | (offset, symbol :: _) => if symbol.is '\x7d' then offset + 1 else offset
    | (offset, []) => offset
  | leavingList offset =>
    match pastBlanks offset (dropBytes offset input) with
    | (offset, symbol :: rest) =>
      if symbol.is ']' then offset + 1
      else if symbol.is ',' then (pastBlanks (offset + 1) rest).1
      else offset
    | (offset, []) => offset

end Place

structure Fault where
  problem : Problem
  place : Place
  deriving DecidableEq

namespace Fault

def ofText (fault : Json.Fault) : Fault := ⟨.text fault.problem, .at fault.offset⟩

/-- The wording of a fault, with its place counted in lines. -/
def message (fault : Fault) (input : List Symbol) : String :=
  fault.problem.message ++ (Position.after (fault.place.resolve input) input).describe

end Fault

/-- What a value without members is called where something else should stand. -/
def describeScalar : Value → String
  | .null => "null"
  | .boolean value => s!"boolean `{value}`"
  | .number (.integer value _ _) => s!"integer `{value}`"
  | .number value => s!"floating point `{value.write}`"
  | .string value => "string " ++ Text.quoted value
  | .list _ => "sequence"
  | .mapping _ => "map"

/-- What a part of a text is called where something else should stand. -/
def describe : Syntax → String
  | .scalar _ _ (.ok value) _ => describeScalar value
  | .list _ _ _ => "sequence"
  | .mapping _ _ _ => "map"
  | _ => ""

/-- The fault of a part of a text where something else should stand. Values are read before they
are rejected, brackets are not. -/
def unexpected (expected : String) : Syntax → Fault
  | .scalar _ stop (.ok value) _ => ⟨.wrongType (describeScalar value) expected, .at stop⟩
  | .scalar _ _ (.error fault) _ => .ofText fault
  | .list start _ _ => ⟨.wrongType "sequence" expected, .at start⟩
  | .mapping start _ _ => ⟨.wrongType "map" expected, .at start⟩
  | .missing _ defect => .ofText defect.reading

end FlowContract.Config
