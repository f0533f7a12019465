import FlowContract.Json.Value
import FlowContract.Path
import FlowContract.Text.Quoted

/-!
Why a document is not acceptable: the place, what would be acceptable there, and what stands there
instead.
-/

namespace FlowContract

open Json (Value)

/-- A mismatch between a value and what should stand in its place. -/
structure Rejection where
  path : Path
  expected : String
  actual : String
  /-- The mismatches with the other forms that would do, where there are several. -/
  alternatives : List Rejection

namespace Rejection

instance : Inhabited Rejection := ⟨⟨.root, "", "", []⟩⟩

/-- The wording of a rejection, without its alternatives. -/
def message (r : Rejection) : String :=
  "at `" ++ r.path.write ++ "`: expected " ++ r.expected ++ ", found " ++ r.actual

mutual

/-- Equality of rejections, alternatives included. -/
def equal : Rejection → Rejection → Bool
  | ⟨path, expected, actual, alternatives⟩, ⟨path', expected', actual', alternatives'⟩ =>
    path == path' && expected == expected' && actual == actual'
      && equalAll alternatives alternatives'
termination_by structural r => r

def equalAll : List Rejection → List Rejection → Bool
  | [], [] => true
  | r :: rest, r' :: rest' => r.equal r' && equalAll rest rest'
  | _, _ => false
termination_by structural rs => rs

end

instance : BEq Rejection := ⟨equal⟩

end Rejection

/-- How many characters of a string a description shows. -/
def describedLength : Nat := 40

/-- A short description of a value: what stands in a place where something else was expected. -/
def describe : Value → String
  | .null => "null"
  | .boolean value => "boolean " ++ (if value then "true" else "false")
  | .number value => "number " ++ value.write
  | .string value =>
    if value.toList.length ≤ describedLength then "string " ++ Text.quoted value
    else
      "string " ++ Text.quoted (String.ofList (value.toList.take describedLength)) ++ "..."
  | .list items =>
    if items.isEmpty then "an empty list" else s!"a list of {items.length} elements"
  | .mapping entries =>
    if entries.keys.isEmpty then "an empty mapping"
    else "a mapping with keys " ++ ", ".intercalate (entries.keys.map fun key => s!"`{key}`")

end FlowContract
