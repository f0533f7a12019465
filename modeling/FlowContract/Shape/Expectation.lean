import FlowContract.Shape.Basic

/-!
What a shape accepts, in words.
-/

namespace FlowContract.Shape

/-- Names of a set in quotes, in ascending order. -/
def quotedNames (allowed : NameSet) : String :=
  ", ".intercalate (allowed.keys.map fun name => s!"\"{name}\"")

/-- A noun in the plural, unless there is exactly one. -/
def plural (noun : String) (least : Nat) (greatest : Option Nat) : String :=
  if least = 1 ∧ greatest = some 1 then noun else noun ++ "s"

/-- Two bounds of a count. -/
def bounds (least : Nat) : Option Nat → String
  | some greatest =>
    if greatest = least then s!"exactly {least}" else s!"{least} to {greatest}"
  | none => s!"at least {least}"

/-- The keys of a mapping between backticks. -/
def quotedKeys (names : List String) : String :=
  ", ".intercalate (names.map fun name => s!"`{name}`")

mutual

/-- The description of what a shape accepts. -/
def expectation : Shape → String
  | scalar kind nullable => if nullable then kind.noun ++ " or null" else kind.noun
  | choice allowed => "one of " ++ quotedNames allowed
  | strings allowed least greatest =>
    let noun := plural "string" least (some greatest)
    let elements := match allowed with
      | some allowed => noun ++ " from " ++ quotedNames allowed
      | none => noun
    "a list of " ++ bounds least (some greatest) ++ " " ++ elements
  | record fields _ =>
    match fields.map Field.name with
    | [] => "an empty mapping"
    | [name] => s!"a mapping with key `{name}`"
    | names => "a mapping with keys " ++ quotedKeys names
  | keyed key value => "a mapping of " ++ key.describe ++ " to " ++ value.expectation
  | sequence element least greatest =>
    if least = 0 ∧ greatest = none then "a list of " ++ element.expectation
    else "a list of " ++ bounds least greatest ++ " " ++ plural "element" least greatest
      ++ ", each " ++ element.expectation
  | union variants => " or ".intercalate (expectations variants)
  | orNull inner => inner.expectation ++ " or null"
  | anyMapping => "a mapping"
termination_by structural shape => shape

/-- The descriptions of several shapes. -/
def expectations : List Shape → List String
  | [] => []
  | shape :: rest => shape.expectation :: expectations rest
termination_by structural shapes => shapes

end

theorem expectations_eq (shapes : List Shape) : expectations shapes = shapes.map expectation := by
  induction shapes with
  | nil => rfl
  | cons head tail ih => simp [expectations, ih]

end FlowContract.Shape
