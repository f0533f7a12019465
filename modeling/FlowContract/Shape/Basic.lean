import FlowContract.Json.Value

/-!
Shapes: what a document may look like. A shape is plain data; what it accepts, how it is described
and what a mismatch says are functions of it.
-/

namespace FlowContract

open Json (Value)

/-- The kinds of values without members that a shape may ask for. -/
inductive ScalarKind where
  | string
  /-- A string with at least one character. -/
  | nonEmptyString
  | boolean
  | number
  deriving DecidableEq

namespace ScalarKind

/-- Whether a value is of the kind. Nothing is converted: `"1"` is not a number. -/
def accepts : ScalarKind → Value → Bool
  | .string, .string _ => true
  | .nonEmptyString, .string value => value != ""
  | .boolean, .boolean _ => true
  | .number, .number _ => true
  | _, _ => false

def noun : ScalarKind → String
  | .string => "a string"
  | .nonEmptyString => "a non-empty string"
  | .boolean => "a boolean"
  | .number => "a number"

end ScalarKind

/-- A condition on the keys of a mapping. -/
inductive KeyPredicate where
  | any
  | exactly (name : String)
  | not (name : String)
  deriving DecidableEq

namespace KeyPredicate

def accepts : KeyPredicate → String → Bool
  | .any, _ => true
  | .exactly name, key => key == name
  | .not name, key => key != name

def describe : KeyPredicate → String
  | .any => "any key"
  | .exactly name => s!"key `{name}`"
  | .not name => s!"keys other than `{name}`"

end KeyPredicate

/-- A finite set of strings. -/
abbrev NameSet := SortedMap Unit

/-- The set of the strings of a list. -/
def NameSet.ofList (names : List String) : NameSet :=
  SortedMap.ofList (names.map fun name => (name, ()))

mutual

/-- What a value may look like. -/
inductive Shape where
  /-- A value of a kind, or null if allowed. -/
  | scalar (kind : ScalarKind) (nullable : Bool)
  /-- A string of a set. -/
  | choice (allowed : NameSet)
  /-- A list of strings, of a set if one is given, whose length lies between two bounds. -/
  | strings (allowed : Option NameSet) (least greatest : Nat)
  /-- A mapping with declared keys. A closed one has no others. -/
  | record (fields : List Field) (closed : Bool)
  /-- A mapping whose keys all meet a condition and whose values all have one shape. -/
  | keyed (key : KeyPredicate) (value : Shape)
  /-- A list whose elements all have one shape and whose length lies between two bounds. -/
  | sequence (element : Shape) (least : Nat) (greatest : Option Nat)
  /-- Whatever one of the variants accepts. -/
  | union (variants : List Shape)
  /-- Null, or whatever another shape accepts. -/
  | orNull (inner : Shape)
  /-- Any mapping. Nothing in it is looked at. -/
  | anyMapping

/-- A declared key of a mapping. Whether its value may be null is up to the shape. -/
structure Field where
  name : String
  shape : Shape
  required : Bool

end

def Field.mandatory (name : String) (shape : Shape) : Field := ⟨name, shape, true⟩

def Field.optional (name : String) (shape : Shape) : Field := ⟨name, shape, false⟩

namespace Shape

instance : Inhabited Shape := ⟨anyMapping⟩

def string : Shape := scalar .string false

def nonEmptyString : Shape := scalar .nonEmptyString false

def boolean : Shape := scalar .boolean false

def number : Shape := scalar .number false

/-- A string of a list of strings. -/
def oneOf (allowed : List String) : Shape := choice (.ofList allowed)

/-- A mapping with the given keys and no others. -/
def closed (fields : List Field) : Shape := record fields true

def list (element : Shape) : Shape := sequence element 0 none

/-- The shape that accepts null as well. Where null is accepted by construction already, the shape
stays as it is. -/
def nullable : Shape → Shape
  | scalar kind _ => scalar kind true
  | orNull inner => orNull inner
  | other => orNull other

def nullableString : Shape := string.nullable

/-- Induction over shapes: what holds of a shape whenever it holds of the shapes in it holds of
every shape. -/
@[elab_as_elim, induction_eliminator]
theorem induct {motive : Shape → Prop}
    (scalar : ∀ kind nullable, motive (.scalar kind nullable))
    (choice : ∀ allowed, motive (.choice allowed))
    (strings : ∀ allowed least greatest, motive (.strings allowed least greatest))
    (record : ∀ fields closed, (∀ field ∈ fields, motive field.shape) →
      motive (.record fields closed))
    (keyed : ∀ key value, motive value → motive (.keyed key value))
    (sequence : ∀ element least greatest, motive element →
      motive (.sequence element least greatest))
    (union : ∀ variants, (∀ variant ∈ variants, motive variant) → motive (.union variants))
    (orNull : ∀ inner, motive inner → motive (.orNull inner))
    (anyMapping : motive .anyMapping)
    (shape : Shape) : motive shape := by
  refine Shape.rec (motive_1 := motive) (motive_2 := fun field => motive field.shape)
    (motive_3 := fun fields => ∀ field ∈ fields, motive field.shape)
    (motive_4 := fun variants => ∀ variant ∈ variants, motive variant)
    scalar choice strings (fun fields closed h => record fields closed h) keyed sequence
    (fun variants h => union variants h) orNull anyMapping ?_ ?_ ?_ ?_ ?_ shape
  · intro name shape required h
    exact h
  · simp
  · intro head tail hhead htail
    simp only [List.mem_cons, forall_eq_or_imp]
    exact ⟨hhead, htail⟩
  · simp
  · intro head tail hhead htail
    simp only [List.mem_cons, forall_eq_or_imp]
    exact ⟨hhead, htail⟩

end Shape

end FlowContract
