import FlowContract.Rejection
import FlowContract.Shape.Expectation

/-!
Checking a value against a shape: a walk through both, depth first, that stops at the first
mismatch. The walk has one path, which says where it is: it is extended on the way into a member and
shortened on the way out, and a rejection takes a copy of it.
-/

namespace FlowContract

open Json (Value)

/-- A walk through a document. What it finds is a rejection, or nothing. -/
abbrev Walk := EStateM Rejection Path

namespace Walk

/-- Stops the walk where it is. -/
def stop (expected actual : String) : Walk Unit := do
  throw ⟨← get, expected, actual, []⟩

/-- Takes a step into a member and back out of it. A walk that stops inside stays there. -/
def inside (segment : Segment) (walk : Walk Unit) : Walk Unit := do
  modify (·.push segment)
  walk
  modify Path.parent

/-- The verdict of a walk from a place on. -/
def verdict (walk : Walk Unit) (path : Path) : Except Rejection Unit :=
  match walk.run path with
  | .ok _ _ => .ok ()
  | .error rejection _ => .error rejection

end Walk

namespace Shape

/-- The mismatch of a value that is not what a shape accepts. -/
def mismatch (shape : Shape) (v : Value) (path : Path) : Rejection :=
  ⟨path, shape.expectation, describe v, []⟩

/-- Stops at a value that is not what a shape accepts. -/
def reject (shape : Shape) (v : Value) : Walk Unit := Walk.stop shape.expectation (describe v)

/-- What would do in the place of a key that a closed mapping does not declare. -/
def undeclared (fields : List Field) (key : String) : String :=
  s!"no key `{key}` (allowed: {quotedKeys (fields.map Field.name)})"

/-- What is found in the place of a key that has to be there and is not. -/
def missing : String := "nothing (key is missing)"

/-- Whether a closed mapping declares a key. -/
def declares (fields : List Field) (key : String) : Bool :=
  fields.any fun field => field.name == key

/-- Stops at the least key of a closed mapping that it does not declare. -/
def walkKeys (fields : List Field) (closed : Bool) (entries : SortedMap Value) : Walk Unit :=
  match entries.entries.find? fun entry => closed && !declares fields entry.1 with
  | some (key, value) =>
    Walk.inside (.key key) (Walk.stop (undeclared fields key) (describe value))
  | none => pure ()

/-- Whether an element of a list of strings is one of the strings allowed. -/
def acceptsString (allowed : Option NameSet) (v : Value) : Bool :=
  match v, allowed with
  | .string value, some allowed => allowed.contains value
  | .string _, none => true
  | _, _ => false

def withinBounds (least : Nat) (greatest : Option Nat) (length : Nat) : Bool :=
  least ≤ length && greatest.all (length ≤ ·)

/-- The rejection by several forms, none of which fits: the first one speaks for all and carries the
others as alternatives. -/
def combine : List Rejection → Option Rejection
  | [] => none
  | first :: others => some { first with alternatives := others }

/-- What a union comes to once its variants have been tried: nothing if one of them fits, and
otherwise what was found with them. -/
def settle (shape : Shape) (v : Value) : Option (List Rejection) → Walk Unit
  | none => pure ()
  | some failures =>
    match combine failures with
    | some rejection => throw rejection
    | none => reject shape v

mutual

/-- Walks through a value and a shape. -/
def walk : Shape → Value → Walk Unit
  | scalar kind nullable, v =>
    if kind.accepts v || (nullable && v.isNull) then pure () else reject (scalar kind nullable) v
  | choice allowed, v =>
    if acceptsString (some allowed) v then pure () else reject (choice allowed) v
  | strings allowed least greatest, v =>
    match v.items? with
    | none => reject (strings allowed least greatest) v
    | some items =>
      if withinBounds least (some greatest) items.length then
        items.zipIdx.forM fun (item, i) =>
          if acceptsString allowed item then pure ()
          else Walk.inside (.index i) (reject (strings allowed least greatest) item)
      else reject (strings allowed least greatest) v
  | record fields closed, v =>
    match v.entries? with
    | none => reject (record fields closed) v
    | some entries => do
      walkKeys fields closed entries
      walkFields fields entries
  | keyed predicate shape, v =>
    match v.entries? with
    | none => reject (keyed predicate shape) v
    | some entries =>
      entries.entries.forM fun (key, value) =>
        Walk.inside (.key key) (if predicate.accepts key then walk shape value
          else Walk.stop predicate.describe s!"key `{key}`")
  | sequence element least greatest, v =>
    match v.items? with
    | none => reject (sequence element least greatest) v
    | some items =>
      if withinBounds least greatest items.length then
        items.zipIdx.forM fun (item, i) => Walk.inside (.index i) (walk element item)
      else reject (sequence element least greatest) v
  | union variants, v => do
    -- Every variant starts at the place of the union, wherever the one before has stopped.
    settle (union variants) v (attempt variants v (← get) [])
  | orNull inner, v => if v.isNull then pure () else walk inner v
  | anyMapping, v =>
    if v.entries?.isSome then pure () else reject anyMapping v
termination_by structural shape => shape

/-- Walks through the declared keys of a mapping in the order in which they are declared. -/
def walkFields : List Field → SortedMap Value → Walk Unit
  | [], _ => pure ()
  | ⟨name, shape, required⟩ :: rest, entries => do
    Walk.inside (.key name) (match entries.find? name with
      | some value => walk shape value
      | none => if required then Walk.stop shape.expectation missing else pure ())
    walkFields rest entries
termination_by structural fields => fields

/-- Tries one variant of a union after the other, up to the first one that fits. Where none does,
what was found is told, behind what was found before. -/
def attempt : List Shape → Value → Path → List Rejection → Option (List Rejection)
  | [], _, _, failures => some failures
  | variant :: rest, v, path, failures =>
    match (walk variant v).verdict path with
    | .ok () => none
    | .error rejection => attempt rest v path (failures ++ [rejection])
termination_by structural variants => variants

end

/-- Checks the value at a place against a shape. -/
def check (shape : Shape) (v : Value) (path : Path) : Except Rejection Unit :=
  (shape.walk v).verdict path

/-- Checks a whole document against a shape; one that fits is given back as it is. -/
def validate (shape : Shape) (v : Value) : Except Rejection Value :=
  (shape.check v .root).map fun _ => v

def accepts (shape : Shape) (v : Value) : Bool := (shape.validate v).isOk

end Shape

end FlowContract
