import FlowContract.Json.Syntax

/-!
Reading a document from a text: the value that a text's structure stands for, or the first fault in
the order in which the text is written.
-/

namespace FlowContract.Json

/-- A fault of a text with its place counted in lines. -/
structure TextError where
  problem : Problem
  position : Position
  deriving DecidableEq

/-- The wording of a fault with its place. -/
def TextError.message (e : TextError) : String :=
  e.problem.message ++ e.position.describe

namespace Ending

/-- What a reader finds at the end of a list or mapping whose value it takes. -/
def read : Ending → Except Fault Unit
  | .closed _ => .ok ()
  | .broken defect => .error defect.reading

/-- What a reader finds at the end of a list or mapping that it passes over. -/
def skip : Ending → Except Fault Unit
  | .closed _ => .ok ()
  | .broken defect => .error defect.skipping

end Ending

namespace Syntax

/-- How many lists and mappings may enclose one another. -/
def nestingLimit : Nat := 127

mutual

/-- The value of a structure; `nesting` more lists and mappings may enclose one another in it. Of
members under one key the last one counts. -/
def read (nesting : Nat) : Syntax → Except Fault Value
  | .scalar _ _ reading _ => reading
  | .missing _ defect => .error defect.reading
  | .list start items ending =>
    if nesting = 0 then .error ⟨.nestedTooDeep, start + 1⟩
    else do
      let items ← readItems (nesting - 1) items
      ending.read
      pure (.list items)
  | .mapping start members ending =>
    if nesting = 0 then .error ⟨.nestedTooDeep, start + 1⟩
    else do
      let members ← readMembers (nesting - 1) members
      ending.read
      pure (.ofPairs members)
termination_by structural s => s

def readItems (nesting : Nat) : List Syntax → Except Fault (List Value)
  | [] => .ok []
  | item :: rest => do
    let value ← read nesting item
    let values ← readItems nesting rest
    pure (value :: values)
termination_by structural items => items

/-- The keys and values of a mapping, as they are written. -/
def readMembers (nesting : Nat) : List (Key × Syntax) → Except Fault (List (String × Value))
  | [] => .ok []
  | (key, item) :: rest => do
    let name ← key.reading
    let value ← read nesting item
    let values ← readMembers nesting rest
    pure ((name, value) :: values)
termination_by structural members => members

end

mutual

/-- Passes over a structure: only its form counts, and it may be nested without limit. -/
def skip : Syntax → Except Fault Unit
  | .scalar _ _ _ skipping => skipping
  | .missing _ defect => .error defect.skipping
  | .list _ items ending => do
    skipItems items
    ending.skip
  | .mapping _ members ending => do
    skipMembers members
    ending.skip
termination_by structural s => s

def skipItems : List Syntax → Except Fault Unit
  | [] => .ok ()
  | item :: rest => do
    skip item
    skipItems rest
termination_by structural items => items

/-- Passes over the members of a mapping; keys have the form of strings in any case. -/
def skipMembers : List (Key × Syntax) → Except Fault Unit
  | [] => .ok ()
  | (_, item) :: rest => do
    skip item
    skipMembers rest
termination_by structural members => members

end

end Syntax

namespace Outline

/-- The value of a text: nothing may stand behind it. -/
def read (outline : Outline) : Except Fault Value := do
  let value ← outline.root.read Syntax.nestingLimit
  match outline.trailing with
  | none => pure value
  | some start => .error ⟨.trailingCharacters, start + 1⟩

end Outline

namespace Value

def ofSymbols (input : List Symbol) : Except TextError Value :=
  (Outline.ofSymbols input).read.mapError fun fault =>
    ⟨fault.problem, .after fault.offset input⟩

def ofText (text : String) : Except TextError Value := ofSymbols (Symbol.ofString text)

def ofBytes (bytes : ByteArray) : Except TextError Value := ofSymbols (Symbol.ofBytes bytes)

end Value

end FlowContract.Json
