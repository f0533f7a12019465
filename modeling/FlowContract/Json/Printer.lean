import FlowContract.Json.Value

/-!
The text of a value. The members of a mapping come out in ascending order of their keys, since
that is how the value holds them.
-/

namespace FlowContract.Json

/-- A control character by its number, in four lower-case digits of base sixteen. -/
def controlEscape (c : Char) : String :=
  let digits := Nat.toDigits 16 c.toNat
  "\\u" ++ String.ofList (List.replicate (4 - digits.length) '0' ++ digits)

/-- A character inside a string: the delimiter, the backslash and the controls below U+0020 are
escaped, the five common ones by a letter; all others stand for themselves. -/
def escapeChar (c : Char) : String :=
  if c = '"' then "\\\""
  else if c = '\\' then "\\\\"
  else if c = '\x08' then "\\b"
  else if c = '\t' then "\\t"
  else if c = '\n' then "\\n"
  else if c = '\x0c' then "\\f"
  else if c = '\r' then "\\r"
  else if c.toNat < 0x20 then controlEscape c
  else c.toString

/-- A string with its delimiters. -/
def writeString (s : String) : String :=
  "\"" ++ String.join (s.toList.map escapeChar) ++ "\""

/-- The blanks between the parts of a list or mapping. -/
structure Layout where
  /-- What stands before a member or closing bracket at a nesting depth. -/
  lead : Nat → String
  /-- What stands between a key and its value. -/
  colon : String

namespace Layout

def compact : Layout := ⟨fun _ => "", ":"⟩

/-- Every member on a line of its own, two blanks further in than its mapping or list. -/
def indented : Layout :=
  ⟨fun depth => "\n" ++ String.ofList (List.replicate (2 * depth) ' '), ": "⟩

/-- A member of a mapping, given the text of its value. -/
def member (layout : Layout) (name text : String) : String :=
  writeString name ++ layout.colon ++ text

/-- Members between brackets; without members the brackets stand together. -/
def enclose (layout : Layout) (depth : Nat) (opening closing : String) (members : List String) :
    String :=
  if members.isEmpty then opening ++ closing
  else
    opening ++ ",".intercalate (members.map (layout.lead (depth + 1) ++ ·))
      ++ layout.lead depth ++ closing

end Layout

namespace Value

mutual

/-- The text of a value that stands at a nesting depth. -/
def write (layout : Layout) (depth : Nat) : Value → String
  | .null => "null"
  | .boolean value => if value then "true" else "false"
  | .number value => value.write
  | .string value => writeString value
  | .list items => layout.enclose depth "[" "]" (writeItems layout (depth + 1) items)
  | .mapping ⟨keys, _, get⟩ =>
    layout.enclose depth "\x7b" "\x7d" (List.ofFn fun i =>
      layout.member (keys.get i) (write layout (depth + 1) (get i)))
termination_by structural v => v

def writeItems (layout : Layout) (depth : Nat) : List Value → List String
  | [] => []
  | item :: rest => write layout depth item :: writeItems layout depth rest
termination_by structural items => items

end

def compact (v : Value) : String := v.write .compact 0

def indented (v : Value) : String := v.write .indented 0

end Value

end FlowContract.Json
