import FlowContract.Text.Extending
import FlowContract.Text.Invisible

/-!
Strings in quotes, as rejections show them: whatever a reader could not see or would see as part
of a neighbour is written by its code point.
-/

namespace FlowContract.Text

/-- The digits of a code point in base sixteen, in lower case and without leading zeros. -/
def hexDigits (n : Nat) : String := String.ofList (Nat.toDigits 16 n)

/-- A character of a quoted string: the two delimiters and the four named controls take a
backslash, other characters without a visible form of their own are written by code point. -/
def quoteChar (c : Char) : String :=
  if c = '"' then "\\\""
  else if c = '\\' then "\\\\"
  else if c = '\x00' then "\\0"
  else if c = '\t' then "\\t"
  else if c = '\r' then "\\r"
  else if c = '\n' then "\\n"
  else if c.toNat < 0x20 || c.toNat == 0x7f || isExtending c || isInvisible c then
    "\\u\x7b" ++ hexDigits c.toNat ++ "\x7d"
  else c.toString

/-- A string between quotes. -/
def quoted (s : String) : String :=
  "\"" ++ String.join (s.toList.map quoteChar) ++ "\""

end FlowContract.Text
