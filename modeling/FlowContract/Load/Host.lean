import FlowContract.Text.Invisible

/-!
Hosts of URLs: names, and addresses of the two generations of the internet protocol.
-/

namespace FlowContract

/-- Why a text is no URL. -/
inductive UrlError where
  | emptyHost
  | invalidName
  | invalidPort
  | invalidIpv4
  | invalidIpv6
  | invalidNameCharacter
  /-- It is relative, and there is nothing that it could be relative to. -/
  | relative
  deriving DecidableEq

def UrlError.message : UrlError → String
  | emptyHost => "empty host"
  | invalidName => "invalid international domain name"
  | invalidPort => "invalid port number"
  | invalidIpv4 => "invalid IPv4 address"
  | invalidIpv6 => "invalid IPv6 address"
  | invalidNameCharacter => "invalid domain character"
  | relative => "relative URL without a base"

namespace Host

/-- The value of a digit, in a base of at most sixteen. -/
def digit? (base : Nat) (c : Char) : Option Nat :=
  let value :=
    if c.isDigit then some (c.toNat - '0'.toNat)
    else if 'a' ≤ c && c ≤ 'f' then some (c.toNat - 'a'.toNat + 10)
    else if 'A' ≤ c && c ≤ 'F' then some (c.toNat - 'A'.toNat + 10)
    else none
  value.filter (· < base)

def number? (base : Nat) (digits : List Char) : Option Nat :=
  digits.foldlM (fun n c => (digit? base c).map (n * base + ·)) 0

/-- Cuts a list at every element of a kind. -/
def splitOn (separates : Char → Bool) : List Char → List (List Char)
  | [] => [[]]
  | c :: rest =>
    if separates c then [] :: splitOn separates rest
    else
      match splitOn separates rest with
      | [] => [[c]]
      | first :: others => (c :: first) :: others

/-- The bytes for which percent escapes stand, and the bytes of all other characters. -/
def percentDecode : List UInt8 → List UInt8
  | [] => []
  | percent :: high :: low :: rest =>
    let digit (b : UInt8) : Option Nat := digit? 16 (Char.ofNat b.toNat)
    if percent == 0x25 then
      match digit high, digit low with
      | some h, some l => UInt8.ofNat (h * 16 + l) :: percentDecode rest
      | _, _ => percent :: percentDecode (high :: low :: rest)
    else percent :: percentDecode (high :: low :: rest)
  | byte :: rest => byte :: percentDecode rest
termination_by bytes => bytes.length

/-- A part of an address of four numbers, decimal, octal or in base sixteen. -/
def ipv4Part? : List Char → Option Nat
  | [] => none
  | '0' :: 'x' :: digits | '0' :: 'X' :: digits => number? 16 digits
  | '0' :: digits => number? 8 digits
  | digits => number? 10 digits

/-- The parts of a name, without the empty part behind a final point. -/
def labels (name : List Char) : List (List Char) :=
  let parts := splitOn (· == '.') name
  if parts.length > 1 && parts.getLast? == some [] then parts.dropLast else parts

/-- Whether a name has to be an address because its last part is a number. -/
def endsInNumber (name : List Char) : Bool :=
  match (labels name).getLast? with
  | none => false
  | some last =>
    (!last.isEmpty && last.all Char.isDigit) ||
      match last with
      | '0' :: 'x' :: digits | '0' :: 'X' :: digits => (number? 16 digits).isSome
      | _ => false

/-- Four numbers up to 255 with points between them. -/
def writeIpv4 (address : Nat) : String :=
  let part (i : Nat) : String := toString (address / Nat.pow 256 i % 256)
  ".".intercalate [part 3, part 2, part 1, part 0]

/-- An address of four bytes; the last part stands for all the bytes that are left. -/
def ipv4? (name : List Char) : Option Nat := do
  let numbers ← (labels name).mapM ipv4Part?
  let last ← numbers.getLast?
  let leading := numbers.dropLast
  if numbers.length ≤ 4 && leading.all (· ≤ 255) && last < Nat.pow 256 (4 - leading.length) then
    pure (leading.zipIdx.foldl (fun sum (n, i) => sum + n * Nat.pow 256 (3 - i)) last)
  else none

/-- Four decimal numbers up to 255 without leading zeros, as two groups of 16 bits. -/
def embeddedIpv4? (text : List Char) : Option (List Nat) := do
  let parts ← (splitOn (· == '.') text).mapM fun part =>
    if part.isEmpty || (part.length > 1 && part.head? == some '0') then none
    else (number? 10 part).filter (· ≤ 255)
  match parts with
  | [a, b, c, d] => pure [a * 256 + b, c * 256 + d]
  | _ => none

/-- Groups of up to four digits; instead of the last two there may be four decimal numbers. -/
def ipv6Groups? (text : List Char) : Option (List Nat) :=
  if text.isEmpty then some []
  else
    let parts := splitOn (· == ':') text
    let group? (part : List Char) : Option (List Nat) :=
      if part.isEmpty || part.length > 4 then none else (number? 16 part).map fun n => [n]
    let last? (part : List Char) : Option (List Nat) :=
      if part.contains '.' then embeddedIpv4? part else group? part
    do
      let leading ← parts.dropLast.mapM group?
      let last ← last? (parts.getLast?.getD [])
      pure (leading.flatten ++ last)

/-- The text before and after the first double colon. -/
def atDoubleColon? : List Char → Option (List Char × List Char)
  | ':' :: ':' :: rest => some ([], rest)
  | c :: rest => (atDoubleColon? rest).map fun (before, after) => (c :: before, after)
  | [] => none

/-- An address of eight groups; a double colon stands for as many zeros as are missing. -/
def ipv6? (text : List Char) : Option (List Nat) :=
  match atDoubleColon? text with
  | some (before, after) => do
    let front ← ipv6Groups? before
    let back ← ipv6Groups? after
    if front.length + back.length < 8 && !before.contains '.' then
      pure (front ++ List.replicate (8 - front.length - back.length) 0 ++ back)
    else none
  | none => (ipv6Groups? text).filter (·.length == 8)

/-- How many zeros stand at the head of a list. -/
def leadingZeros (groups : List Nat) : Nat := (groups.takeWhile (· == 0)).length

/-- Eight groups; the first of the longest runs of zeros is written as a double colon. -/
def writeIpv6 (groups : List Nat) : String :=
  let runs := (List.range groups.length).map fun i => (i, leadingZeros (groups.drop i))
  let (start, length) := runs.foldl
    (fun best run => if best.2 < run.2 then run else best) (0, 0)
  let write (part : List Nat) : String :=
    ":".intercalate (part.map fun n => String.ofList (Nat.toDigits 16 n))
  if length < 2 then "[" ++ write groups ++ "]"
  else "[" ++ write (groups.take start) ++ "::" ++ write (groups.drop (start + length)) ++ "]"

/-- Characters that no name holds: marks with a meaning in URLs, those without a visible form, and
the one that stands for a lost character. -/
def isForbidden (c : Char) : Bool :=
  c.toNat ≤ 0x20 || c.toNat == 0x7f || "#%/:<>?@[\\]^|\ufffd".contains c || Text.isInvisible c

/-- Characters that count for nothing in a name: the soft hyphen, invisible marks between words,
and those that choose the shape of the character before them. -/
def isIgnored (c : Char) : Bool :=
  "\u00ad\u200b\u2060\u2064\ufeff".contains c || ('\ufe00' ≤ c && c ≤ '\ufe0f')

/-- A character of a name as it is compared: ASCII letters in lower case, and the wide forms of
ASCII characters and the ideographic full stops as what they stand for. -/
def folded (c : Char) : Char :=
  if '\uff01' ≤ c && c ≤ '\uff5e' then (Char.ofNat (c.toNat - 0xfee0)).toLower
  else if c == '\u3002' || c == '\uff61' then '.'
  else c.toLower

def bracketed? : List Char → Option (List Char)
  | '[' :: rest => if rest.getLast? == some ']' then some rest.dropLast else some []
  | _ => none

/-- Reads the host of a URL whose scheme says what hosts look like. Names are compared in folded
form; letters beyond ASCII are kept as they are. -/
def parse (text : List Char) : Except UrlError String := do
  match bracketed? text with
  | some address =>
    match ipv6? address with
    | some groups => return writeIpv6 groups
    | none => .error .invalidIpv6
  | none =>
    let bytes := ByteArray.mk (percentDecode (String.ofList text).toUTF8.toList).toArray
    match String.fromUTF8? bytes with
    | none => .error .invalidName
    | some decoded =>
      let name := (decoded.toList.filter (!isIgnored ·)).map folded
      if name.any isForbidden then .error .invalidName
      else if name.isEmpty then .error .emptyHost
      else if endsInNumber name then
        match ipv4? name with
        | some address => return writeIpv4 address
        | none => .error .invalidIpv4
      else return String.ofList name

/-- Reads the host of a URL whose scheme leaves hosts open. -/
def parseOpen (text : List Char) : Except UrlError String :=
  match bracketed? text with
  | some address =>
    match ipv6? address with
    | some groups => .ok (writeIpv6 groups)
    | none => .error .invalidIpv6
  | none =>
    if text.any ("\x00\t\n\r #/:<>?@[\\]^|".contains ·) then .error .invalidNameCharacter
    else .ok (String.ofList text)

end Host

end FlowContract
