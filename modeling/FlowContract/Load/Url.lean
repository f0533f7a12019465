import FlowContract.Load.Host

/-!
URLs: which texts are URLs, how web addresses are written in their normal form, and how file
addresses and paths of files turn into each other.
-/

namespace FlowContract

/-- A URL, as far as fetching documents needs it taken apart. -/
structure Url where
  /-- In lower case. -/
  scheme : String
  /-- Where there is one, and it is not empty. -/
  host : Option String
  /-- The number behind the host, where it is not the one that the scheme implies. -/
  portNumber : Option Nat
  /-- The segments of the path of a web or file address, with escapes. -/
  segments : List String
  query : Option String
  fragment : Option String
  deriving DecidableEq

namespace Url

/-- The two digits of a byte behind a percent sign. -/
def percentByte (b : UInt8) : String :=
  let digit (n : Nat) : Char := (Nat.digitChar n).toUpper
  String.ofList ['%', digit (b.toNat / 16), digit (b.toNat % 16)]

/-- Escapes controls, characters beyond ASCII and those of a further set. -/
def percentEncode (further : String) (text : List Char) : String :=
  String.join (text.map fun c =>
    if c.toNat < 0x20 || 0x7f ≤ c.toNat || further.contains c then
      String.join (c.toString.toUTF8.toList.map percentByte)
    else c.toString)

/-- What is escaped in the parts of a URL. -/
def fragmentSet : String := " \"<>`"

def querySet : String := " \"#<>'"

def pathSet : String := fragmentSet ++ "#?\x7b\x7d"

/-- What is escaped in a name of a file that becomes part of a URL. -/
def fileNameSet : String := pathSet ++ "/%\\"

/-- The text of a URL without blanks and controls around it and without line breaks in it. -/
def cleaned (text : String) : List Char :=
  let isEdge (c : Char) : Bool := c.toNat ≤ 0x20
  let inner := ((text.toList.dropWhile isEdge).reverse.dropWhile isEdge).reverse
  inner.filter fun c => c != '\t' && c != '\n' && c != '\r'

/-- The scheme before the first colon, and what follows. -/
def splitScheme? (text : List Char) : Option (String × List Char) :=
  let isPart (c : Char) : Bool := c.isAlphanum || c == '+' || c == '-' || c == '.'
  let scheme := text.takeWhile isPart
  match scheme, text.drop scheme.length with
  | first :: _, ':' :: rest =>
    if first.isAlpha then some (String.ofList (scheme.map Char.toLower), rest) else none
  | _, _ => none

/-- The number behind the host that schemes of the web imply. -/
def impliedNumber? (scheme : String) : Option Nat :=
  if scheme = "http" || scheme = "ws" then some 80
  else if scheme = "https" || scheme = "wss" then some 443
  else if scheme = "ftp" then some 21
  else none

/-- What ends the part of a URL that names a host; a backslash does so where schemes take it for a
slash. -/
def endsAuthority (backslash : Bool) (c : Char) : Bool :=
  c == '/' || c == '?' || c == '#' || (backslash && c == '\\')

/-- The text before the last at sign, if there is one, and the text behind it. -/
def splitUser (authority : List Char) : Option (List Char) × List Char :=
  if authority.contains '@' then
    let host := (authority.reverse.takeWhile (· != '@')).reverse
    (some (authority.take (authority.length - host.length - 1)), host)
  else (none, authority)

/-- The host, up to a colon outside brackets. -/
def hostPart (bracket : Bool) : List Char → List Char
  | [] => []
  | c :: rest =>
    if c == ':' && !bracket then []
    else c :: hostPart (if c == '[' then true else if c == ']' then false else bracket) rest

/-- Reads the number behind a host; none is kept where it is the implied one. A backslash ends
the number with any scheme. -/
def parseNumber (implied : Option Nat) (text : List Char) : Except UrlError (Option Nat) :=
  let digits := text.takeWhile (· != '\\')
  if digits.isEmpty then .ok none
  else
    match Host.number? 10 digits with
    | none => .error .invalidPort
    | some number =>
      if 65535 < number then .error .invalidPort
      else .ok (if some number = implied then none else some number)

/-- Whether the host may not be left out: schemes of the web need one, and so do a user, who has a
name or a password, and a number. An at sign alone needs one if the URL goes on. -/
def needsHost (isWeb goesOn : Bool) (user : Option (List Char)) (rest : List Char) : Bool :=
  isWeb || rest.head? == some ':' ||
    match user with
    | none => false
    | some [] => goesOn
    | some text => text != [':']

/-- Reads the host and the number behind it; `goesOn` tells whether anything follows them. -/
def parseAuthority (scheme : String) (goesOn : Bool) (authority : List Char) :
    Except UrlError (Option String × Option Nat) := do
  let isWeb := (impliedNumber? scheme).isSome
  let (user, rest) := splitUser authority
  let host := hostPart false rest
  if host.isEmpty && needsHost isWeb goesOn user rest then .error .emptyHost
  else
    let name ← if isWeb then Host.parse host else Host.parseOpen host
    let number ← parseNumber (impliedNumber? scheme) ((rest.drop host.length).drop 1)
    pure (if name.isEmpty then none else some name, number)

/-- Whether a segment of a path stands for the place itself. -/
def isHere (segment : List Char) : Bool :=
  let lower := String.ofList (segment.map Char.toLower)
  lower == "." || lower == "%2e"

/-- Whether a segment of a path stands for the place above. -/
def isAbove (segment : List Char) : Bool :=
  let lower := String.ofList (segment.map Char.toLower)
  [".." , ".%2e", "%2e.", "%2e%2e"].contains lower

def isDrive : List Char → Bool
  | [letter, mark] => letter.isAlpha && (mark == ':' || mark == '|')
  | _ => false

/-- Goes one segment up; a drive stays, wherever it stands. -/
def shorten (segments : List String) : List String :=
  match segments.getLast? with
  | some last => if isDrive last.toList then segments else segments.dropLast
  | none => []

/-- Adds segments to a path, following those that stand for the place itself or the one above. -/
def addSegments (isFile : Bool) (done : List String) : List (List Char) → List String
  | [] => done
  | segment :: rest =>
    if isAbove segment then
      let up := shorten done
      addSegments isFile (if rest.isEmpty then up ++ [""] else up) rest
    else if isHere segment then
      addSegments isFile (if rest.isEmpty then done ++ [""] else done) rest
    else
      let written :=
        if isFile && done.isEmpty && isDrive segment then segment.take 1 ++ [':'] else segment
      addSegments isFile (done ++ [percentEncode pathSet written]) rest

/-- Reads path, query and fragment of a web or file address. -/
def parseTail (scheme : String) (host : Option String) (portNumber : Option Nat)
    (text : List Char) : Url :=
  let isSlash (c : Char) : Bool := c == '/' || c == '\\'
  let path := text.takeWhile fun c => c != '?' && c != '#'
  let rest := text.drop path.length
  let query := (rest.drop 1).takeWhile (· != '#')
  let hasQuery := rest.head? == some '?'
  let fragment := if hasQuery then rest.drop (query.length + 1) else rest
  let path := if (path.head?.map isSlash).getD false then path.drop 1 else path
  { scheme, host, portNumber
    segments := addSegments (scheme == "file") [] (Host.splitOn isSlash path)
    query := if hasQuery then some (percentEncode querySet query) else none
    fragment :=
      if fragment.isEmpty then none else some (percentEncode fragmentSet (fragment.drop 1)) }

/-- A file address in its normal form. Slashes at the head of the path count as one, and a path
that begins with a drive is one on this machine, whatever host stands before it. -/
def settleFile (url : Url) : Url :=
  let beginsWithDrive := (url.segments.head?.map (isDrive ·.toList)).getD false
  let segments := url.segments.dropWhile (·.isEmpty)
  { url with
    host := if beginsWithDrive then none else url.host
    segments := if segments.isEmpty then [""] else segments }

/-- Reads a file address behind its scheme. The local host is none, and a drive may stand in the
place of the host. -/
def parseFile (text : List Char) : Except UrlError Url := do
  let isSlash (c : Char) : Bool := c == '/' || c == '\\'
  match text with
  | a :: b :: rest =>
    if isSlash a && isSlash b then
      let authority := rest.takeWhile (!endsAuthority true ·)
      if authority.isEmpty || isDrive authority then
        return settleFile (parseTail "file" none none rest)
      else
        let host ← Host.parse authority
        let known := if host = "localhost" then none else some host
        return settleFile (parseTail "file" known none (rest.drop authority.length))
    else return settleFile (parseTail "file" none none text)
  | _ => return settleFile (parseTail "file" none none text)

/-- Reads a URL that stands for itself, not relative to another. -/
def parse (text : String) : Except UrlError Url :=
  match splitScheme? (cleaned text) with
  | none => .error .relative
  | some (scheme, rest) =>
    if scheme = "file" then parseFile rest
    else if (impliedNumber? scheme).isSome then do
      let rest := rest.dropWhile fun c => c == '/' || c == '\\'
      let authority := rest.takeWhile (!endsAuthority true ·)
      let behind := rest.drop authority.length
      let (host, number) ← parseAuthority scheme (!behind.isEmpty) authority
      return parseTail scheme host number behind
    else
      match rest with
      | '/' :: '/' :: rest => do
        let authority := rest.takeWhile (!endsAuthority false ·)
        let goesOn := authority.length < rest.length
        let (host, number) ← parseAuthority scheme goesOn authority
        return ⟨scheme, host, number, [], none, none⟩
      | _ => .ok ⟨scheme, none, none, [], none, none⟩

/-- The normal form of a web address, without user and password. -/
def write (url : Url) : String :=
  url.scheme ++ "://" ++ url.host.getD ""
    ++ (match url.portNumber with | some number => ":" ++ toString number | none => "")
    ++ String.join (url.segments.map ("/" ++ ·))
    ++ (match url.query with | some query => "?" ++ query | none => "")
    ++ (match url.fragment with | some fragment => "#" ++ fragment | none => "")

/-- The ranges in which the bytes behind a first byte have to lie for the four of them at most to
spell a character. -/
def continuations (first : Nat) : List (Nat × Nat) :=
  let rest : Nat × Nat := (0x80, 0xbf)
  if first < 0xc2 then []
  else if first < 0xe0 then [rest]
  else if first < 0xf0 then
    [if first == 0xe0 then (0xa0, 0xbf) else if first == 0xed then (0x80, 0x9f) else rest, rest]
  else if first < 0xf5 then
    [if first == 0xf0 then (0x90, 0xbf) else if first == 0xf4 then (0x80, 0x8f) else rest, rest,
      rest]
  else []

/-- How many bytes lie in the ranges given for their places, before one does not. -/
def matching : List (Nat × Nat) → List UInt8 → Nat
  | (low, high) :: ranges, byte :: bytes =>
    if low ≤ byte.toNat && byte.toNat ≤ high then matching ranges bytes + 1 else 0
  | _, _ => 0

/-- Bytes as text. What begins like a character but does not spell one is shown as one replacement
character, and so is each byte with which no character begins. -/
def lossyText (fuel : Nat) (bytes : List UInt8) : List Char :=
  match fuel, bytes with
  | 0, _ | _, [] => []
  | fuel + 1, first :: rest =>
    let ranges := continuations first.toNat
    let taken := matching ranges rest
    let spelled := ByteArray.mk (first :: rest.take taken).toArray
    match spelled.utf8DecodeChar? 0 with
    | some c => c :: lossyText fuel (rest.drop taken)
    | none => '\ufffd' :: lossyText fuel (rest.drop taken)

/-- The path of the file that a file address names, if the file is on this machine. -/
def filePath? (url : Url) : Option String :=
  match url.host with
  | some _ => none
  | none =>
    let bytes := url.segments.flatMap fun segment =>
      0x2f :: Host.percentDecode segment.toUTF8.toList
    let path := lossyText bytes.length bytes
    let endsInDrive := match path.reverse with
      | mark :: letter :: _ :: _ => isDrive [letter, mark]
      | _ => false
    some (String.ofList (if endsInDrive then path ++ ['/'] else path))

/-- The address of a file with a path from the top. -/
def ofFilePath (path : String) : String :=
  let names := (path.splitOn "/").filter (· != "")
  if names.isEmpty then "file:///"
  else "file://" ++ String.join (names.map fun name => "/" ++ percentEncode fileNameSet name.toList)

end Url

end FlowContract
