import FlowContract.Json.Fault

/-!
String literals. A literal is first cut into pieces, which settles where it ends; the pieces are
then put together to a string. Passing over a literal needs the first step only, so surrogates
without a partner and bytes without a character go unnoticed there.
-/

namespace FlowContract.Json

/-- What a piece of a string literal is. -/
inductive PieceKind where
  /-- A character that stands for itself. -/
  | plain (c : Char)
  /-- A byte that belongs to no character. -/
  | stray
  /-- A backslash and a letter that names a character. -/
  | letter (c : Char)
  /-- A backslash and a 16-bit code unit in base sixteen. -/
  | unit (n : Nat)
  /-- The closing delimiter. -/
  | close
  /-- A control character, which has to be escaped. -/
  | control
  /-- A backslash and something that names no character. -/
  | badLetter
  /-- Nothing can follow: the text ends, or a code unit is not in base sixteen. -/
  | broken (problem : Problem)
  deriving DecidableEq

/-- A piece of a string literal and the number of bytes looked at when it is known as such. -/
structure Piece where
  kind : PieceKind
  seen : Nat
  deriving DecidableEq

namespace Piece

/-- The character that a letter behind a backslash names. -/
def named? (c : Char) : Option Char :=
  if c = '"' then some '"'
  else if c = '\\' then some '\\'
  else if c = '/' then some '/'
  else if c = 'b' then some '\x08'
  else if c = 'f' then some '\x0c'
  else if c = 'n' then some '\n'
  else if c = 'r' then some '\r'
  else if c = 't' then some '\t'
  else none

/-- The number that four digits of base sixteen spell. -/
def codeUnit? (a b c d : Symbol) : Option Nat := do
  let a ← a.hexDigit?
  let b ← b.hexDigit?
  let c ← c.hexDigit?
  let d ← d.hexDigit?
  pure (a * 4096 + b * 256 + c * 16 + d)

/-- Why no code unit stands at a place: fewer than four bytes are left, or they are no digits. -/
def brokenUnit (offset : Nat) (input : List Symbol) : Piece :=
  if Symbol.widths input < 4 then ⟨.broken .endInString, offset + Symbol.widths input⟩
  else ⟨.broken .invalidEscape, offset + 4⟩

/-- The pieces of a literal whose opening delimiter has been passed, and the input behind. The last
piece tells how the literal ends. -/
def scan (offset : Nat) : List Symbol → List Piece × List Symbol
  | [] => ([⟨.broken .endInString, offset⟩], [])
  | .stray _ :: rest =>
    let (pieces, left) := scan (offset + 1) rest
    (⟨.stray, offset + 1⟩ :: pieces, left)
  | .char c :: rest =>
    if c = '"' then ([⟨.close, offset + 1⟩], rest)
    else if c = '\\' then
      match rest with
      | [] => ([⟨.broken .endInString, offset + 1⟩], [])
      | .stray _ :: rest => ([⟨.badLetter, offset + 2⟩], rest)
      | .char e :: rest =>
        if e = 'u' then
          match rest with
          | a :: b :: c :: d :: rest' =>
            match codeUnit? a b c d with
            | some n =>
              let (pieces, left) := scan (offset + 6) rest'
              (⟨.unit n, offset + 6⟩ :: pieces, left)
            | none => ([brokenUnit (offset + 2) rest], rest)
          | _ => ([brokenUnit (offset + 2) rest], rest)
        else
          match named? e with
          | some named =>
            let (pieces, left) := scan (offset + 2) rest
            (⟨.letter named, offset + 2⟩ :: pieces, left)
          | none => ([⟨.badLetter, offset + 2⟩], rest)
    else if c.toNat < 0x20 then ([⟨.control, offset + 1⟩], rest)
    else
      let (pieces, left) := scan (offset + c.utf8Size) rest
      (⟨.plain c, offset + 1⟩ :: pieces, left)

/-- Whether a literal has an end: the verdict of a reader that passes over it. Such a reader stops
in front of a control character. -/
def skip : List Piece → Except Fault Unit
  | [] => .ok ()
  | piece :: rest =>
    match piece.kind with
    | .control => .error ⟨.controlCharacter, piece.seen - 1⟩
    | .badLetter => .error ⟨.invalidEscape, piece.seen⟩
    | .broken problem => .error ⟨problem, piece.seen⟩
    | _ => skip rest

/-- Whether a code unit is the second half of a pair. -/
def isTrailing (n : Nat) : Bool := 0xdc00 ≤ n && n ≤ 0xdfff

/-- Whether a code unit is the first half of a pair. -/
def isLeading (n : Nat) : Bool := 0xd800 ≤ n && n ≤ 0xdbff

/-- The character that a pair of code units stands for. -/
def paired (lead trail : Nat) : Char :=
  Char.ofNat (0x10000 + (lead - 0xd800) * 0x400 + (trail - 0xdc00))

/-- What is wrong with a first half of a pair that another piece than a code unit follows. -/
def unpaired (piece : Piece) : Fault :=
  match piece.kind with
  | .broken problem => ⟨problem, piece.seen⟩
  | _ => ⟨.unfinishedSurrogatePair, piece.seen⟩

/-- The characters of a literal. Pairs of code units are joined. A byte without a character is
reported only once the literal is known to end; `spoilt` is the number of bytes that the literal
stands for from the first such byte on, and the report is as many bytes in front of its end. -/
def read (spoilt : Option Nat) : List Piece → Except Fault (List Char)
  | [] => .ok []
  | piece :: rest =>
    match piece.kind with
    | .plain c | .letter c => do
      let chars ← read (spoilt.map (· + c.utf8Size)) rest
      pure (c :: chars)
    | .stray => read (some (spoilt.getD 0 + 1)) rest
    | .unit n =>
      if isTrailing n then .error ⟨.loneSurrogate, piece.seen⟩
      else if isLeading n then
        match rest with
        | [] => .ok []
        | second :: rest =>
          match second.kind with
          | .unit m =>
            if isTrailing m then do
              let c := paired n m
              let chars ← read (spoilt.map (· + c.utf8Size)) rest
              pure (c :: chars)
            else .error ⟨.loneSurrogate, second.seen⟩
          | _ => .error second.unpaired
      else do
        let c := Char.ofNat n
        let chars ← read (spoilt.map (· + c.utf8Size)) rest
        pure (c :: chars)
    | .close =>
      match spoilt with
      | some bytes => .error ⟨.invalidCodePoint, piece.seen - bytes⟩
      | none => .ok []
    | .control => .error ⟨.controlCharacter, piece.seen⟩
    | .badLetter => .error ⟨.invalidEscape, piece.seen⟩
    | .broken problem => .error ⟨problem, piece.seen⟩

end Piece

end FlowContract.Json
