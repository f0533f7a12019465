import FlowContract.Json.Numeral
import FlowContract.Json.Piece
import FlowContract.Json.Value

/-!
Texts that hold a document: the grammar, without a reader. What a text holds is a tree that keeps
the order in which the members of a mapping are written, and keys that are written more than once;
blanks, escapes and the notation of numbers leave no trace in it. A text in which one half of a
pair of code units is escaped without the other half holds no document.
-/

namespace FlowContract.Json

/-- What a text holds. -/
inductive Document where
  | null
  | boolean (value : Bool)
  /-- A number, or nothing if it is out of range. A numeral is scaled in doubles, where rounding
  leads beyond them also from some quantities just below the largest one. -/
  | number (value : Option Number)
  | string (value : String)
  | list (items : List Document)
  | mapping (members : List (String × Document))

/-- The number that a numeral is read as, unless it is out of range for the reader. -/
def Numeral.value? (numeral : Numeral) : Option Number := (numeral.read 0).toOption

namespace Document

/-- Induction over documents: what holds of a list or mapping whenever it holds of all its members
holds of every document. -/
@[elab_as_elim, induction_eliminator]
theorem induct {motive : Document → Prop}
    (null : motive .null)
    (boolean : ∀ value, motive (.boolean value))
    (number : ∀ value, motive (.number value))
    (string : ∀ value, motive (.string value))
    (list : ∀ items, (∀ item ∈ items, motive item) → motive (.list items))
    (mapping : ∀ members, (∀ member ∈ members, motive member.2) → motive (.mapping members))
    (document : Document) : motive document := by
  refine Document.rec (motive_1 := motive) (motive_2 := fun items => ∀ item ∈ items, motive item)
    (motive_3 := fun members => ∀ member ∈ members, motive member.2)
    (motive_4 := fun member => motive member.2)
    null boolean number string (fun items h => list items h) (fun members h => mapping members h)
    ?_ ?_ ?_ ?_ ?_ document
  · simp
  · intro head tail hhead htail
    simp only [List.mem_cons, forall_eq_or_imp]
    exact ⟨hhead, htail⟩
  · simp
  · intro head tail hhead htail
    simp only [List.mem_cons, forall_eq_or_imp]
    exact ⟨hhead, htail⟩
  · intro name item h
    exact h

mutual

/-- How many lists and mappings enclose one another. -/
def depth : Document → Nat
  | .list items => depthOfItems items + 1
  | .mapping members => depthOfMembers members + 1
  | _ => 0
termination_by structural document => document

def depthOfItems : List Document → Nat
  | [] => 0
  | item :: rest => max item.depth (depthOfItems rest)
termination_by structural items => items

def depthOfMembers : List (String × Document) → Nat
  | [] => 0
  | (_, item) :: rest => max item.depth (depthOfMembers rest)
termination_by structural members => members

end

mutual

/-- The value of a document all of whose numbers are in range. Of members under one key the last
one counts. -/
def value? : Document → Option Value
  | .null => some .null
  | .boolean value => some (.boolean value)
  | .number value => value.map .number
  | .string value => some (.string value)
  | .list items => (valuesOfItems items).map .list
  | .mapping members => (valuesOfMembers members).map .ofPairs
termination_by structural document => document

def valuesOfItems : List Document → Option (List Value)
  | [] => some []
  | item :: rest => do
    let value ← item.value?
    let values ← valuesOfItems rest
    pure (value :: values)
termination_by structural items => items

def valuesOfMembers : List (String × Document) → Option (List (String × Value))
  | [] => some []
  | (name, item) :: rest => do
    let value ← item.value?
    let values ← valuesOfMembers rest
    pure ((name, value) :: values)
termination_by structural members => members

end

end Document

/-! ### Strings -/

/-- The text of a string between its delimiters, and the characters that it stands for. An escape of
one half of a pair of code units stands for no character, so that without the other half behind or
in front of it a text is that of no string. -/
inductive StringText : List Char → List Char → Prop
  | nil : StringText [] []
  | plain {c : Char} {text chars : List Char} (delimiter : c ≠ '"') (escape : c ≠ '\\')
      (printable : 0x20 ≤ c.toNat) : StringText text chars → StringText (c :: text) (c :: chars)
  /-- A backslash and a letter that names a character. -/
  | letter {e c : Char} {text chars : List Char} (named : Piece.named? e = some c) :
      StringText text chars → StringText ('\\' :: e :: text) (c :: chars)
  /-- A code unit that is a character by itself. -/
  | unit {a b c d : Char} {n : Nat} {text chars : List Char}
      (digits : Piece.codeUnit? (.char a) (.char b) (.char c) (.char d) = some n)
      (leading : Piece.isLeading n = false) (trailing : Piece.isTrailing n = false) :
      StringText text chars →
      StringText ('\\' :: 'u' :: a :: b :: c :: d :: text) (Char.ofNat n :: chars)
  /-- Two code units that make up a character. -/
  | pair {a b c d a' b' c' d' : Char} {lead trail : Nat} {text chars : List Char}
      (digits : Piece.codeUnit? (.char a) (.char b) (.char c) (.char d) = some lead)
      (leading : Piece.isLeading lead = true)
      (digits' : Piece.codeUnit? (.char a') (.char b') (.char c') (.char d') = some trail)
      (trailing : Piece.isTrailing trail = true) :
      StringText text chars →
      StringText ('\\' :: 'u' :: a :: b :: c :: d :: '\\' :: 'u' :: a' :: b' :: c' :: d' :: text)
        (Piece.paired lead trail :: chars)

/-- A string with its delimiters. -/
def SpellsString (value : String) (text : List Char) : Prop :=
  ∃ inner, StringText inner value.toList ∧ text = '"' :: inner ++ ['"']

/-! ### Numerals -/

namespace Numeral

def digitText (digits : List Nat) : List Char := digits.map Nat.digitChar

/-- Decimal digits, at least one. -/
def AreDigits (digits : List Nat) : Prop := digits ≠ [] ∧ ∀ d ∈ digits, d < 10

/-- The digits in front of a point: no other digit stands behind a leading zero. -/
def IsWhole (digits : List Nat) : Prop :=
  AreDigits digits ∧ (digits.head? = some 0 → digits = [0])

/-- A point and the digits behind it, unless there are none. -/
def SpellsFraction (digits : List Nat) (text : List Char) : Prop :=
  (digits = [] ∧ text = []) ∨ (AreDigits digits ∧ text = '.' :: digitText digits)

/-- The mark of an exponent, its sign and its digits, if there is an exponent. -/
def SpellsExponent : Option (Bool × List Nat) → List Char → Prop
  | none, text => text = []
  | some (negative, digits), text => AreDigits digits ∧ ∃ mark sign,
      (mark = 'e' ∨ mark = 'E') ∧
      (if negative then sign = ['-'] else sign = [] ∨ sign = ['+']) ∧
      text = mark :: sign ++ digitText digits

def Spelled (numeral : Numeral) (text : List Char) : Prop :=
  IsWhole numeral.whole ∧ ∃ fraction exponent,
    SpellsFraction numeral.fraction fraction ∧ SpellsExponent numeral.exponent exponent ∧
    text = (if numeral.negative then ['-'] else []) ++ digitText numeral.whole ++ fraction
      ++ exponent

end Numeral

/-! ### Documents -/

def AreBlanks (text : List Char) : Prop := ∀ c ∈ text, Symbol.isBlank (.char c) = true

/-- With blanks on both sides. -/
def Padded (spells : List Char → Prop) (text : List Char) : Prop :=
  ∃ before inner after, AreBlanks before ∧ spells inner ∧ AreBlanks after ∧
    text = before ++ inner ++ after

/-- A key, a colon and what stands under the key. -/
def SpellsMember (name : String) (spells : List Char → Prop) (text : List Char) : Prop :=
  ∃ key item, Padded (SpellsString name) key ∧ Padded spells item ∧ text = key ++ ':' :: item

namespace Document

mutual

/-- Whether a text, without blanks around it, spells a document. -/
def Spelled : Document → List Char → Prop
  | .null, text => text = ['n', 'u', 'l', 'l']
  | .boolean value, text =>
    text = if value then ['t', 'r', 'u', 'e'] else ['f', 'a', 'l', 's', 'e']
  | .number value, text => ∃ numeral : Numeral, numeral.Spelled text ∧ numeral.value? = value
  | .string value, text => SpellsString value text
  | .list items, text => ∃ inner, SpelledItems items inner ∧ text = '[' :: inner ++ [']']
  | .mapping members, text =>
    ∃ inner, SpelledMembers members inner ∧ text = '\x7b' :: inner ++ ['\x7d']
termination_by structural document => document

/-- Elements between brackets, with commas between them. -/
def SpelledItems : List Document → List Char → Prop
  | [], text => AreBlanks text
  | [item], text => Padded item.Spelled text
  | item :: next :: rest, text => ∃ head tail,
      Padded item.Spelled head ∧ SpelledItems (next :: rest) tail ∧ text = head ++ ',' :: tail
termination_by structural items => items

/-- Members between brackets, with commas between them. -/
def SpelledMembers : List (String × Document) → List Char → Prop
  | [], text => AreBlanks text
  | [(name, item)], text => SpellsMember name item.Spelled text
  | (name, item) :: next :: rest, text => ∃ head tail,
      SpellsMember name item.Spelled head ∧ SpelledMembers (next :: rest) tail ∧
      text = head ++ ',' :: tail
termination_by structural members => members

end

/-- Whether a whole text spells a document. -/
def SpelledBy (document : Document) (text : String) : Prop := Padded document.Spelled text.toList

end Document

end FlowContract.Json
