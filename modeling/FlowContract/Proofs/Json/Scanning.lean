import FlowContract.Json.Token
import FlowContract.Proofs.Json.Document
import Mathlib.Tactic.IntervalCases

/-!
Words, numerals and strings in a text: each of them becomes one token, whatever stands in front of
it and behind it. A numeral has no end of its own, so what stands behind it must not go on with it.
-/

namespace FlowContract.Json

/-- Characters as input. -/
abbrev symbols (text : List Char) : List Symbol := text.map .char

namespace Numeral

/-- No digit stands at the head of a text. -/
def EndsDigits (rest : List Char) : Prop := ∀ c ∈ rest.head?, c.isDigit = false

/-- What stands at the head of a text does not belong to a numeral in front of it. -/
def Ends (rest : List Char) : Prop :=
  ∀ c ∈ rest.head?, c.isDigit = false ∧ c ≠ '.' ∧ c ≠ 'e' ∧ c ≠ 'E'

theorem Ends.endsDigits {rest : List Char} (h : Ends rest) : EndsDigits rest :=
  fun c hc => (h c hc).1

theorem digit?_digitChar {d : Nat} (h : d < 10) : (Symbol.char d.digitChar).digit? = some d := by
  have hdigit : d.digitChar.isDigit = true := Nat.isDigit_digitChar.trans (decide_eq_true h)
  have hvalue : d.digitChar.toNat - '0'.toNat = d := Nat.toNat_digitChar_sub_48_of_lt_ten h
  simp only [Symbol.digit?, hdigit, if_true, hvalue]

theorem digits_digitText {ds : List Nat} (h : ∀ d ∈ ds, d < 10) {rest : List Char}
    (hrest : EndsDigits rest) :
    digits (symbols (digitText ds ++ rest)) = (ds, symbols rest) := by
  induction ds with
  | nil =>
    cases rest with
    | nil => rfl
    | cons c tail =>
      have hc : (Symbol.char c).digit? = none := by
        simp [Symbol.digit?, hrest c rfl]
      simp [digitText, digits, hc]
  | cons d ds ih =>
    have hd := digit?_digitChar (h d List.mem_cons_self)
    have htail := ih fun d' hd' => h d' (List.mem_cons_of_mem _ hd')
    simp only [digitText, List.map_cons, List.cons_append, symbols, digits, hd] at htail ⊢
    rw [htail]

theorem exists_cons_of_areDigits {ds : List Nat} (h : AreDigits ds) (rest : List Char) :
    ∃ symbol tail, symbols (digitText ds ++ rest) = symbol :: tail := by
  obtain ⟨d, ds', rfl⟩ := List.exists_cons_of_ne_nil h.1
  exact ⟨_, _, rfl⟩

theorem scanWhole_spelled {ds : List Nat} (h : IsWhole ds) {rest : List Char}
    (hrest : EndsDigits rest) (offset : Nat) :
    scanWhole offset (symbols (digitText ds ++ rest)) =
      .ok ⟨ds, offset + ds.length, symbols rest⟩ := by
  obtain ⟨symbol, tail, hcons⟩ := exists_cons_of_areDigits h.1 rest
  have hdigits := digits_digitText h.1.2 hrest
  rw [hcons] at hdigits ⊢
  simp only [scanWhole, hdigits]
  split
  · rename_i hnil
    exact absurd (congrArg Prod.fst hnil) h.1.1
  · rename_i hzero
    obtain ⟨rfl, -⟩ := Prod.mk.inj hzero
    exact absurd (h.2 rfl) (by simp)
  · rename_i hdigits'
    obtain ⟨rfl, rfl⟩ := Prod.mk.inj hdigits'
    rfl

theorem scanFraction_spelled {ds : List Nat} {text : List Char} (h : SpellsFraction ds text)
    {rest : List Char} (hdigits : EndsDigits rest) (hpoint : ∀ c ∈ rest.head?, c ≠ '.')
    (offset : Nat) : ∃ stop,
      scanFraction offset (symbols (text ++ rest)) = .ok ⟨ds, stop, symbols rest⟩ := by
  rcases h with ⟨rfl, rfl⟩ | ⟨hds, rfl⟩
  · cases rest with
    | nil => exact ⟨offset, rfl⟩
    | cons c tail =>
      have hc : (Symbol.char c).is '.' = false := by
        simp [Symbol.is, hpoint c rfl]
      exact ⟨offset, by simp [scanFraction, hc]⟩
  · have hscan := digits_digitText hds.2 hdigits
    have hpoint : (Symbol.char '.').is '.' = true := by decide
    refine ⟨offset + 1 + ds.length, ?_⟩
    simp only [symbols, List.cons_append, List.map_cons, scanFraction, hpoint, if_true]
    simp only [symbols] at hscan
    rw [hscan]
    obtain ⟨d, ds', rfl⟩ := List.exists_cons_of_ne_nil hds.1
    rfl

theorem scanExponentDigits_spelled {ds : List Nat} (h : AreDigits ds) {rest : List Char}
    (hrest : EndsDigits rest) (negative : Bool) (offset : Nat) :
    scanExponentDigits negative offset (symbols (digitText ds ++ rest)) =
      .ok ⟨some (negative, ds), offset + ds.length, symbols rest⟩ := by
  obtain ⟨symbol, tail, hcons⟩ := exists_cons_of_areDigits h rest
  have hdigits := digits_digitText h.2 hrest
  rw [hcons] at hdigits ⊢
  obtain ⟨d, ds', rfl⟩ := List.exists_cons_of_ne_nil h.1
  simp only [scanExponentDigits, hdigits]

theorem is_self (c : Char) : (Symbol.char c).is c = true := by
  simp [Symbol.is]

theorem is_of_ne {c d : Char} (h : c ≠ d) : (Symbol.char c).is d = false := by
  simp [Symbol.is, h]

theorem digitChar_ne {d : Nat} (h : d < 10) {c : Char} (hc : c.isDigit = false) :
    d.digitChar ≠ c := by
  rintro rfl
  rw [Nat.isDigit_digitChar, decide_eq_true h] at hc
  cases hc

theorem scanExponent_spelled {exponent : Option (Bool × List Nat)} {text : List Char}
    (h : SpellsExponent exponent text) {rest : List Char} (hrest : Ends rest) (offset : Nat) :
    ∃ stop, scanExponent offset (symbols (text ++ rest)) = .ok ⟨exponent, stop, symbols rest⟩ := by
  match exponent, h with
  | none, h =>
    obtain rfl : text = [] := h
    cases rest with
    | nil => exact ⟨offset, rfl⟩
    | cons c tail =>
      obtain ⟨-, -, hlower, hupper⟩ := hrest c rfl
      exact ⟨offset, by simp [scanExponent, is_of_ne hlower, is_of_ne hupper]⟩
  | some (negative, ds), ⟨hds, mark, sign, hmark, hsign, htext⟩ =>
    subst htext
    have hmarked : ((Symbol.char mark).is 'e' || (Symbol.char mark).is 'E') = true := by
      rcases hmark with rfl | rfl <;> decide
    have hdigits := scanExponentDigits_spelled hds hrest.endsDigits
    simp only [symbols, List.cons_append, List.append_assoc, List.map_cons, scanExponent, hmarked,
      if_true]
    cases negative with
    | true =>
      obtain rfl : sign = ['-'] := hsign
      exact ⟨_, (if_pos (is_self '-')).trans (hdigits true (offset + 2))⟩
    | false =>
      rcases hsign with rfl | rfl
      · -- Without a sign, a digit stands where the sign would.
        obtain ⟨d, ds', rfl⟩ := List.exists_cons_of_ne_nil hds.1
        have hd := hds.2 d List.mem_cons_self
        have hminus := is_of_ne (digitChar_ne hd (c := '-') (by decide))
        have hplus := is_of_ne (digitChar_ne hd (c := '+') (by decide))
        simp only [digitText, List.nil_append, List.map_cons, List.cons_append, hminus, hplus]
        exact ⟨_, hdigits false (offset + 1)⟩
      · exact ⟨_, hdigits false (offset + 2)⟩

theorem head_exponent {exponent : Option (Bool × List Nat)} {text : List Char}
    (h : SpellsExponent exponent text) {rest : List Char} (hrest : Ends rest) :
    ∀ c ∈ (text ++ rest).head?, c.isDigit = false ∧ c ≠ '.' := by
  match exponent, h with
  | none, h =>
    obtain rfl : text = [] := h
    exact fun c hc => ⟨(hrest c hc).1, (hrest c hc).2.1⟩
  | some (negative, ds), ⟨_, mark, sign, hmark, _, htext⟩ =>
    subst htext
    intro c hc
    obtain rfl : mark = c := Option.some.inj hc
    rcases hmark with rfl | rfl <;> decide

theorem endsDigits_fraction {ds : List Nat} {text : List Char} (h : SpellsFraction ds text)
    {rest : List Char} (hrest : EndsDigits rest) : EndsDigits (text ++ rest) := by
  rcases h with ⟨-, rfl⟩ | ⟨-, rfl⟩
  · exact hrest
  · intro c hc
    obtain rfl : '.' = c := Option.some.inj hc
    decide

/-- A numeral is scanned to its end. -/
theorem scan_spelled {numeral : Numeral} {text : List Char} (h : numeral.Spelled text)
    {rest : List Char} (hrest : Ends rest) (offset : Nat) :
    ∃ stop, scan offset (symbols (text ++ rest)) = .ok ⟨numeral, stop, symbols rest⟩ := by
  obtain ⟨negative, whole, fraction, exponent⟩ := numeral
  obtain ⟨hwhole, fractionText, exponentText, hfraction, hexponent, rfl⟩ := h
  have hhead := head_exponent hexponent hrest
  have hbehind := endsDigits_fraction hfraction fun c hc => (hhead c hc).1
  -- What is scanned once the sign has been passed.
  have hunsigned (offset : Nat) : ∃ stop, (do
      let whole ← scanWhole offset
        (symbols (digitText whole ++ (fractionText ++ (exponentText ++ rest))))
      let fraction ← scanFraction whole.stop whole.rest
      let exponent ← scanExponent fraction.stop fraction.rest
      pure (⟨⟨negative, whole.part, fraction.part, exponent.part⟩, exponent.stop,
        exponent.rest⟩ : Scanned Numeral)) =
          .ok ⟨⟨negative, whole, fraction, exponent⟩, stop, symbols rest⟩ := by
    obtain ⟨stop, hstop⟩ := scanFraction_spelled hfraction (fun c hc => (hhead c hc).1)
      (fun c hc => (hhead c hc).2) (offset + whole.length)
    obtain ⟨stop', hstop'⟩ := scanExponent_spelled hexponent hrest stop
    refine ⟨stop', ?_⟩
    rw [scanWhole_spelled hwhole hbehind]
    simp only [bind, Except.bind, hstop, hstop', pure, Except.pure]
  simp only [List.append_assoc]
  cases negative with
  | true => exact hunsigned (offset + 1)
  | false =>
    obtain ⟨d, ds, rfl⟩ := List.exists_cons_of_ne_nil hwhole.1.1
    have hminus := is_of_ne (digitChar_ne (hwhole.1.2 d List.mem_cons_self) (c := '-') (by decide))
    obtain ⟨stop, hstop⟩ := hunsigned offset
    refine ⟨stop, Eq.trans ?_ hstop⟩
    simp only [scan, digitText, Bool.false_eq_true, if_false, List.nil_append, List.map_cons,
      List.cons_append, symbols, hminus]

theorem toOption_signed (numeral : Numeral) (stop : Nat) (x : Option Double) :
    (numeral.signed stop x).toOption = (numeral.signed 0 x).toOption := by
  cases x <;> rfl

/-- Where a numeral stands only matters for what is said about it. -/
theorem toOption_read (numeral : Numeral) (stop : Nat) :
    (numeral.read stop).toOption = numeral.value? := by
  unfold value? read
  split
  split
  · cases numeral.integer? _ with
    | none =>
      rw [Option.elim_none, Option.elim_none]
      exact toOption_signed numeral stop _
    | some n => rw [Option.elim_some, Option.elim_some]
  · split
    split
    · exact toOption_signed numeral stop _
    · split
      · exact toOption_signed numeral stop _
      · split
        · rfl
        · exact toOption_signed numeral stop _

end Numeral

namespace Piece

theorem scan_close (offset : Nat) (rest : List Symbol) :
    scan offset (.char '"' :: rest) = ([⟨.close, offset + 1⟩], rest) := by
  rw [scan.eq_def]
  rfl

theorem scan_plain {c : Char} (hdelimiter : c ≠ '"') (hescape : c ≠ '\\')
    (hprintable : 0x20 ≤ c.toNat) (offset : Nat) (rest : List Symbol) :
    scan offset (.char c :: rest) = (⟨.plain c, offset + 1⟩ :: (scan (offset + c.utf8Size) rest).1,
      (scan (offset + c.utf8Size) rest).2) := by
  rw [scan.eq_def]
  simp only [if_neg hdelimiter, if_neg hescape, if_neg (Nat.not_lt.mpr hprintable)]

theorem scan_letter {e c : Char} (hnamed : named? e = some c) (offset : Nat)
    (rest : List Symbol) :
    scan offset (.char '\\' :: .char e :: rest) =
      (⟨.letter c, offset + 2⟩ :: (scan (offset + 2) rest).1, (scan (offset + 2) rest).2) := by
  have hunit : e ≠ 'u' := by
    rintro rfl
    cases hnamed
  rw [scan.eq_def]
  simp [hunit, hnamed]

theorem scan_unit {a b c d : Symbol} {n : Nat} (hdigits : codeUnit? a b c d = some n)
    (offset : Nat) (rest : List Symbol) :
    scan offset (.char '\\' :: .char 'u' :: a :: b :: c :: d :: rest) =
      (⟨.unit n, offset + 6⟩ :: (scan (offset + 6) rest).1, (scan (offset + 6) rest).2) := by
  rw [scan.eq_def]
  simp [hdigits]

/-- A string literal whose opening delimiter has been passed is cut up to its end, and its pieces
stand for the characters that it spells. -/
theorem scan_spelled {text chars : List Char} (h : StringText text chars) (rest : List Char)
    (offset : Nat) : ∃ pieces,
      scan offset (symbols (text ++ '"' :: rest)) = (pieces, symbols rest) ∧
      skip pieces = .ok () ∧ read none pieces = .ok chars := by
  simp only [symbols]
  induction h generalizing offset with
  | nil => exact ⟨[⟨.close, offset + 1⟩], scan_close offset _, rfl, rfl⟩
  | @plain c text chars hdelimiter hescape hprintable _ ih =>
    obtain ⟨pieces, hscan, hskip, hread⟩ := ih (offset + c.utf8Size)
    refine ⟨⟨.plain c, offset + 1⟩ :: pieces, ?_, hskip, ?_⟩
    · rw [List.cons_append, List.map_cons, scan_plain hdelimiter hescape hprintable, hscan]
    · simp only [read, Option.map_none, hread, bind, Except.bind, pure, Except.pure]
  | @letter e c text chars hnamed _ ih =>
    obtain ⟨pieces, hscan, hskip, hread⟩ := ih (offset + 2)
    refine ⟨⟨.letter c, offset + 2⟩ :: pieces, ?_, hskip, ?_⟩
    · simp only [List.cons_append, List.map_cons, scan_letter hnamed, hscan]
    · simp only [read, Option.map_none, hread, bind, Except.bind, pure, Except.pure]
  | @unit a b c d n text chars hdigits hleading htrailing _ ih =>
    obtain ⟨pieces, hscan, hskip, hread⟩ := ih (offset + 6)
    refine ⟨⟨.unit n, offset + 6⟩ :: pieces, ?_, hskip, ?_⟩
    · simp only [List.cons_append, List.map_cons, scan_unit hdigits, hscan]
    · simp [read, hleading, htrailing, hread, bind, Except.bind, pure, Except.pure]
  | @pair a b c d a' b' c' d' lead trail text chars hdigits hleading hdigits' htrailing _ ih =>
    obtain ⟨pieces, hscan, hskip, hread⟩ := ih (offset + 12)
    have hleft : isTrailing lead = false := by
      simp only [isLeading, isTrailing, Bool.and_eq_true, decide_eq_true_eq] at hleading ⊢
      simp
      omega
    refine ⟨⟨.unit lead, offset + 6⟩ :: ⟨.unit trail, offset + 12⟩ :: pieces, ?_, hskip, ?_⟩
    · simp only [List.cons_append, List.map_cons, scan_unit hdigits, scan_unit hdigits', hscan]
    · simp [read, hleading, hleft, htrailing, hread, bind, Except.bind, pure, Except.pure]

end Piece

namespace Token

/-- Whether a text in front of another one is exactly one token, with a lexeme of some kind. -/
def Scans (text rest : List Char) (kind : Lexeme → Prop) : Prop :=
  ∃ c tail, text = c :: tail ∧ Symbol.isBlank (.char c) = false ∧
    ∀ offset, ∃ token, scan offset (.char c) (symbols (tail ++ rest)) = (token, symbols rest) ∧
      kind token.lexeme

theorem Scans.imp {text rest : List Char} {kind kind' : Lexeme → Prop} (h : Scans text rest kind)
    (himp : ∀ lexeme, kind lexeme → kind' lexeme) : Scans text rest kind' := by
  obtain ⟨c, tail, htext, hblank, hscan⟩ := h
  refine ⟨c, tail, htext, hblank, fun offset => ?_⟩
  obtain ⟨token, htoken, hkind⟩ := hscan offset
  exact ⟨token, htoken, himp _ hkind⟩

theorem scans_mark {c : Char} {lexeme : Lexeme} (rest : List Char)
    (hblank : Symbol.isBlank (.char c) = false)
    (hscan : ∀ offset rest, scan offset (.char c) rest = mark offset lexeme rest) :
    Scans [c] rest (· = lexeme) :=
  ⟨c, [], rfl, hblank, fun offset => ⟨_, hscan offset _, rfl⟩⟩

theorem scanWord_spelled (letters rest : List Char) (offset : Nat) :
    scanWord offset letters (symbols (letters ++ rest)) =
      .ok (offset + letters.length, symbols rest) := by
  induction letters generalizing offset with
  | nil => rfl
  | cons c letters ih =>
    have hrest := ih (offset + 1)
    simp only [symbols, List.cons_append, List.map_cons, scanWord, Numeral.is_self, if_true]
    simp only [symbols] at hrest
    rw [hrest, List.length_cons, Nat.add_assoc, Nat.add_comm 1]

theorem scans_word {c : Char} {letters : String} {value : Value} (rest : List Char)
    (hblank : Symbol.isBlank (.char c) = false)
    (hscan : ∀ offset rest, scan offset (.char c) rest = word offset letters value rest) :
    Scans (c :: letters.toList) rest (· = .scalar false (.ok value) (.ok ())) := by
  refine ⟨c, letters.toList, rfl, hblank, fun offset => ?_⟩
  rw [hscan, word, scanWord_spelled]
  exact ⟨_, rfl, rfl⟩

theorem scans_string {value : String} {text : List Char} (h : SpellsString value text)
    (rest : List Char) : Scans text rest (· = .scalar true (.ok (.string value)) (.ok ())) := by
  obtain ⟨inner, hinner, rfl⟩ := h
  refine ⟨'"', inner ++ ['"'], rfl, rfl, fun offset => ?_⟩
  obtain ⟨pieces, hscan, hskip, hread⟩ := Piece.scan_spelled hinner rest (offset + 1)
  have htoken : scan offset (.char '"') (symbols (inner ++ ['"'] ++ rest)) =
      string offset (symbols (inner ++ '"' :: rest)) := by
    rw [List.append_assoc]
    rfl
  rw [htoken, string, hscan]
  simp only [hskip, hread, Except.map, String.ofList_toList]
  exact ⟨_, rfl, rfl⟩

theorem scan_digit {d : Nat} (h : d < 10) (offset : Nat) (rest : List Symbol) :
    scan offset (.char d.digitChar) rest = numeral offset (.char d.digitChar :: rest) := by
  interval_cases d <;> rfl

theorem scan_numeral {n : Numeral} {text : List Char} (h : n.Spelled text) : ∃ c tail,
    text = c :: tail ∧ Symbol.isBlank (.char c) = false ∧
    ∀ offset rest, scan offset (.char c) rest = numeral offset (.char c :: rest) := by
  obtain ⟨hwhole, fraction, exponent, -, -, rfl⟩ := h
  cases n.negative with
  | true => exact ⟨'-', _, rfl, rfl, fun _ _ => rfl⟩
  | false =>
    obtain ⟨d, ds, hds⟩ := List.exists_cons_of_ne_nil hwhole.1.1
    have hd : d < 10 := hwhole.1.2 d (hds ▸ List.mem_cons_self)
    have hblank : Symbol.isBlank (.char d.digitChar) = false := by
      interval_cases d <;> rfl
    rw [hds]
    exact ⟨d.digitChar, _, rfl, hblank, scan_digit hd⟩

theorem scans_numeral {n : Numeral} {text : List Char} (h : n.Spelled text) {rest : List Char}
    (hrest : Numeral.Ends rest) : Scans text rest fun lexeme => ∃ reading,
      lexeme = .scalar false reading (.ok ()) ∧
      reading.toOption = n.value?.map Value.number := by
  obtain ⟨c, tail, rfl, hblank, hscan⟩ := scan_numeral h
  refine ⟨c, tail, rfl, hblank, fun offset => ?_⟩
  obtain ⟨stop, hstop⟩ := Numeral.scan_spelled h hrest offset
  have htoken : scan offset (.char c) (symbols (tail ++ rest)) =
      numeral offset (symbols (c :: tail ++ rest)) := hscan offset _
  rw [htoken, numeral, hstop]
  refine ⟨_, rfl, _, rfl, ?_⟩
  rw [← Numeral.toOption_read n stop]
  cases n.read stop <;> rfl

end Token

end FlowContract.Json
