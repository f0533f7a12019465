import FlowContract.Proofs.Json.Document
import Mathlib.Data.List.DropRight
import Mathlib.Tactic.IntervalCases

/-!
The texts of numbers. Every number is written as a numeral; an integer is written as one that stands
for it. Whether a double stands for what it is read back as is left open here.
-/

namespace FlowContract.Json

namespace Numeral

/-- The number that digits stand for behind others. -/
def horner (value : Nat) (digits : List Nat) : Nat :=
  digits.foldl (fun value d => value * 10 + d) value

theorem digitText_append (digits digits' : List Nat) :
    digitText (digits ++ digits') = digitText digits ++ digitText digits' :=
  List.map_append

/-- A natural number is written with its digits, without a leading zero. -/
theorem exists_digits (n : Nat) : ∃ digits, digitText digits = Nat.toDigits 10 n ∧
    IsWhole digits ∧ horner 0 digits = n := by
  induction n using Nat.strongRecOn with
  | _ n ih =>
    rcases Nat.lt_or_ge n 10 with hlt | hge
    · exact ⟨[n], (Nat.toDigits_of_lt_base hlt).symm,
        ⟨⟨by simp, by simpa using hlt⟩, by simp⟩, by simp [horner]⟩
    · obtain ⟨digits, htext, ⟨hdigits, hhead⟩, hvalue⟩ := ih (n / 10) (by omega)
      refine ⟨digits ++ [n % 10], ?_, ⟨⟨by simp, ?_⟩, ?_⟩, ?_⟩
      · rw [digitText_append, htext, Nat.toDigits_eq_if (b := 10) (n := n) (by decide),
          if_neg (by omega)]
        rfl
      · intro d hd
        rcases List.mem_append.mp hd with hd | hd
        · exact hdigits.2 d hd
        · obtain rfl := List.mem_singleton.mp hd
          omega
      · intro hzero
        obtain ⟨d, ds, rfl⟩ := List.exists_cons_of_ne_nil hdigits.1
        obtain rfl : d = 0 := by simpa using hzero
        -- The number without its last digit would be zero.
        have hnil := hhead rfl
        rw [hnil] at hvalue
        simp [horner] at hvalue
        omega
      · have happend : horner 0 (digits ++ [n % 10]) = horner 0 digits * 10 + n % 10 := by
          simp [horner]
        rw [happend, hvalue]
        omega

theorem le_horner (value : Nat) (digits : List Nat) : value ≤ horner value digits := by
  induction digits generalizing value with
  | nil => exact Nat.le_refl _
  | cons d digits ih => exact Nat.le_trans (by omega) (ih (value * 10 + d))

/-- Digits are taken as they are where their number fits. -/
theorem absorb_of_lt {value : Nat} {digits : List Nat}
    (h : horner value digits < 0x10000000000000000) :
    absorb value digits = (horner value digits, []) := by
  induction digits generalizing value with
  | nil => rfl
  | cons d digits ih =>
    have hle := le_horner (value * 10 + d) digits
    have hlt : value * 10 + d < 0x10000000000000000 := Nat.lt_of_le_of_lt hle h
    rw [absorb, if_pos hlt, ih h]
    rfl

theorem value?_of_integer {negative : Bool} {whole : List Nat} {n : Nat} {number : Number}
    (habsorb : absorb 0 whole = (n, []))
    (hinteger : integer? ⟨negative, whole, [], none⟩ n = some number) :
    value? ⟨negative, whole, [], none⟩ = some number := by
  simp only [value?, read, habsorb, hinteger, List.isEmpty_nil, Option.isNone_none, Bool.and_self,
    if_true, Option.elim_some, Except.toOption]

end Numeral

theorem toList_toString (n : Nat) : (toString n).toList = Nat.toDigits 10 n := by
  rw [Nat.toString_eq_ofList_toDigits, String.toList_ofList]

theorem ofInt?_of_bounds {value : Int} (least : -0x8000000000000000 ≤ value)
    (greatest : value < 0x10000000000000000) :
    Number.ofInt? value = some (.integer value least greatest) := by
  rw [Number.ofInt?, dif_pos least, dif_pos greatest]

theorem spelled_whole {digits : List Nat} (h : Numeral.IsWhole digits) (negative : Bool) :
    Numeral.Spelled ⟨negative, digits, [], none⟩
      ((if negative then ['-'] else []) ++ Numeral.digitText digits) :=
  ⟨h, [], [], .inl ⟨rfl, rfl⟩, rfl, by simp⟩

/-- An integer is written as a numeral that stands for it. -/
theorem spelled_integer (value : Int) (least : -0x8000000000000000 ≤ value)
    (greatest : value < 0x10000000000000000) :
    (Document.number (some (.integer value least greatest))).Spelled (toString value).toList := by
  cases value with
  | ofNat n =>
    obtain ⟨digits, htext, hwhole, hvalue⟩ := Numeral.exists_digits n
    have hlt : Numeral.horner 0 digits < 0x10000000000000000 := by
      rw [hvalue]
      exact Int.ofNat_lt.mp greatest
    have habsorb := Numeral.absorb_of_lt hlt
    rw [hvalue] at habsorb
    refine ⟨⟨false, digits, [], none⟩, ?_, Numeral.value?_of_integer habsorb ?_⟩
    · have hlist : (toString (Int.ofNat n)).toList = Nat.toDigits 10 n := toList_toString n
      rw [hlist, ← htext]
      exact spelled_whole hwhole false
    · exact (if_neg Bool.false_ne_true).trans (ofInt?_of_bounds least greatest)
  | negSucc n =>
    obtain ⟨digits, htext, hwhole, hvalue⟩ := Numeral.exists_digits (n + 1)
    have hlt : Numeral.horner 0 digits < 0x10000000000000000 := by omega
    have habsorb := Numeral.absorb_of_lt hlt
    rw [hvalue] at habsorb
    refine ⟨⟨true, digits, [], none⟩, ?_, Numeral.value?_of_integer habsorb ?_⟩
    · have hlist : (toString (Int.negSucc n)).toList = '-' :: Nat.toDigits 10 (n + 1) := by
        rw [show toString (Int.negSucc n) = "-" ++ toString (n + 1) from rfl,
          String.toList_append, toList_toString]
        rfl
      rw [hlist, ← htext]
      exact spelled_whole hwhole true
    · exact ((if_pos rfl).trans (if_neg (Nat.succ_ne_zero n))).trans
        (ofInt?_of_bounds least greatest)

end FlowContract.Json

/-! ### Shortest digits -/

namespace FlowContract.Decimal

open Json.Numeral (digitText)

/-- The bounds around a double that is not zero are positive. -/
theorem Interval.low_around_pos {x : Double} (h : x.isZero = false) : 0 < (around x).low := by
  have hrank : x.rank ≠ 0 := by simpa [Double.isZero] using h
  have hsignificand : 1 ≤ x.significand := by
    have hbinade : 1 ≤ Double.binade := by decide
    unfold Double.significand
    split <;> omega
  have hgap : 0 < Nat.pow 2 x.shift := Nat.pow_pos (by decide)
  have hunits : Nat.pow 2 x.shift ≤ x.units := Nat.le_mul_of_pos_left _ hsignificand
  simp only [around]
  split <;> omega

theorem Interval.pos_of_contains {i : Interval} (h : 0 < i.low) {scale : Nat} (hscale : 0 < scale)
    {n : Nat} (hcontains : i.contains scale n = true) : 0 < n := by
  have hlow := Nat.mul_pos h hscale
  simp only [contains] at hcontains
  split at hcontains <;> simp only [Bool.and_eq_true, decide_eq_true_eq] at hcontains <;> omega

/-- Digits in such bounds are not all zero. -/
theorem Interval.nearest?_pos {i : Interval} (h : 0 < i.low) {count digits : Nat} {last : Int}
    (hnearest : i.nearest? count = some (digits, last)) : 0 < digits := by
  have hfits (scale n step : Nat) (hscale : 0 < scale)
      (hcontains : i.contains scale (n * step) = true) : 0 < n :=
    Nat.pos_of_mul_pos_right (pos_of_contains h hscale hcontains)
  have hscale (n : Nat) : 0 < Nat.pow 10 n := Nat.pow_pos (by decide)
  simp only [nearest?] at hnearest
  split at hnearest
  · cases hnearest
  · rename_i hbelow _
    obtain ⟨rfl, -⟩ := Prod.mk.inj (Option.some.inj hnearest)
    exact hfits _ _ _ (hscale _) hbelow
  · obtain ⟨rfl, -⟩ := Prod.mk.inj (Option.some.inj hnearest)
    exact Nat.succ_pos _
  · rename_i hbelow _
    obtain ⟨rfl, -⟩ := Prod.mk.inj (Option.some.inj hnearest)
    have hpos := hfits _ _ _ (hscale _) hbelow
    split
    · exact Nat.succ_pos _
    · exact hpos

theorem digitChar_eq_zero_iff {d : Nat} (h : d < 10) : d.digitChar = '0' ↔ d = 0 := by
  interval_cases d <;> simp [Nat.digitChar]

theorem dropTrailingZeros_cons {d : Nat} (hd : d < 10) (hne : d ≠ 0) {ds : List Nat}
    (hds : ∀ e ∈ ds, e < 10) : ∃ ds',
      dropTrailingZeros (digitText (d :: ds)) = digitText (d :: ds') ∧ ∀ e ∈ ds', e < 10 := by
  obtain ⟨dropped, hdropped⟩ := List.rdropWhile_prefix (· == '0') (digitText (d :: ds))
  have hfirst : List.rdropWhile (· == '0') (digitText (d :: ds)) ≠ [] := by
    intro hnil
    have hzero := List.rdropWhile_eq_nil_iff.mp hnil d.digitChar List.mem_cons_self
    exact hne ((digitChar_eq_zero_iff hd).mp (by simpa using hzero))
  obtain ⟨c, kept, hkept⟩ := List.exists_cons_of_ne_nil hfirst
  rw [hkept, List.cons_append] at hdropped
  obtain ⟨rfl, hrest⟩ := List.cons.inj hdropped
  obtain ⟨ds', rest, rfl, rfl, rfl⟩ := List.map_eq_append_iff.mp hrest.symm
  exact ⟨ds', hkept, fun e he => hds e (List.mem_append_left _ he)⟩

/-- The shortest digits are digits, the first of which is not zero, or there is only a zero. -/
theorem exists_shortest {x : Double} (h : x.isZero = false) : ∃ d ds,
    (shortest x).significant = digitText (d :: ds) ∧ d < 10 ∧ (∀ e ∈ ds, e < 10) ∧
      (d = 0 → ds = [] ∧ (shortest x).exponent = 0) := by
  simp only [shortest]
  split
  · rename_i digits last hfound
    obtain ⟨count, hnearest⟩ := List.exists_of_findSome?_eq_some hfound
    have hpos := Interval.nearest?_pos (Interval.low_around_pos h) hnearest.2
    obtain ⟨written, htext, ⟨hdigits, hhead⟩, hvalue⟩ := Json.Numeral.exists_digits digits
    obtain ⟨d, ds, rfl⟩ := List.exists_cons_of_ne_nil hdigits.1
    have hne : d ≠ 0 := by
      rintro rfl
      rw [hhead rfl] at hvalue
      exact absurd hvalue.symm (Nat.ne_of_gt hpos)
    obtain ⟨ds', hdropped, hds'⟩ := dropTrailingZeros_cons (hdigits.2 d List.mem_cons_self) hne
      fun e he => hdigits.2 e (List.mem_cons_of_mem _ he)
    refine ⟨d, ds', ?_, hdigits.2 d List.mem_cons_self, hds', fun hzero => absurd hzero hne⟩
    rw [digitsOf, ← htext]
    exact hdropped
  · exact ⟨0, [], rfl, by decide, by simp, fun _ => ⟨rfl, rfl⟩⟩

end FlowContract.Decimal

namespace FlowContract.Json

open Numeral

/-- Texts that are numerals without a sign. -/
def SpelledUnsigned (text : List Char) : Prop :=
  ∃ whole fraction exponent fractionText exponentText, IsWhole whole ∧
    SpellsFraction fraction fractionText ∧ SpellsExponent exponent exponentText ∧
    text = digitText whole ++ fractionText ++ exponentText

section Magnitudes

variable {d : Nat} {ds : List Nat} (hd : d < 10) (hds : ∀ e ∈ ds, e < 10)

include hd hds

theorem forall_mem_digits : ∀ e ∈ d :: ds, e < 10 := by
  simp only [List.forall_mem_cons]
  exact ⟨hd, hds⟩

theorem unsigned_positional {exponent : Int} (hzero : d = 0 → ds = [] ∧ exponent = 0) :
    SpelledUnsigned
      (Decimal.Notation.document.positional (digitText (d :: ds)) exponent).toList := by
  have hdigits := forall_mem_digits hd hds
  simp only [Decimal.Notation.positional]
  split
  · refine ⟨[0], List.replicate ((-exponent).toNat - 1) 0 ++ d :: ds, none, _, [],
      ⟨⟨by simp, by simp⟩, by simp⟩, .inr ⟨⟨by simp, ?_⟩, rfl⟩, rfl, ?_⟩
    · intro e he
      rcases List.mem_append.mp he with he | he
      · rw [List.eq_of_mem_replicate he]
        decide
      · exact hdigits e he
    · simp [digitText, Nat.digitChar]
  · split
    · rename_i hlength
      refine ⟨d :: ds ++ List.replicate (exponent.toNat + 1 - (digitText (d :: ds)).length) 0, [0],
        none, _, [], ⟨⟨by simp, ?_⟩, ?_⟩, .inr ⟨⟨by simp, by simp⟩, rfl⟩, rfl, ?_⟩
      · intro e he
        rcases List.mem_append.mp he with he | he
        · exact hdigits e he
        · rw [List.eq_of_mem_replicate he]
          decide
      · intro hhead
        obtain ⟨rfl, rfl⟩ := hzero (by simpa using hhead)
        obtain rfl : d = 0 := by simpa using hhead
        simp [digitText]
      · simp [digitText, Decimal.Notation.document, Nat.digitChar]
    · rename_i hlength
      simp only [digitText, List.length_map, List.length_cons] at hlength
      refine ⟨d :: ds.take exponent.toNat, ds.drop exponent.toNat, none, _, [],
        ⟨⟨by simp, ?_⟩, ?_⟩, .inr ⟨⟨?_, fun e he => hds e (List.mem_of_mem_drop he)⟩, rfl⟩, rfl, ?_⟩
      · exact forall_mem_digits hd fun e he => hds e (List.mem_of_mem_take he)
      · intro hhead
        obtain ⟨rfl, -⟩ := hzero (by simpa using hhead)
        obtain rfl : d = 0 := by simpa using hhead
        simp
      · intro hnil
        have hle := List.drop_eq_nil_iff.mp hnil
        omega
      · simp [digitText]

theorem unsigned_scientific (exponent : Int) :
    SpelledUnsigned
      (Decimal.Notation.document.scientific (digitText (d :: ds)) exponent).toList := by
  obtain ⟨digits, htext, ⟨hdigits, -⟩, -⟩ := exists_digits exponent.natAbs
  refine ⟨[d], ds, some (decide (exponent < 0), digits),
    if ds.isEmpty then [] else '.' :: digitText ds, _, ⟨⟨by simp, by simpa using hd⟩, ?_⟩, ?_,
    ⟨hdigits, 'e', if exponent < 0 then ['-'] else ['+'], .inl rfl, ?_, rfl⟩, ?_⟩
  · intro hhead
    simpa using hhead
  · cases ds with
    | nil => exact .inl ⟨rfl, rfl⟩
    | cons e rest => exact .inr ⟨⟨by simp, hds⟩, rfl⟩
  · split <;> simp_all
  · simp only [Decimal.Notation.scientific, String.toList_append, toList_toString, ← htext]
    have hsign : (if exponent < 0 then "-" else "+").toList =
        if exponent < 0 then ['-'] else ['+'] := by
      split <;> rfl
    rw [hsign]
    cases ds <;> simp [digitText, Decimal.Notation.document]

end Magnitudes

theorem exists_spelled_double (x : Double) :
    ∃ value, (Document.number value).Spelled (Number.double x).write.toList := by
  have hmagnitude : SpelledUnsigned (Decimal.Notation.document.magnitude x).toList := by
    simp only [Decimal.Notation.magnitude]
    split
    · exact ⟨[0], [0], none, _, [], ⟨⟨by simp, by simp⟩, by simp⟩,
        .inr ⟨⟨by simp, by simp⟩, rfl⟩, rfl, rfl⟩
    · rename_i hzero
      obtain ⟨d, ds, hdigits, hd, hds, hfirst⟩ :=
        Decimal.exists_shortest (Bool.eq_false_iff.mpr hzero)
      rw [hdigits]
      split
      · exact unsigned_positional hd hds hfirst
      · exact unsigned_scientific hd hds _
  obtain ⟨whole, fraction, exponent, fractionText, exponentText, hwhole, hfraction, hexponent,
    htext⟩ := hmagnitude
  refine ⟨_, ⟨x.negative, whole, fraction, exponent⟩, ⟨hwhole, _, _, hfraction, hexponent, ?_⟩, rfl⟩
  have hwrite : (Number.double x).write.toList = (if x.negative then ['-'] else []) ++
      (Decimal.Notation.document.magnitude x).toList := by
    simp only [Number.write, Decimal.Notation.write, String.toList_append]
    cases x.negative <;> rfl
  rw [hwrite, htext]
  simp

end FlowContract.Json
