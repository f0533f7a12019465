import FlowContract.Text.Quoted
import Mathlib.Tactic.SplitIfs

/-!
Parts of a text that show where they end, whatever follows: what stands in front of a delimiter, a
number in front of a bracket, a string between its quotes.
-/

namespace FlowContract.Text

/-! ### Delimiters -/

/-- A part of a text is free of delimiters, and one follows unless the text ends there. -/
structure Delimited (ends : Char → Bool) (front rest : List Char) : Prop where
  inside : ∀ c ∈ front, ends c = false
  behind : ∀ c ∈ rest.head?, ends c = true

namespace Delimited

variable {ends : Char → Bool} {front front' rest rest' : List Char}

theorem takeWhile_append (h : Delimited ends front rest) :
    (front ++ rest).takeWhile (!ends ·) = front := by
  have hinside : ∀ c ∈ front, (!ends c) = true := fun c hc => by simp [h.inside c hc]
  have hbehind : rest.takeWhile (!ends ·) = [] := by
    cases rest with
    | nil => rfl
    | cons c rest => simp [h.behind c rfl]
  rw [List.takeWhile_append_of_pos hinside, hbehind, List.append_nil]

theorem append_inj (h : Delimited ends front rest) (h' : Delimited ends front' rest')
    (heq : front ++ rest = front' ++ rest') : front = front' ∧ rest = rest' := by
  have hfront : front = front' := by rw [← h.takeWhile_append, ← h'.takeWhile_append, heq]
  subst hfront
  exact ⟨rfl, List.append_cancel_left heq⟩

end Delimited

/-! ### Numbers -/

theorem digitChar_inj : ∀ d < 16, ∀ e < 16, d.digitChar = e.digitChar → d = e := by decide

theorem isAlphanum_digitChar : ∀ d < 16, d.digitChar.isAlphanum = true := by decide

section Digits

variable {b : Nat} (hb : 1 < b) (hle : b ≤ 16)

include hb hle

theorem isAlphanum_of_mem_toDigits {n : Nat} {c : Char} (h : c ∈ Nat.toDigits b n) :
    c.isAlphanum = true := by
  induction n using Nat.strongRecOn with
  | _ n ih =>
    rcases Nat.lt_or_ge n b with hlt | hge
    · rw [Nat.toDigits_of_lt_base hlt, List.mem_singleton] at h
      rw [h]
      exact isAlphanum_digitChar n (by omega)
    · rw [Nat.toDigits_of_base_le hb hge, List.mem_append, List.mem_singleton] at h
      rcases h with hleading | rfl
      · exact ih (n / b) (Nat.div_lt_self (by omega) hb) hleading
      · exact isAlphanum_digitChar _ (Nat.lt_of_lt_of_le (Nat.mod_lt n (by omega)) hle)

/-- Numbers with the same digits are the same: the last digits agree, and so do the numbers without
them. -/
theorem toDigits_inj {m n : Nat} (h : Nat.toDigits b m = Nat.toDigits b n) : m = n := by
  induction m using Nat.strongRecOn generalizing n with
  | _ m ih =>
    rcases Nat.lt_or_ge m b with hm | hm
    · rw [Nat.toDigits_of_lt_base hm] at h
      rcases Nat.lt_or_ge n b with hn | hn
      · rw [Nat.toDigits_of_lt_base hn] at h
        exact digitChar_inj m (by omega) n (by omega) (List.singleton_inj.mp h)
      · rw [Nat.toDigits_of_base_le hb hn] at h
        exact absurd (List.append_eq_singleton_iff.mp h.symm) (by simp)
    · rw [Nat.toDigits_of_base_le hb hm] at h
      rcases Nat.lt_or_ge n b with hn | hn
      · rw [Nat.toDigits_of_lt_base hn] at h
        exact absurd (List.append_eq_singleton_iff.mp h) (by simp)
      · rw [Nat.toDigits_of_base_le hb hn] at h
        obtain ⟨hleading, hlast⟩ := List.append_inj' h rfl
        have hquotient : m / b = n / b := ih (m / b) (Nat.div_lt_self (by omega) hb) hleading
        have hm' : m % b < 16 := Nat.lt_of_lt_of_le (Nat.mod_lt m (by omega)) hle
        have hn' : n % b < 16 := Nat.lt_of_lt_of_le (Nat.mod_lt n (by omega)) hle
        have hremainder : m % b = n % b :=
          digitChar_inj _ hm' _ hn' (List.singleton_inj.mp hlast)
        rw [← Nat.div_add_mod m b, ← Nat.div_add_mod n b, hquotient, hremainder]

/-- A number in front of a bracket is told from the text that begins with it. -/
theorem toDigits_append_inj {bracket : Char} (hbracket : bracket.isAlphanum = false) {m n : Nat}
    {rest rest' : List Char}
    (h : Nat.toDigits b m ++ bracket :: rest = Nat.toDigits b n ++ bracket :: rest') :
    m = n ∧ rest = rest' := by
  have hdelimited (n : Nat) (rest : List Char) :
      Delimited (· == bracket) (Nat.toDigits b n) (bracket :: rest) := by
    refine ⟨fun c hc => ?_, by simp⟩
    have halphanum := isAlphanum_of_mem_toDigits hb hle hc
    rw [beq_eq_false_iff_ne]
    rintro rfl
    rw [halphanum] at hbracket
    cases hbracket
  obtain ⟨hdigits, hrest⟩ := (hdelimited m rest).append_inj (hdelimited n rest') h
  exact ⟨toDigits_inj hb hle hdigits, (List.cons.inj hrest).2⟩

end Digits

/-! ### Strings -/

/-- The characters with a letter of their own behind a backslash. -/
def letters : List (Char × Char) :=
  [('"', '"'), ('\\', '\\'), ('\x00', '0'), ('\t', 't'), ('\r', 'r'), ('\n', 'n')]

theorem letters_differ : ∀ entry ∈ letters, ∀ entry' ∈ letters,
    entry.2 = entry'.2 → entry = entry' := by decide

theorem letters_ne_u : ∀ entry ∈ letters, entry.2 ≠ 'u' := by decide

/-- The forms of a character between quotes. Which form a character has is left open, except that
neither a quote nor a backslash stands for itself. -/
inductive Shown : Char → List Char → Prop where
  | plain {c : Char} (hquote : c ≠ '"') (hbackslash : c ≠ '\\') : Shown c [c]
  | letter {c letter : Char} (h : (c, letter) ∈ letters) : Shown c ['\\', letter]
  | code (c : Char) : Shown c ('\\' :: 'u' :: '\x7b' :: (Nat.toDigits 16 c.toNat ++ ['\x7d']))

theorem shown_quoteChar (c : Char) : Shown c (quoteChar c).toList := by
  unfold quoteChar
  split_ifs with hquote hbackslash hzero htab hreturn hnewline hcode
  · exact hquote ▸ .letter (by decide)
  · exact hbackslash ▸ .letter (by decide)
  · exact hzero ▸ .letter (by decide)
  · exact htab ▸ .letter (by decide)
  · exact hreturn ▸ .letter (by decide)
  · exact hnewline ▸ .letter (by decide)
  · simpa [hexDigits] using Shown.code c
  · rw [show (c.toString).toList = [c] from String.toList_singleton c]
    exact .plain hquote hbackslash

namespace Shown

variable {c c' : Char} {text text' rest rest' : List Char}

/-- A character between quotes is told from the text that begins with it. -/
theorem append_inj (h : Shown c text) (h' : Shown c' text')
    (heq : text ++ rest = text' ++ rest') : c = c' ∧ rest = rest' := by
  cases h with
  | plain hquote hbackslash =>
    cases h' with
    | plain _ _ => simpa using heq
    | letter _ => exact absurd (List.cons.inj heq).1 hbackslash
    | code => exact absurd (List.cons.inj heq).1 hbackslash
  | letter hletter =>
    cases h' with
    | plain _ hbackslash => exact absurd (List.cons.inj heq).1.symm hbackslash
    | letter hletter' =>
      obtain ⟨hsame, hrest⟩ := List.cons.inj (List.cons.inj heq).2
      exact ⟨congrArg Prod.fst (letters_differ _ hletter _ hletter' hsame), hrest⟩
    | code => exact absurd (List.cons.inj (List.cons.inj heq).2).1 (letters_ne_u _ hletter)
  | code =>
    cases h' with
    | plain _ hbackslash => exact absurd (List.cons.inj heq).1.symm hbackslash
    | letter hletter' =>
      exact absurd (List.cons.inj (List.cons.inj heq).2).1.symm (letters_ne_u _ hletter')
    | code =>
      simp only [List.cons_append, List.append_assoc, List.nil_append, List.cons.injEq,
        true_and] at heq
      obtain ⟨hcode, hrest⟩ := toDigits_append_inj (by decide) (by decide) (by decide) heq
      exact ⟨Char.toNat_inj.mp hcode, hrest⟩

/-- No character begins with a quote, so that the first one that is not behind a backslash ends the
string. -/
theorem ne_quote (h : Shown c text) : text ++ rest ≠ '"' :: rest' := by
  cases h with
  | plain hquote _ => exact fun heq => hquote (List.cons.inj heq).1
  | letter _ => exact fun heq => absurd (List.cons.inj heq).1 (by decide)
  | code => exact fun heq => absurd (List.cons.inj heq).1 (by decide)

end Shown

theorem quoteChars_append_inj {chars chars' rest rest' : List Char}
    (h : (chars.flatMap fun c => (quoteChar c).toList) ++ '"' :: rest =
      (chars'.flatMap fun c => (quoteChar c).toList) ++ '"' :: rest') :
    chars = chars' ∧ rest = rest' := by
  induction chars generalizing chars' with
  | nil =>
    cases chars' with
    | nil => simpa using h
    | cons c' chars' =>
      rw [List.flatMap_cons, List.append_assoc] at h
      exact absurd h.symm (shown_quoteChar c').ne_quote
  | cons c chars ih =>
    cases chars' with
    | nil =>
      rw [List.flatMap_cons, List.append_assoc] at h
      exact absurd h (shown_quoteChar c).ne_quote
    | cons c' chars' =>
      simp only [List.flatMap_cons, List.append_assoc] at h
      obtain ⟨rfl, htail⟩ := (shown_quoteChar c).append_inj (shown_quoteChar c') h
      obtain ⟨rfl, hrest⟩ := ih htail
      exact ⟨rfl, hrest⟩

/-- A string between quotes is told from the text that begins with it. -/
theorem quoted_append_inj {s t : String} {rest rest' : List Char}
    (h : (quoted s).toList ++ rest = (quoted t).toList ++ rest') : s = t ∧ rest = rest' := by
  have htext (s : String) (rest : List Char) : (quoted s).toList ++ rest =
      '"' :: ((s.toList.flatMap fun c => (quoteChar c).toList) ++ '"' :: rest) := by
    simp [quoted, String.toList_join, List.flatMap_map]
  rw [htext, htext] at h
  obtain ⟨hchars, hrest⟩ := quoteChars_append_inj (List.cons.inj h).2
  exact ⟨String.toList_inj.mp hchars, hrest⟩

end FlowContract.Text
