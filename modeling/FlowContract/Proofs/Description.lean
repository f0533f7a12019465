import FlowContract.Proofs.Text.Delimited
import FlowContract.Rejection
import Mathlib.Data.List.Infix

/-!
What the description of a value gives away: its kind, and of a string the characters that are shown
and whether there are more. Main statement: strings that agree in both have the same description and
no others have, and values of different kinds never have the same one.
-/

namespace FlowContract

open Json (Value)

/-! ### Strings -/

/-- What follows the closing quote of a string. -/
def cutMark (s : String) : List Char := if s.length ≤ describedLength then [] else "...".toList

theorem toList_describe_string (s : String) : (describe (.string s)).toList =
    "string ".toList ++
      ((Text.quoted (String.ofList (s.toList.take describedLength))).toList ++ cutMark s) := by
  simp only [describe, cutMark, String.length_toList]
  split
  · rename_i hshort
    have hall : s.toList.take describedLength = s.toList :=
      List.take_of_length_le (by rwa [String.length_toList])
    rw [hall, String.ofList_toList, List.append_nil, String.toList_append]
  · simp only [String.toList_append, List.append_assoc]

/-- Strings have the same description if they show the same characters, and both or neither go on
behind them. -/
theorem describe_string_eq_iff {s t : String} :
    describe (.string s) = describe (.string t) ↔
      s.toList.take describedLength = t.toList.take describedLength ∧ cutMark s = cutMark t := by
  rw [← String.toList_inj, toList_describe_string, toList_describe_string,
    List.append_cancel_left_eq]
  constructor
  · intro h
    obtain ⟨hshown, hmark⟩ := Text.quoted_append_inj h
    exact ⟨String.ofList_inj.mp hshown, hmark⟩
  · rintro ⟨hshown, hmark⟩
    rw [hshown, hmark]

theorem cutMark_eq_iff {s t : String} :
    cutMark s = cutMark t ↔ (s.length ≤ describedLength ↔ t.length ≤ describedLength) := by
  have hmark : "...".toList ≠ [] := by decide
  unfold cutMark
  split <;> split
  case isTrue.isTrue hs ht => exact iff_of_true rfl (iff_of_true hs ht)
  case isTrue.isFalse hs ht => exact iff_of_false hmark.symm fun h => ht (h.mp hs)
  case isFalse.isTrue hs ht => exact iff_of_false hmark fun h => hs (h.mpr ht)
  case isFalse.isFalse hs ht => exact iff_of_true rfl (iff_of_false hs ht)

/-! ### Kinds -/

/-- The kinds of values. -/
inductive Json.Kind where
  | null
  | boolean
  | number
  | string
  | list
  | mapping
  deriving DecidableEq

def Json.Value.kind : Value → Json.Kind
  | .null => .null
  | .boolean _ => .boolean
  | .number _ => .number
  | .string _ => .string
  | .list _ => .list
  | .mapping _ => .mapping

namespace Json.Kind

/-- How the descriptions of the values of a kind begin. -/
def openings : Kind → List String
  | null => ["null"]
  | boolean => ["boolean "]
  | number => ["number "]
  | string => ["string "]
  | list => ["an empty list", "a list of "]
  | mapping => ["an empty mapping", "a mapping with keys "]

theorem eq_of_prefix {kind kind' : Kind} : ∀ opening ∈ kind.openings,
    ∀ opening' ∈ kind'.openings, opening.toList <+: opening'.toList → kind = kind' := by
  cases kind <;> cases kind' <;> decide

end Json.Kind

theorem exists_opening (v : Value) :
    ∃ opening ∈ v.kind.openings, opening.toList <+: (describe v).toList := by
  cases v with
  | null => exact ⟨_, List.mem_cons_self, List.prefix_rfl⟩
  | boolean value | number value =>
    refine ⟨_, List.mem_cons_self, ?_⟩
    rw [describe, String.toList_append]
    exact List.prefix_append _ _
  | string value =>
    refine ⟨_, List.mem_cons_self, ?_⟩
    rw [toList_describe_string]
    exact List.prefix_append _ _
  | list items =>
    rw [describe]
    split
    · exact ⟨_, List.mem_cons_self, List.prefix_rfl⟩
    · refine ⟨_, List.mem_cons_of_mem _ List.mem_cons_self, ?_⟩
      rw [String.append_assoc, String.toList_append]
      exact List.prefix_append _ _
  | mapping entries =>
    rw [describe]
    split
    · exact ⟨_, List.mem_cons_self, List.prefix_rfl⟩
    · refine ⟨_, List.mem_cons_of_mem _ List.mem_cons_self, ?_⟩
      rw [String.toList_append]
      exact List.prefix_append _ _

/-- Of two ways in which a description begins, one begins the other. -/
theorem kind_eq_of_describe_eq {v w : Value} (h : describe v = describe w) : v.kind = w.kind := by
  obtain ⟨opening, hopening, hprefix⟩ := exists_opening v
  obtain ⟨opening', hopening', hprefix'⟩ := exists_opening w
  rw [h] at hprefix
  rcases List.prefix_or_prefix_of_prefix hprefix hprefix' with hbegins | hbegins
  · exact Json.Kind.eq_of_prefix opening hopening opening' hopening' hbegins
  · exact (Json.Kind.eq_of_prefix opening' hopening' opening hopening hbegins).symm

/-- The descriptions of strings are the same only if the strings are, or if both are cut behind the
same characters; those of values of different kinds never are. -/
theorem descriptions_tell_strings_and_kinds_apart :
    (∀ s t : String, describe (.string s) = describe (.string t) ↔
      s = t ∨ 40 < s.length ∧ 40 < t.length ∧ s.toList.take 40 = t.toList.take 40) ∧
    (∀ s t : String, s.length ≤ 40 → 40 < t.length →
      describe (.string s) ≠ describe (.string t)) ∧
    ∀ v w : Value, v.kind ≠ w.kind → describe v ≠ describe w := by
  refine ⟨fun s t => ?_, fun s t hs ht h => ?_, fun v w hkind h => hkind (kind_eq_of_describe_eq h)⟩
  · rw [describe_string_eq_iff, cutMark_eq_iff]
    constructor
    · rintro ⟨hshown, hcut⟩
      rcases Nat.lt_or_ge 40 s.length with hs | hs
      · exact .inr ⟨hs, Nat.lt_of_not_le fun ht => absurd (hcut.mpr ht) (Nat.not_le.mpr hs), hshown⟩
      · have ht : t.length ≤ describedLength := hcut.mp hs
        rw [List.take_of_length_le (by rwa [String.length_toList]),
          List.take_of_length_le (by rwa [String.length_toList])] at hshown
        exact .inl (String.toList_inj.mp hshown)
    · rintro (rfl | ⟨hs, ht, hshown⟩)
      · exact ⟨rfl, Iff.rfl⟩
      · exact ⟨hshown, iff_of_false (Nat.not_le.mpr hs) (Nat.not_le.mpr ht)⟩
  · rw [describe_string_eq_iff, cutMark_eq_iff] at h
    exact absurd (h.2.mp hs) (Nat.not_le.mpr ht)

end FlowContract
