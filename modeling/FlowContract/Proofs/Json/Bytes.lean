import FlowContract.Json.Reader

/-!
Texts as bytes. The bytes of a text are taken together to its characters again, so that nothing
depends on whether a text or its bytes are read.
-/

namespace FlowContract.Json

theorem size_utf8Encode_cons (c : Char) (chars : List Char) :
    (c :: chars).utf8Encode.size = c.utf8Size + chars.utf8Encode.size := by
  rw [List.utf8Encode_cons, ByteArray.size_append, List.utf8Encode_singleton,
    List.size_toByteArray, String.length_utf8EncodeChar]

/-- Behind other bytes the characters of a text are found again, one at a time. -/
theorem Symbol.go_append (front : ByteArray) (chars : List Char) {fuel : Nat}
    (hfuel : chars.utf8Encode.size ≤ fuel) :
    ofBytes.go (front ++ chars.utf8Encode) fuel front.size = chars.map .char := by
  induction chars generalizing front fuel with
  | nil =>
    cases fuel with
    | zero => rfl
    | succ fuel => simp [ofBytes.go]
  | cons c chars ih =>
    rw [size_utf8Encode_cons] at hfuel
    have hpos := c.utf8Size_pos
    obtain ⟨fuel, rfl⟩ : ∃ left, fuel = left + 1 := ⟨fuel - 1, by omega⟩
    have hinside : front.size < (front ++ (c :: chars).utf8Encode).size := by
      rw [ByteArray.size_append, size_utf8Encode_cons]
      omega
    have hdecode : (front ++ (c :: chars).utf8Encode).utf8DecodeChar? front.size = some c := by
      rw [ByteArray.utf8DecodeChar?_eq_utf8DecodeChar?_extract,
        ByteArray.extract_append_eq_right rfl ByteArray.size_append]
      exact List.utf8DecodeChar?_utf8Encode_cons
    have hnext : (front ++ [c].utf8Encode).size = front.size + c.utf8Size := by
      rw [ByteArray.size_append, size_utf8Encode_cons]
      simp
    have hbytes : front ++ (c :: chars).utf8Encode =
        (front ++ [c].utf8Encode) ++ chars.utf8Encode := by
      rw [List.utf8Encode_cons, ByteArray.append_assoc]
    simp only [ofBytes.go, hinside, dif_pos, hdecode, List.map_cons]
    rw [hbytes, ← hnext, ih _ (by omega)]

theorem Symbol.ofBytes_toUTF8 (text : String) : ofBytes text.toUTF8 = ofString text := by
  have hbytes : text.toUTF8 = text.toList.utf8Encode := by
    rw [String.toUTF8_eq_toByteArray, String.utf8Encode_toList]
  have hchars := go_append .empty text.toList (Nat.le_refl _)
  rw [ByteArray.empty_append, ← hbytes] at hchars
  exact hchars

theorem Value.ofBytes_toUTF8 (text : String) : Value.ofBytes text.toUTF8 = Value.ofText text :=
  congrArg ofSymbols (Symbol.ofBytes_toUTF8 text)

end FlowContract.Json
