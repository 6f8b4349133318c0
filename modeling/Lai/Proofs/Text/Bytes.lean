import Lai.Text.Utf8
/-!
# The bytes of a text

Texts are stored as UTF-8. An ASCII character is one byte, its code, and every byte of any other character
is beyond ASCII, so that ASCII can be looked for byte by byte. What has been written is read back.
-/

namespace Lai.Text

theorem bytes_eq_flatMap (s : String) : bytes s = s.toList.flatMap String.utf8EncodeChar := by
  rw [bytes, String.toUTF8_eq_toByteArray, ← String.utf8Encode_toList, List.utf8Encode, List.toList_data_toByteArray]

@[simp] theorem bytes_ofList (cs : List Char) : bytes (String.ofList cs) = cs.flatMap String.utf8EncodeChar := by
  rw [bytes_eq_flatMap, String.toList_ofList]

@[simp] theorem bytes_append (s t : String) : bytes (s ++ t) = bytes s ++ bytes t := by
  rw [bytes_eq_flatMap, String.toList_append, List.flatMap_append, ← bytes_eq_flatMap, ← bytes_eq_flatMap]

theorem bytes_inj {s t : String} : bytes s = bytes t ↔ s = t := by
  refine ⟨fun h => String.toByteArray_inj.1 (ByteArray.ext (Array.toList_inj.1 h)), fun h => h ▸ rfl⟩

theorem utf8EncodeChar_of_lt {c : Char} (h : c.toNat < 128) : String.utf8EncodeChar c = [c.toUInt8] := by
  have hsize : c.utf8Size = 1 := by
    have hle : c.val ≤ 127 := UInt32.le_iff_toNat_le.2 (Nat.le_of_lt_succ h)
    exact if_pos hle
  exact String.utf8EncodeChar_eq_singleton hsize

theorem le_toNat_of_mem_utf8EncodeChar {c : Char} (h : 128 ≤ c.toNat) {b : UInt8}
    (hb : b ∈ String.utf8EncodeChar c) : 128 ≤ b.toNat := by
  have hcode : ¬ c.val.toNat ≤ 127 := Nat.not_le.2 h
  simp only [String.utf8EncodeChar, if_neg hcode] at hb
  split at hb
  · simp only [List.mem_cons, List.not_mem_nil, or_false] at hb
    rcases hb with rfl | rfl <;> simp only [UInt8.toNat_ofNat'] <;> omega
  split at hb
  · simp only [List.mem_cons, List.not_mem_nil, or_false] at hb
    rcases hb with rfl | rfl | rfl <;> simp only [UInt8.toNat_ofNat'] <;> omega
  · simp only [List.mem_cons, List.not_mem_nil, or_false] at hb
    rcases hb with rfl | rfl | rfl | rfl <;> simp only [UInt8.toNat_ofNat'] <;> omega

theorem bytes_eq_map {s : String} (h : ∀ c ∈ s.toList, c.toNat < 128) : bytes s = s.toList.map Char.toUInt8 := by
  rw [bytes_eq_flatMap, List.map_eq_flatMap, List.flatMap_def, List.flatMap_def]
  exact congrArg List.flatten (List.map_congr_left fun c hc => utf8EncodeChar_of_lt (h c hc))

theorem toNat_toUInt8 {c : Char} (h : c.toNat < 128) : c.toUInt8.toNat = c.toNat := by
  have hcode : c.toUInt8.toNat = c.toNat % 256 := rfl
  omega

/-- An ASCII character is found in the bytes of no other one. -/
theorem ne_of_mem_utf8EncodeChar {c d : Char} (hd : d.toNat < 128) (h : c ≠ d) {b : UInt8}
    (hb : b ∈ String.utf8EncodeChar c) : b ≠ d.toUInt8 := by
  rintro rfl
  by_cases hc : c.toNat < 128
  · rw [utf8EncodeChar_of_lt hc, List.mem_singleton] at hb
    have hcode := congrArg UInt8.toNat hb
    rw [toNat_toUInt8 hd, toNat_toUInt8 hc] at hcode
    exact h (Char.toNat_inj.1 hcode.symm)
  · have hhigh := le_toNat_of_mem_utf8EncodeChar (Nat.le_of_not_lt hc) hb
    rw [toNat_toUInt8 hd] at hhigh
    omega

/-! ### Reading back -/

theorem toNat_ofNat_of_lt {n : Nat} (h : n < 256) : (UInt8.ofNat n).toNat = n := by
  rw [UInt8.toNat_ofNat']
  omega

theorem continuation?_ofNat {n : Nat} (h : n < 64) : continuation? (UInt8.ofNat (n + 0x80)) = some n := by
  rw [continuation?, toNat_ofNat_of_lt (by omega), if_pos (by omega), Nat.add_sub_cancel]

theorem scalar?_toNat {least code : Nat} (c : Char) (hcode : code = c.toNat) (h : least ≤ c.toNat) :
    scalar? least code = some c := by
  rw [scalar?, hcode, if_pos ⟨h, c.valid⟩, Char.ofNat_toNat]

/-- A character is read from the bytes that it is written as, whatever comes behind them. -/
theorem decodeChar?_utf8EncodeChar (c : Char) (rest : List UInt8) :
    ∃ b more, String.utf8EncodeChar c = b :: more ∧ decodeChar? b (more ++ rest) = some (c, more.length) := by
  have hvalid : c.toNat < 55296 ∨ 57343 < c.toNat ∧ c.toNat < 1114112 := c.valid
  have hmod (n : Nat) : n % 64 < 64 := Nat.mod_lt n (by decide)
  simp only [String.utf8EncodeChar, show c.val.toNat = c.toNat from rfl]
  -- One case for each length; in each the payloads of the bytes make up the code again.
  split
  · refine ⟨_, [], rfl, ?_⟩
    rw [decodeChar?, toNat_ofNat_of_lt (by omega), if_pos (by omega), Char.ofNat_toNat, List.length_nil]
  split
  · refine ⟨_, [_], rfl, ?_⟩
    rw [decodeChar?, toNat_ofNat_of_lt (by omega), if_neg (by omega), if_pos (by omega)]
    simp only [List.cons_append, List.getElem?_cons_zero, Option.bind_eq_bind, Option.bind_some,
      continuation?_ofNat (hmod _)]
    rw [scalar?_toNat c (by omega) (by omega)]
    rfl
  split
  · refine ⟨_, [_, _], rfl, ?_⟩
    rw [decodeChar?, toNat_ofNat_of_lt (by omega), if_neg (by omega), if_neg (by omega), if_pos (by omega)]
    simp only [List.cons_append, List.getElem?_cons_zero, List.getElem?_cons_succ, Option.bind_eq_bind, Option.bind_some,
      continuation?_ofNat (hmod _)]
    rw [scalar?_toNat c (by omega) (by omega)]
    rfl
  · refine ⟨_, [_, _, _], rfl, ?_⟩
    rw [decodeChar?, toNat_ofNat_of_lt (by omega), if_neg (by omega), if_neg (by omega), if_neg (by omega), if_pos (by omega)]
    simp only [List.cons_append, List.getElem?_cons_zero, List.getElem?_cons_succ, Option.bind_eq_bind, Option.bind_some,
      continuation?_ofNat (hmod _)]
    rw [scalar?_toNat c (by omega) (by omega)]
    rfl

theorem decodeChars_flatMap (cs : List Char) : decodeChars (cs.flatMap String.utf8EncodeChar) = cs := by
  induction cs with
  | nil => rw [List.flatMap_nil, decodeChars]
  | cons c cs ih =>
      obtain ⟨b, more, hbytes, hchar⟩ := decodeChar?_utf8EncodeChar c (cs.flatMap String.utf8EncodeChar)
      rw [List.flatMap_cons, hbytes, List.cons_append, decodeChars, hchar]
      dsimp only
      rw [List.drop_left, ih]

/-- What has been written is read back. -/
theorem decode_bytes (s : String) : decode (bytes s) = s := by
  rw [decode, bytes_eq_flatMap, decodeChars_flatMap, String.ofList_toList]

end Lai.Text
