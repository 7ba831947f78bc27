import Mathlib.Data.List.Basic

/-!
# Utf8 — a text and its bytes

A text is what its bytes decode to, and nothing else decodes to it.  The bytes of a text are all
below 128 exactly when its characters are, and then they are the characters' codes.
-/

namespace CleanWeb
namespace Lib
namespace Utf8

/-- The bytes of a text. -/
def asBytes (s : String) : List UInt8 :=
  s.toList.flatMap String.utf8EncodeChar

/-- The text with these bytes, if they are well formed. -/
def fromUtf8 (bs : List UInt8) : Option String :=
  String.fromUTF8? bs.toByteArray

/-- The bytes as characters, one each. -/
def charsOf (bs : List UInt8) : List Char :=
  bs.map Char.ofUInt8

/-- Every character is below 128. -/
def Ascii (cs : List Char) : Prop :=
  ∀ c ∈ cs, c.toNat < 128

theorem toByteArray_asBytes (s : String) : (asBytes s).toByteArray = s.toByteArray :=
  String.utf8Encode_toList

theorem length_asBytes (s : String) : (asBytes s).length = s.utf8ByteSize := by
  rw [← List.size_toByteArray, toByteArray_asBytes]
  rfl

theorem fromUtf8_eq_some_iff {bs : List UInt8} {s : String} :
    fromUtf8 bs = some s ↔ asBytes s = bs := by
  rw [← List.toByteArray_inj, toByteArray_asBytes, fromUtf8, String.fromUTF8?]
  constructor
  · intro h
    split at h
    · exact congrArg String.toByteArray (Option.some.inj h).symm
    · cases h
  · intro h
    rw [← h, dif_pos s.isValidUTF8]
    rfl

/-! ## Below 128 -/

theorem utf8EncodeChar_of_ascii {c : Char} (h : c.toNat < 128) :
    String.utf8EncodeChar c = [c.toUInt8] := by
  apply String.utf8EncodeChar_eq_singleton
  rw [Char.utf8Size_eq_one_iff, UInt32.le_iff_toNat_le]
  exact Nat.le_of_lt_succ h

/-- The bytes of any other character all have the high bit. -/
theorem le_of_mem_utf8EncodeChar {c : Char} (h : 128 ≤ c.toNat) :
    ∀ b ∈ String.utf8EncodeChar c, 128 ≤ b.toNat := by
  have hlarge : ¬ c.val.toNat ≤ 127 := Nat.not_le.2 h
  have hlead : ∀ base n : Nat, 128 ≤ base → base + n < 256 →
      128 ≤ (UInt8.ofNat (n + base)).toNat := by
    intro base n hbase hfits
    rw [UInt8.toNat_ofNat', Nat.mod_eq_of_lt (by omega)]
    omega
  intro b hb
  rw [String.utf8EncodeChar, if_neg hlarge] at hb
  split at hb
  · rcases List.mem_pair.1 hb with rfl | rfl
    · exact hlead 0xc0 _ (by decide) (by omega)
    · exact hlead 0x80 _ (by decide) (by omega)
  split at hb
  · simp only [List.mem_cons, List.not_mem_nil, or_false] at hb
    rcases hb with rfl | rfl | rfl
    · exact hlead 0xe0 _ (by decide) (by omega)
    · exact hlead 0x80 _ (by decide) (by omega)
    · exact hlead 0x80 _ (by decide) (by omega)
  · simp only [List.mem_cons, List.not_mem_nil, or_false] at hb
    rcases hb with rfl | rfl | rfl | rfl
    · exact hlead 0xf0 _ (by decide) (by omega)
    · exact hlead 0x80 _ (by decide) (by omega)
    · exact hlead 0x80 _ (by decide) (by omega)
    · exact hlead 0x80 _ (by decide) (by omega)

theorem toUInt8_ofUInt8 (b : UInt8) : (Char.ofUInt8 b).toUInt8 = b := by
  apply UInt8.toNat_inj.1
  change b.toNat % 256 = b.toNat
  exact Nat.mod_eq_of_lt b.toNat_lt

theorem ofUInt8_toUInt8 {c : Char} (h : c.toNat < 128) : Char.ofUInt8 c.toUInt8 = c := by
  apply Char.toNat_inj.1
  change c.toNat % 256 = c.toNat
  exact Nat.mod_eq_of_lt (Nat.lt_trans h (by decide))

/-- Bytes below 128 are the bytes of the text that they spell. -/
theorem asBytes_ofList_charsOf {bs : List UInt8} (h : ∀ b ∈ bs, b.toNat < 128) :
    asBytes (String.ofList (charsOf bs)) = bs := by
  rw [asBytes, String.toList_ofList, charsOf, List.flatMap_map]
  calc
    bs.flatMap (fun b => String.utf8EncodeChar (Char.ofUInt8 b))
        = bs.flatMap fun b => [b] := by
          refine List.flatMap_congr fun b hb => ?_
          have hc : (Char.ofUInt8 b).toNat < 128 := h b hb
          rw [utf8EncodeChar_of_ascii hc, toUInt8_ofUInt8]
    _ = bs := by simp

theorem charsOf_asBytes {s : String} (h : Ascii s.toList) : charsOf (asBytes s) = s.toList := by
  rw [asBytes, charsOf, List.map_flatMap]
  calc
    s.toList.flatMap (fun c => (String.utf8EncodeChar c).map Char.ofUInt8)
        = s.toList.flatMap fun c => [c] := by
          refine List.flatMap_congr fun c hc => ?_
          rw [utf8EncodeChar_of_ascii (h c hc), List.map_singleton, ofUInt8_toUInt8 (h c hc)]
    _ = s.toList := by simp

/-- A character from 128 on shows in the bytes. -/
theorem ascii_of_asBytes {s : String} (h : ∀ b ∈ asBytes s, b.toNat < 128) : Ascii s.toList := by
  intro c hc
  by_contra hlarge
  have hsize : 0 < (String.utf8EncodeChar c).length := by
    rw [String.length_utf8EncodeChar]
    exact c.utf8Size_pos
  rcases List.exists_mem_of_length_pos hsize with ⟨b, hb⟩
  have hhigh := le_of_mem_utf8EncodeChar (Nat.not_lt.1 hlarge) b hb
  exact absurd (h b (List.mem_flatMap.2 ⟨c, hc, hb⟩)) (Nat.not_lt.2 hhigh)

end Utf8
end Lib
end CleanWeb
