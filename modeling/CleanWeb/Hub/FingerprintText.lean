import CleanWeb.Hub.Fingerprint

/-!
# The text of a fingerprint (`libs/fingerprint`)

`Display` writes what `parse` reads.
-/

namespace CleanWeb
namespace Hub

open Lib Lib.Exec Lib.BigEndian

namespace Fingerprint

/-- The big-endian encoding of the words. -/
def byteString (f : Fingerprint) : List UInt8 :=
  (List.finRange frames).flatMap fun i => toBytes 4 (f.sub i).toNat

def toHex (f : Fingerprint) : String :=
  Hex.codec.encode f.byteString

def display (f : Fingerprint) : String :=
  "fp:" ++ f.toHex

/-! ## Blocks of four -/

/-- A block of a concatenation of equal blocks. -/
theorem window_flatMap {α β : Type} {n : Nat} {g : α → List β} (hg : ∀ a, (g a).length = n)
    (as : List α) {i : Nat} (hi : i < as.length) : window n (as.flatMap g) i = g as[i] := by
  induction as generalizing i with
  | nil =>
      cases hi
  | cons a as ih =>
      cases i with
      | zero =>
          simp [window, hg]
      | succ i =>
          have hrest := ih (Nat.lt_of_succ_lt_succ hi)
          have hskip : (i + 1) * n = (g a).length + i * n := by
            rw [hg, Nat.succ_mul, Nat.add_comm]
          rw [window] at hrest ⊢
          rw [List.flatMap_cons, hskip, List.drop_append, List.drop_eq_nil_of_le (by omega)]
          simpa using hrest

theorem length_byteString (f : Fingerprint) : f.byteString.length = byteLen := by
  simp [byteString, List.length_flatMap, byteLen, List.map_const']

theorem ofByteString_byteString (f : Fingerprint) : ofByteString f.byteString = f := by
  cases f with
  | mk sub =>
      rw [ofByteString]
      congr 1
      funext i
      have hblock : window 4 (byteString ⟨sub⟩) i = toBytes 4 (sub i).toNat := by
        have h := window_flatMap (g := fun i : Fin frames => toBytes 4 (sub i).toNat)
          (fun i => length_toBytes 4 _) (List.finRange frames) (i := i) (by simp)
        simpa [byteString] using h
      have hlt : (sub i).toNat < 256 ^ 4 := (sub i).isLt
      rw [hblock, ofBytes_toBytes, Nat.mod_eq_of_lt hlt, BitVec.ofNat_toNat, BitVec.setWidth_eq]

/-! ## Round trip -/

theorem toList_display (f : Fingerprint) :
    f.display.toList = 'f' :: 'p' :: ':' :: Hex.encodeChars f.byteString := by
  simp [display, toHex, Hex.codec]

theorem stripPrefix_display (f : Fingerprint) : stripPrefix f.display = some f.toHex := by
  rw [stripPrefix_eq_some_iff, toList_display]
  simp [toHex, Hex.codec]

/-- Parsing what `Display` writes gives the fingerprint back. -/
theorem parse_display (f : Fingerprint) : parse f.display = .ok f := by
  have hdecode : Hex.codec.decode f.toHex = some f.byteString := Hex.codec.decode_encode _
  have hchars : Hex.decodeChars f.toHex.toList = some f.byteString := hdecode
  have hsize := Hex.utf8ByteSize_of_decodeChars hchars
  rw [String.ofList_toList, Hex.length_of_decodeChars hchars, length_byteString] at hsize
  refine parse_eq_ok_iff.2 ⟨f.toHex, f.byteString, stripPrefix_display f, ?_, hdecode,
    (ofByteString_byteString f).symm⟩
  rw [hsize, hexLen]
  omega

end Fingerprint
end Hub
end CleanWeb
