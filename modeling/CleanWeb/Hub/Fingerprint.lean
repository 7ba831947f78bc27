import Mathlib.Algebra.Order.Ring.Rat
import Mathlib.Data.Fintype.Pi
import Mathlib.Tactic.Linarith
import Mathlib.Tactic.NormNum
import CleanWeb.Lib.Window
import CleanWeb.Wallet.HexCase

/-!
# Acoustic fingerprints as values (`libs/fingerprint`)

The 1,024 bits of a fingerprint, their text form and their Hamming similarity; how the bits are
computed from audio is not modelled.  `similarity` is a multiple of 1/1024, which a double holds
exactly, so it is a rational here, and a threshold is any double.
-/

namespace CleanWeb
namespace Hub

open Lib Lib.Exec Lib.BigEndian

def frames : Nat := 32

def bitsPerFrame : Nat := 32

def byteLen : Nat := frames * 4

def hexLen : Nat := byteLen * 2

structure Fingerprint where
  sub : Fin frames → BitVec 32
  deriving DecidableEq

inductive FingerprintError where
  | missingPrefix
  | badLength (expected found : Nat)
  | notHex
  deriving DecidableEq, Repr

namespace FingerprintError

def display : FingerprintError → String
  | .missingPrefix => "fingerprint must start with the 'fp:' prefix"
  | .badLength expected found =>
      "fingerprint hex must be " ++ toString expected ++ " chars, found " ++ toString found
  | .notHex => "fingerprint contains a non-hexadecimal character"

end FingerprintError

namespace Fingerprint

/-- `s.strip_prefix("fp:")`. -/
def stripPrefix (s : String) : Option String :=
  match s.toList with
  | 'f' :: 'p' :: ':' :: rest => some (String.ofList rest)
  | _ => none

/-- The big-endian words of a byte string. -/
def ofByteString (bytes : List UInt8) : Fingerprint :=
  ⟨fun i => BitVec.ofNat 32 (ofBytes (window 4 bytes i))⟩

/-- A decoded string shorter than the array would make the slices panic. -/
def parse (s : String) : Exec FingerprintError Fingerprint := do
  let hexPart ← okOr (stripPrefix s) .missingPrefix
  if hexPart.utf8ByteSize ≠ hexLen then fail (.badLength hexLen hexPart.utf8ByteSize)
  else
    let bytes ← okOr (Hex.codec.decode hexPart) .notHex
    if bytes.length < byteLen then panics else pure (ofByteString bytes)

/-! ## What parses -/

theorem stripPrefix_eq_some_iff {s rest : String} :
    stripPrefix s = some rest ↔ s.toList = 'f' :: 'p' :: ':' :: rest.toList := by
  unfold stripPrefix
  split
  · rename_i cs hs
    rw [hs]
    constructor
    · intro h
      rw [← Option.some.inj h]
      simp
    · intro h
      have hcs : cs = rest.toList := by simpa using h
      simp [hcs]
  · rename_i hs
    constructor
    · intro h
      cases h
    · intro h
      exact absurd h (hs rest.toList)

/-- Text of the full length that decodes fills the array exactly. -/
theorem length_of_decode {s : String} {bytes : List UInt8} (hlength : s.utf8ByteSize = hexLen)
    (h : Hex.codec.decode s = some bytes) : bytes.length = byteLen := by
  have hchars : Hex.decodeChars s.toList = some bytes := h
  have hsize := Hex.utf8ByteSize_of_decodeChars hchars
  rw [String.ofList_toList, hlength, Hex.length_of_decodeChars hchars, hexLen] at hsize
  omega

/-- The text behind a parsed fingerprint. -/
theorem parse_eq_ok_iff {s : String} {f : Fingerprint} :
    parse s = .ok f ↔ ∃ hexPart bytes, stripPrefix s = some hexPart ∧
      hexPart.utf8ByteSize = hexLen ∧ Hex.codec.decode hexPart = some bytes ∧
      f = ofByteString bytes := by
  constructor
  · intro h
    rcases bind_eq_ok.1 h with ⟨hexPart, hstrip, h⟩
    split at h
    · cases h
    rename_i hlength
    rcases bind_eq_ok.1 h with ⟨bytes, hdecode, h⟩
    split at h
    · cases h
    cases h
    exact ⟨hexPart, bytes, okOr_eq_ok.1 hstrip, not_not.1 hlength, okOr_eq_ok.1 hdecode, rfl⟩
  · rintro ⟨hexPart, bytes, hstrip, hlength, hdecode, rfl⟩
    have hfull := length_of_decode hlength hdecode
    simp [parse, hstrip, hlength, hdecode, hfull, okOr]
    rfl

theorem stripPrefix_of_digits (digits : List Char) :
    stripPrefix (String.ofList ('f' :: 'p' :: ':' :: digits)) = some (String.ofList digits) := by
  rw [stripPrefix_eq_some_iff, String.toList_ofList, String.toList_ofList]

/-- The prefix and enough hex digits parse. -/
theorem parse_of_digits {digits : List Char} {bytes : List UInt8} (hlength : digits.length = hexLen)
    (hdecode : Hex.decodeChars digits = some bytes) :
    ∃ f, parse (String.ofList ('f' :: 'p' :: ':' :: digits)) = .ok f := by
  refine ⟨_, parse_eq_ok_iff.2 ⟨_, bytes, stripPrefix_of_digits digits, ?_, ?_, rfl⟩⟩
  · rw [Hex.utf8ByteSize_of_decodeChars hdecode, hlength]
  · change Hex.decodeChars (String.ofList digits).toList = _
    rw [String.toList_ofList, hdecode]

/-- The slices stay inside the array. -/
theorem parse_ne_panic (s : String) : parse s ≠ .error .panic := by
  intro h
  unfold parse at h
  cases hstrip : stripPrefix s with
  | none =>
      rw [hstrip] at h
      cases h
  | some hexPart =>
      rw [hstrip] at h
      change (if hexPart.utf8ByteSize ≠ hexLen then _ else _) = _ at h
      split at h
      · cases h
      rename_i hlength
      cases hdecode : Hex.codec.decode hexPart with
      | none =>
          rw [hdecode] at h
          cases h
      | some bytes =>
          rw [hdecode] at h
          change (if bytes.length < byteLen then _ else _) = _ at h
          have hfull := length_of_decode (not_not.1 hlength) hdecode
          rw [if_neg (by omega)] at h
          cases h

/-- The words of two strings of the full length agree only if the strings do. -/
theorem ofByteString_inj {as bs : List UInt8} (ha : as.length = byteLen) (hb : bs.length = byteLen)
    (h : ofByteString as = ofByteString bs) : as = bs := by
  have hwindow : ∀ i < frames, window 4 as i = window 4 bs i := by
    intro i hi
    have hword : BitVec.ofNat 32 (ofBytes (window 4 as i)) =
        BitVec.ofNat 32 (ofBytes (window 4 bs i)) :=
      congrFun (congrArg Fingerprint.sub h) ⟨i, hi⟩
    have hsize : ∀ cs : List UInt8, cs.length = byteLen → (window 4 cs i).length = 4 := by
      intro cs hcs
      rw [length_window, hcs]
      simp only [byteLen, frames] at hi ⊢
      omega
    have hsmall : ∀ cs : List UInt8, cs.length = byteLen → ofBytes (window 4 cs i) < 2 ^ 32 := by
      intro cs hcs
      have hlt := ofBytes_lt (window 4 cs i)
      rw [hsize cs hcs] at hlt
      exact hlt
    refine ofBytes_inj ((hsize as ha).trans (hsize bs hb).symm) ?_
    have hnat := congrArg BitVec.toNat hword
    rwa [BitVec.toNat_ofNat, BitVec.toNat_ofNat, Nat.mod_eq_of_lt (hsmall as ha),
      Nat.mod_eq_of_lt (hsmall bs hb)] at hnat
  refine List.ext_getElem (ha.trans hb.symm) ?_
  intro j hja hjb
  -- The `j`-th byte is the `j % 4`-th of the word `j / 4`.
  have hword := hwindow (j / 4) (by simp only [byteLen, frames] at *; omega)
  have hbyte : ∀ cs : List UInt8, cs[j]? = (window 4 cs (j / 4))[j % 4]? := by
    intro cs
    rw [window, List.getElem?_take_of_lt (Nat.mod_lt j (by decide)), List.getElem?_drop]
    congr 1
    omega
  have hget : as[j]? = bs[j]? := by
    rw [hbyte as, hbyte bs, hword]
  rwa [List.getElem?_eq_getElem hja, List.getElem?_eq_getElem hjb, Option.some.injEq] at hget

/-- Two texts of one fingerprint differ in letter case only. -/
theorem parse_eq_iff {s t : String} {f g : Fingerprint} (hs : parse s = .ok f)
    (ht : parse t = .ok g) : f = g ↔ Hex.eqIgnoreCase s t := by
  rcases parse_eq_ok_iff.1 hs with ⟨sHex, sBytes, hsStrip, hsLength, hsDecode, rfl⟩
  rcases parse_eq_ok_iff.1 ht with ⟨tHex, tBytes, htStrip, htLength, htDecode, rfl⟩
  have hsChars := stripPrefix_eq_some_iff.1 hsStrip
  have htChars := stripPrefix_eq_some_iff.1 htStrip
  have hcase : Hex.eqIgnoreCase s t ↔
      sHex.toList.map Char.toLower = tHex.toList.map Char.toLower := by
    rw [Hex.eqIgnoreCase, hsChars, htChars]
    simp
  have hdecode : Hex.decodeChars tHex.toList = some tBytes := htDecode
  rw [hcase, Hex.decodeChars_eq_iff hsDecode, hdecode, Option.some.injEq]
  constructor
  · intro h
    exact (ofByteString_inj (length_of_decode hsLength hsDecode)
      (length_of_decode htLength htDecode) h).symm
  · rintro rfl
    rfl

/-- Any casing of the digits of a parsed text parses to the same fingerprint. -/
theorem parse_of_eqIgnoreCase {s t hexPart : String} {f : Fingerprint} (hs : parse s = .ok f)
    (ht : stripPrefix t = some hexPart) (h : Hex.eqIgnoreCase s t) : parse t = .ok f := by
  rcases parse_eq_ok_iff.1 hs with ⟨sHex, bytes, hsStrip, hsLength, hsDecode, rfl⟩
  have hcase : sHex.toList.map Char.toLower = hexPart.toList.map Char.toLower := by
    rw [Hex.eqIgnoreCase, stripPrefix_eq_some_iff.1 hsStrip, stripPrefix_eq_some_iff.1 ht] at h
    simpa using h
  have hdecode : Hex.decodeChars hexPart.toList = some bytes :=
    (Hex.decodeChars_eq_iff hsDecode).1 hcase
  have hlength : hexPart.utf8ByteSize = hexLen := by
    have hsize := Hex.utf8ByteSize_of_decodeChars hdecode
    rw [String.ofList_toList, Hex.length_of_decodeChars hdecode,
      length_of_decode hsLength hsDecode] at hsize
    exact hsize
  exact parse_eq_ok_iff.2 ⟨hexPart, bytes, ht, hlength, hdecode, rfl⟩

/-! ## Similarity -/

def countOnes (w : BitVec 32) : Nat :=
  (List.range 32).countP w.getLsbD

def differing (a b : Fingerprint) : Nat :=
  (List.finRange frames).foldl (fun diff i => diff + countOnes (a.sub i ^^^ b.sub i)) 0

/-- `compare`. -/
def similarity (a b : Fingerprint) : Rat :=
  1 - (differing a b : Rat) / ((frames * bitsPerFrame : Nat) : Rat)

theorem countOnes_eq_zero_iff {w : BitVec 32} : countOnes w = 0 ↔ w = 0 := by
  rw [countOnes, List.countP_eq_zero]
  constructor
  · intro h
    refine BitVec.eq_of_getLsbD_eq ?_
    intro i hi
    simpa using h i (List.mem_range.2 hi)
  · rintro rfl i -
    simp

theorem differing_eq_sum (a b : Fingerprint) :
    differing a b = ((List.finRange frames).map fun i => countOnes (a.sub i ^^^ b.sub i)).sum := by
  rw [differing, List.sum_eq_foldl, List.foldl_map]

theorem differing_eq_zero_iff {a b : Fingerprint} : differing a b = 0 ↔ a = b := by
  rw [differing_eq_sum, List.sum_eq_zero_iff]
  constructor
  · intro h
    cases a
    cases b
    congr 1
    funext i
    have hzero := h _ (List.mem_map.2 ⟨i, List.mem_finRange i, rfl⟩)
    rw [countOnes_eq_zero_iff] at hzero
    exact BitVec.xor_eq_zero_iff.1 hzero
  · rintro rfl n hn
    rcases List.mem_map.1 hn with ⟨i, -, rfl⟩
    rw [countOnes_eq_zero_iff]
    exact BitVec.xor_self

theorem similarity_self (a : Fingerprint) : similarity a a = 1 := by
  rw [similarity, differing_eq_zero_iff.2 rfl]
  norm_num

/-- Only the fingerprint itself is fully similar. -/
theorem similarity_lt_one {a b : Fingerprint} (h : a ≠ b) : similarity a b < 1 := by
  have hpos : 0 < differing a b := Nat.pos_of_ne_zero fun hzero => h (differing_eq_zero_iff.1 hzero)
  have hcast : (0 : Rat) < differing a b := Nat.cast_pos.2 hpos
  have htotal : (0 : Rat) < ((frames * bitsPerFrame : Nat) : Rat) := by
    norm_num [frames, bitsPerFrame]
  have hshare := div_pos hcast htotal
  rw [similarity]
  linarith

end Fingerprint

/-! ## Thresholds -/

/-- A double. -/
inductive F64 where
  | nan
  | negInfinity
  | finite (value : Rat)
  | infinity
  deriving DecidableEq

/-- `t < q`. -/
def F64.below (t : F64) (q : Rat) : Bool :=
  match t with
  | .nan => false
  | .negInfinity => true
  | .finite value => value < q
  | .infinity => false

end Hub
end CleanWeb
