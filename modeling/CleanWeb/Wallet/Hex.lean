import CleanWeb.Wallet.Bytes32

/-!
# A hexadecimal codec

Two lowercase digits a byte on the way out, either case on the way in; addresses in the same digits.
-/

namespace CleanWeb
namespace Hex

open Lib.BigEndian

def digit (n : Nat) : Char :=
  if n < 10 then Char.ofNat (48 + n) else Char.ofNat (87 + n)

def value (c : Char) : Option Nat :=
  if '0' ≤ c ∧ c ≤ '9' then some (c.toNat - 48)
  else if 'a' ≤ c ∧ c ≤ 'f' then some (c.toNat - 87)
  else if 'A' ≤ c ∧ c ≤ 'F' then some (c.toNat - 55)
  else none

def encodeChars : List UInt8 → List Char
  | [] => []
  | b :: bs => digit (b.toNat / 16) :: digit (b.toNat % 16) :: encodeChars bs

def decodeChars : List Char → Option (List UInt8)
  | [] => some []
  | [_] => none
  | hi :: lo :: rest => do
      let h ← value hi
      let l ← value lo
      let bs ← decodeChars rest
      pure (UInt8.ofNat (16 * h + l) :: bs)

theorem value_digit : ∀ n < 16, value (digit n) = some n := by
  decide

theorem decodeChars_encodeChars (bs : List UInt8) : decodeChars (encodeChars bs) = some bs := by
  induction bs with
  | nil =>
      rfl
  | cons b bs ih =>
      have hb : b.toNat < 256 := b.toNat_lt
      have hhi : value (digit (b.toNat / 16)) = some (b.toNat / 16) :=
        value_digit _ (by omega)
      have hlo : value (digit (b.toNat % 16)) = some (b.toNat % 16) :=
        value_digit _ (by omega)
      have hjoin : UInt8.ofNat (16 * (b.toNat / 16) + b.toNat % 16) = b := by
        rw [Nat.div_add_mod]
        simp
      simp only [encodeChars, decodeChars, hhi, hlo, ih, Option.bind_eq_bind, Option.bind_some,
        hjoin]
      rfl

theorem map_toLower_encodeChars (bs : List UInt8) :
    (encodeChars bs).map Char.toLower = encodeChars bs := by
  have hdigit : ∀ n < 16, (digit n).toLower = digit n := by
    decide
  induction bs with
  | nil =>
      rfl
  | cons b bs ih =>
      have hb : b.toNat < 256 := b.toNat_lt
      rw [encodeChars, List.map_cons, List.map_cons, ih, hdigit _ (by omega),
        hdigit _ (by omega)]

/-- Forty lowercase digits behind `0x`. -/
def addressText : AddressText where
  display a := "0x" ++ String.ofList (encodeChars (toBytes 20 a.toNat))
  fromStr s := do
    let bs ← decodeChars (Bytes32.stripHexPrefix s).toList
    if bs.length = 20 then some (BitVec.ofNat 160 (ofBytes bs)) else none
  fromStr_display a := by
    have hword : BitVec.ofNat 160 (ofBytes (toBytes 20 a.toNat)) = a := by
      have hlt : a.toNat < 256 ^ 20 := a.isLt
      rw [ofBytes_toBytes, Nat.mod_eq_of_lt hlt, BitVec.ofNat_toNat, BitVec.setWidth_eq]
    simp [Bytes32.stripHexPrefix_prefixed, decodeChars_encodeChars, hword]
  display_lowercase a := by
    simp [map_toLower_encodeChars]

def codec : HexCodec where
  encode bs := String.ofList (encodeChars bs)
  decode s := decodeChars s.toList
  decode_encode bs := by
    simpa using decodeChars_encodeChars bs
  address := addressText

end Hex
end CleanWeb
