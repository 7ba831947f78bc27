import Mathlib.Order.Defs.LinearOrder
import CleanWeb.Lib.BigEndian
import CleanWeb.Lib.Exec

/-!
# 32-byte values (`libs/wallet-zk`)

`Bytes32` is the Rust `[u8; 32]` and the Solidity `bytes32`: a 256-bit word with its big-endian
byte string.  Rust compares the byte strings, Solidity the words; `bytes_le_iff` says that this is
the same order.  The hash `keccak256`, the `hex` crate and alloy's addresses are parameters.
-/

namespace CleanWeb

open Lib Lib.Exec Lib.BigEndian

/-- A 32-byte value. -/
abbrev Bytes32 := BitVec 256

/-- `keccak256` of a byte string. -/
abbrev Keccak := List UInt8 → Bytes32

/-- A hash known on finitely many strings. -/
def Keccak.ofTable (table : List (List UInt8 × Bytes32)) : Keccak :=
  fun s => (table.lookup s).getD 0

instance : LinearOrder Bytes32 where
  le_refl := BitVec.le_refl
  le_trans _ _ _ := BitVec.le_trans
  le_antisymm _ _ := BitVec.le_antisymm
  le_total := BitVec.le_total
  lt_iff_le_not_ge a b := by
    simp only [BitVec.lt_def, BitVec.le_def]
    omega
  toDecidableLE := inferInstance

instance : Std.TransOrd Bytes32 :=
  inferInstance

namespace Bytes32

def bytes (b : Bytes32) : List UInt8 :=
  toBytes 32 b.toNat

@[simp] theorem length_bytes (b : Bytes32) : (bytes b).length = 32 := by
  simp [bytes]

theorem toNat_lt (b : Bytes32) : b.toNat < 256 ^ 32 :=
  b.isLt

theorem bytes_injective : Function.Injective bytes := by
  intro a b h
  exact BitVec.eq_of_toNat_eq (toBytes_inj (toNat_lt a) (toNat_lt b) h)

theorem bytes_le_iff (a b : Bytes32) : bytes a ≤ bytes b ↔ a ≤ b := by
  rw [← List.not_lt, bytes, bytes, toBytes_lt_iff (toNat_lt b) (toNat_lt a), BitVec.le_def]
  omega

/-- Two words hashed one after the other are recovered from the 64 bytes. -/
theorem append_bytes_inj {a b a' b' : Bytes32} (h : bytes a ++ bytes b = bytes a' ++ bytes b') :
    a = a' ∧ b = b' := by
  have hparts := List.append_inj h (by simp)
  exact ⟨bytes_injective hparts.1, bytes_injective hparts.2⟩

end Bytes32

/-! ## Text form -/

/-- A 20-byte address. -/
abbrev Address := BitVec 160

/-- Alloy's text form of an address: `format!("{:#x}", address)`, and `Address::from_str`, absent
where the text is no address. -/
structure AddressText where
  display : Address → String
  fromStr : String → Option Address
  fromStr_display : ∀ a, fromStr (display a) = some a
  display_lowercase : ∀ a, (display a).toList.map Char.toLower = (display a).toList

/-- The `hex` crate, and alloy for addresses. -/
structure HexCodec where
  encode : List UInt8 → String
  decode : String → Option (List UInt8)
  decode_encode : ∀ bs, decode (encode bs) = some bs
  address : AddressText

/-- Errors from parsing a `Bytes32` out of text. -/
inductive Bytes32Error where
  | badLength (n : Nat)
  | notHex
  deriving DecidableEq, Repr

namespace Bytes32

variable (hex : HexCodec)

/-- `Display`. -/
def display (b : Bytes32) : String :=
  "0x" ++ hex.encode (bytes b)

/-- `strip_prefix("0x").unwrap_or(s)`. -/
def stripHexPrefix (s : String) : String :=
  match s.toList with
  | '0' :: 'x' :: rest => String.ofList rest
  | _ => s

/-- `FromStr`. -/
def fromStr (s : String) : Exec Bytes32Error Bytes32 := do
  let bs ← okOr (hex.decode (stripHexPrefix s)) .notHex
  if bs.length ≠ 32 then fail (.badLength bs.length)
  else pure (BitVec.ofNat 256 (ofBytes bs))

theorem stripHexPrefix_prefixed (s : String) : stripHexPrefix ("0x" ++ s) = s := by
  simp [stripHexPrefix]

theorem ofBytes_bytes (b : Bytes32) : BitVec.ofNat 256 (ofBytes (bytes b)) = b := by
  rw [bytes, ofBytes_toBytes, Nat.mod_eq_of_lt (toNat_lt b), BitVec.ofNat_toNat,
    BitVec.setWidth_eq]

/-- Parsing what `Display` writes gives the value back. -/
theorem fromStr_display (b : Bytes32) : fromStr hex (display hex b) = .ok b := by
  simp [fromStr, display, stripHexPrefix_prefixed, hex.decode_encode, okOr, ofBytes_bytes, pure,
    Except.pure]

theorem display_injective : Function.Injective (display hex) := by
  intro a b h
  have hparse := congrArg (fromStr hex) h
  rw [fromStr_display, fromStr_display] at hparse
  exact Except.ok.inj hparse

end Bytes32
end CleanWeb
