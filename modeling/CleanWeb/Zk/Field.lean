import Mathlib.Data.ZMod.Basic
import Mathlib.Tactic.NormNum.Prime
import CleanWeb.Lib.PrimeCertificate
import CleanWeb.Wallet.Bytes32

/-!
# The BN254 scalar field (`libs/zk-circuits/src/field.rs`)

The lifts between the field and native integers and bytes, and the primality of the modulus.
-/

namespace CleanWeb
namespace Zk

open Lib

/-! ## Conversions -/

/-- The order of the BN254 scalar field. -/
def frModulus : Nat :=
  21888242871839275222246405745257275088548364400416034343698204186575808495617

/-- The BN254 scalar field. -/
abbrev Fr := ZMod frModulus

/-- `from_be_bytes_mod_order`. -/
def frFromBytes32 (b : Bytes32) : Fr :=
  (b.toNat : Fr)

def frToBytes32 (f : Fr) : Bytes32 :=
  BitVec.ofNat 256 f.val

def frFromU128 (v : Nat) : Fr :=
  (v : Fr)

/-! ## Primality -/

/-- The factors of `frModulus - 1` that are too large for trial division come first, each before
the number whose certificate lists it. -/
theorem frModulus_prime : frModulus.Prime := by
  have h12 : Nat.Prime 12048837557 :=
    PrimeCertificate.prime
      (c := ⟨12048837557, 2, [(2, 2), (7, 2), (661, 1), (93001, 1)]⟩)
      (by decide +kernel) (by
        simp only [List.forall_mem_cons]
        exact ⟨by norm_num, by norm_num, by norm_num, by norm_num, by simp⟩)
  have h51 : Nat.Prime 5156902474397 :=
    PrimeCertificate.prime
      (c := ⟨5156902474397, 2, [(2, 2), (107, 1), (12048837557, 1)]⟩)
      (by decide +kernel) (by
        simp only [List.forall_mem_cons]
        exact ⟨by norm_num, by norm_num, h12, by simp⟩)
  have h16 : Nat.Prime 1670836401704629 :=
    PrimeCertificate.prime
      (c := ⟨1670836401704629, 2, [(2, 2), (3, 4), (5156902474397, 1)]⟩)
      (by decide +kernel) (by
        simp only [List.forall_mem_cons]
        exact ⟨by norm_num, by norm_num, h51, by simp⟩)
  have h63 : Nat.Prime 639533339 :=
    PrimeCertificate.prime
      (c := ⟨639533339, 2, [(2, 1), (229, 1), (853, 1), (1637, 1)]⟩)
      (by decide +kernel) (by
        simp only [List.forall_mem_cons]
        exact ⟨by norm_num, by norm_num, by norm_num, by norm_num, by simp⟩)
  have h65 : Nat.Prime 65865678001877903 :=
    PrimeCertificate.prime
      (c := ⟨65865678001877903, 5, [(2, 1), (83, 1), (379, 1), (1637, 1), (639533339, 1)]⟩)
      (by decide +kernel) (by
        simp only [List.forall_mem_cons]
        exact ⟨by norm_num, by norm_num, by norm_num, by norm_num, h63, by simp⟩)
  have h13 : Nat.Prime 13818364434197438864469338081 :=
    PrimeCertificate.prime
      (c := ⟨13818364434197438864469338081, 3,
        [(2, 5), (5, 1), (823, 1), (1593227, 1), (65865678001877903, 1)]⟩)
      (by decide +kernel) (by
        simp only [List.forall_mem_cons]
        exact ⟨by norm_num, by norm_num, by norm_num, by norm_num, h65, by simp⟩)
  have h40 : Nat.Prime 405928799 :=
    PrimeCertificate.prime
      (c := ⟨405928799, 22, [(2, 1), (11, 1), (3691, 1), (4999, 1)]⟩)
      (by decide +kernel) (by
        simp only [List.forall_mem_cons]
        exact ⟨by norm_num, by norm_num, by norm_num, by norm_num, by simp⟩)
  exact PrimeCertificate.prime
    (c := ⟨frModulus, 5, [(2, 28), (3, 2), (13, 1), (29, 1), (983, 1), (11003, 1), (237073, 1),
      (405928799, 1), (1670836401704629, 1), (13818364434197438864469338081, 1)]⟩)
    (by decide +kernel) (by
      simp only [List.forall_mem_cons]
      exact ⟨by norm_num, by norm_num, by norm_num, by norm_num, by norm_num, by norm_num,
        by norm_num, h40, h16, h13, by simp⟩)

instance : Fact frModulus.Prime :=
  ⟨frModulus_prime⟩

/-! ## Round trips -/

theorem frModulus_lt : frModulus < 2 ^ 254 := by
  decide

theorem val_lt_frModulus (f : Fr) : f.val < frModulus :=
  ZMod.val_lt f

/-- The encoding of a field element is lossless. -/
@[simp] theorem frFromBytes32_frToBytes32 (f : Fr) : frFromBytes32 (frToBytes32 f) = f := by
  have hfits : f.val < 2 ^ 256 := (val_lt_frModulus f).trans (by decide)
  rw [frFromBytes32, frToBytes32, BitVec.toNat_ofNat, Nat.mod_eq_of_lt hfits]
  exact ZMod.natCast_rightInverse f

theorem frToBytes32_injective : Function.Injective frToBytes32 :=
  Function.LeftInverse.injective frFromBytes32_frToBytes32

/-- A native integer below the modulus is lifted without reduction. -/
theorem val_frFromU128 {v : Nat} (hv : v < frModulus) : (frFromU128 v).val = v :=
  ZMod.val_natCast_of_lt hv

theorem val_frFromBytes32 (b : Bytes32) : (frFromBytes32 b).val = b.toNat % frModulus :=
  ZMod.val_natCast _ _

@[simp] theorem frFromBytes32_zero : frFromBytes32 0#256 = 0 := by
  simp [frFromBytes32]

@[simp] theorem frFromU128_zero : frFromU128 0 = 0 := by
  simp [frFromU128]

end Zk
end CleanWeb
