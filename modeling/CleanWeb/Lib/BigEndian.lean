import Mathlib.Data.UInt
import Mathlib.Algebra.Order.Ring.Nat
import Mathlib.Tactic.Ring

/-!
# BigEndian — fixed-width big-endian byte strings

`toBytes n x` are the `n` low base-256 digits of `x`, most significant first.  Within `n` bytes the
encoding is injective, and the lexicographic order of the strings is the numeric order.
-/

namespace CleanWeb
namespace Lib
namespace BigEndian

def toBytes : Nat → Nat → List UInt8
  | 0, _ => []
  | n + 1, x => UInt8.ofNat (x / 256 ^ n) :: toBytes n x

def ofBytes : List UInt8 → Nat
  | [] => 0
  | b :: bs => b.toNat * 256 ^ bs.length + ofBytes bs

@[simp] theorem length_toBytes (n x : Nat) : (toBytes n x).length = n := by
  induction n with
  | zero =>
      rfl
  | succ n ih =>
      simp [toBytes, ih]

/-! ## Decoding -/

theorem mod_pow_succ_eq (x n : Nat) :
    x % 256 ^ (n + 1) = x / 256 ^ n % 256 * 256 ^ n + x % 256 ^ n := by
  calc
    x % 256 ^ (n + 1) = x % (256 ^ n * 256) := by rw [Nat.pow_succ]
    _ = x % 256 ^ n + 256 ^ n * (x / 256 ^ n % 256) := Nat.mod_mul
    _ = x / 256 ^ n % 256 * 256 ^ n + x % 256 ^ n := by ring

theorem ofBytes_toBytes (n x : Nat) : ofBytes (toBytes n x) = x % 256 ^ n := by
  induction n with
  | zero =>
      simp [toBytes, ofBytes, Nat.mod_one]
  | succ n ih =>
      rw [mod_pow_succ_eq]
      simp [toBytes, ofBytes, ih]

theorem toBytes_inj {n x y : Nat} (hx : x < 256 ^ n) (hy : y < 256 ^ n)
    (h : toBytes n x = toBytes n y) : x = y := by
  have hdec := congrArg ofBytes h
  rwa [ofBytes_toBytes, ofBytes_toBytes, Nat.mod_eq_of_lt hx, Nat.mod_eq_of_lt hy] at hdec

theorem ofBytes_lt (bs : List UInt8) : ofBytes bs < 256 ^ bs.length := by
  induction bs with
  | nil =>
      simp [ofBytes]
  | cons b bs ih =>
      have hb : b.toNat + 1 ≤ 256 := b.toNat_lt
      calc
        ofBytes (b :: bs) = b.toNat * 256 ^ bs.length + ofBytes bs := rfl
        _ < b.toNat * 256 ^ bs.length + 256 ^ bs.length := Nat.add_lt_add_left ih _
        _ = (b.toNat + 1) * 256 ^ bs.length := by ring
        _ ≤ 256 * 256 ^ bs.length := Nat.mul_le_mul_right _ hb
        _ = 256 ^ (b :: bs).length := by rw [List.length_cons, Nat.pow_succ, Nat.mul_comm]

/-- Strings of one length are told apart by their numbers. -/
theorem ofBytes_inj {as bs : List UInt8} (hlength : as.length = bs.length)
    (h : ofBytes as = ofBytes bs) : as = bs := by
  induction as generalizing bs with
  | nil =>
      exact (List.length_eq_zero_iff.1 hlength.symm).symm
  | cons a as ih =>
      cases bs with
      | nil =>
          cases hlength
      | cons b bs =>
          have hrest : as.length = bs.length := Nat.succ.inj hlength
          have ha := ofBytes_lt as
          have hb := ofBytes_lt bs
          rw [ofBytes, ofBytes, hrest] at h
          rw [hrest] at ha
          have hpos : 0 < 256 ^ bs.length := Nat.pow_pos (by omega)
          have hdiv : ∀ n r, r < 256 ^ bs.length →
              (n * 256 ^ bs.length + r) / 256 ^ bs.length = n := by
            intro n r hr
            rw [Nat.add_comm, Nat.add_mul_div_right _ _ hpos, Nat.div_eq_of_lt hr, Nat.zero_add]
          have hhead : a.toNat = b.toNat := by
            rw [← hdiv a.toNat _ ha, h, hdiv _ _ hb]
          rw [hhead] at h
          rw [UInt8.toNat_inj.1 hhead, ih hrest (Nat.add_left_cancel h)]

/-! ## Order -/

/-- Comparing two digits and, on a tie, the rest is comparing the numbers. -/
theorem digit_lt_iff {B a b r s : Nat} (hr : r < B) (hs : s < B) :
    a * B + r < b * B + s ↔ a < b ∨ a = b ∧ r < s := by
  rcases Nat.lt_trichotomy a b with h | rfl | h
  · have hstep : (a + 1) * B ≤ b * B := Nat.mul_le_mul_right _ h
    have hexp : (a + 1) * B = a * B + B := by ring
    exact ⟨fun _ => Or.inl h, fun _ => by omega⟩
  · simp
  · have hstep : (b + 1) * B ≤ a * B := Nat.mul_le_mul_right _ h
    have hexp : (b + 1) * B = b * B + B := by ring
    omega

theorem toBytes_lt_iff_mod (n x y : Nat) :
    toBytes n x < toBytes n y ↔ x % 256 ^ n < y % 256 ^ n := by
  induction n with
  | zero =>
      simp [toBytes, Nat.mod_one]
  | succ n ih =>
      have hpos : 0 < 256 ^ n := Nat.pow_pos (by omega)
      rw [mod_pow_succ_eq, mod_pow_succ_eq y,
        digit_lt_iff (Nat.mod_lt _ hpos) (Nat.mod_lt _ hpos), ← ih]
      simp only [toBytes, List.cons_lt_cons_iff, UInt8.lt_iff_toNat_lt, ← UInt8.toNat_inj,
        UInt8.toNat_ofNat', Nat.reducePow]

theorem toBytes_lt_iff {n x y : Nat} (hx : x < 256 ^ n) (hy : y < 256 ^ n) :
    toBytes n x < toBytes n y ↔ x < y := by
  rw [toBytes_lt_iff_mod, Nat.mod_eq_of_lt hx, Nat.mod_eq_of_lt hy]

/-! ## Width -/

/-- A wider string starts with zeros. -/
theorem toBytes_add_of_lt (m : Nat) {n x : Nat} (hx : x < 256 ^ n) :
    toBytes (m + n) x = List.replicate m 0 ++ toBytes n x := by
  induction m with
  | zero =>
      simp
  | succ m ih =>
      have hle : 256 ^ n ≤ 256 ^ (m + n) := Nat.pow_le_pow_right (by omega) (by omega)
      have hdigit : x / 256 ^ (m + n) = 0 := Nat.div_eq_of_lt (by omega)
      have hwidth : m + 1 + n = m + n + 1 := by omega
      rw [hwidth, toBytes, hdigit, ih]
      rfl

end BigEndian
end Lib
end CleanWeb
