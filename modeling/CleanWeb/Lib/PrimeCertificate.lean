import Mathlib.NumberTheory.LucasPrimality
import Mathlib.Data.Nat.Prime.Basic

/-!
# Prime certificates

Lucas' test as a computation: a generator of the multiplicative group and the factorisation of
`p - 1`.  The powers are taken by repeated squaring, so that the kernel can evaluate the test on
primes of a few hundred bits.
-/

namespace CleanWeb
namespace Lib

/-! ## Modular powers -/

/-- `acc * base ^ e` modulo `m`, by squaring over the `k` low bits of `e`. -/
def powMod (m : Nat) : Nat → Nat → Nat → Nat → Nat
  | 0, _, _, acc => acc
  | k + 1, base, e, acc =>
      powMod m k (base * base % m) (e / 2) (if e % 2 = 1 then acc * base % m else acc)

theorem powMod_modEq (m k base e acc : Nat) (he : e < 2 ^ k) :
    powMod m k base e acc ≡ acc * base ^ e [MOD m] := by
  induction k generalizing base e acc with
  | zero =>
      have he0 : e = 0 := by simpa using he
      simp [powMod, he0, Nat.ModEq.refl]
  | succ k ih =>
      have hhalf : e / 2 < 2 ^ k := by
        rw [pow_succ] at he
        omega
      have hsquare : (base * base % m) ^ (e / 2) ≡ base ^ (2 * (e / 2)) [MOD m] := by
        rw [pow_mul, sq]
        exact (Nat.mod_modEq _ _).pow _
      refine (ih (base * base % m) (e / 2) _ hhalf).trans ?_
      -- The low bit of the exponent decides whether the base enters the accumulator.
      by_cases hodd : e % 2 = 1
      · rw [if_pos hodd]
        have hsplit : acc * base ^ e = acc * base * base ^ (2 * (e / 2)) := by
          conv_lhs => rw [← Nat.div_add_mod e 2, hodd, pow_succ]
          ring
        rw [hsplit]
        exact (Nat.mod_modEq _ _).mul hsquare
      · rw [if_neg hodd]
        have heven : 2 * (e / 2) = e := by omega
        rw [heven] at hsquare
        exact hsquare.mul_left _

/-! ## Certificates -/

/-- A candidate prime, a generator modulo it, and the prime powers that make up `p - 1`. -/
structure PrimeCertificate where
  p : Nat
  generator : Nat
  factors : List (Nat × Nat)

namespace PrimeCertificate

variable {c : PrimeCertificate}

/-- `generator ^ e` modulo `p`. -/
def power (c : PrimeCertificate) (e : Nat) : Nat :=
  powMod c.p (c.p.log2 + 1) c.generator e 1 % c.p

/-- Lucas' test. -/
def passes (c : PrimeCertificate) : Bool :=
  2 ≤ c.p && (c.factors.map fun f => f.1 ^ f.2).prod = c.p - 1 && c.power (c.p - 1) = 1 &&
    c.factors.all fun f => c.power ((c.p - 1) / f.1) ≠ 1

theorem power_eq (c : PrimeCertificate) {e : Nat} (he : e ≤ c.p) :
    c.power e = c.generator ^ e % c.p := by
  have h := powMod_modEq c.p (c.p.log2 + 1) c.generator e 1 (he.trans_lt Nat.lt_log2_self)
  rwa [one_mul] at h

theorem pow_eq_one_iff (c : PrimeCertificate) (hp : 2 ≤ c.p) {e : Nat} (he : e ≤ c.p) :
    ((c.generator : ZMod c.p) ^ e = 1) ↔ c.power e = 1 := by
  have hcast : ((c.generator : ZMod c.p) ^ e = 1) ↔
      ((c.generator ^ e : Nat) : ZMod c.p) = ((1 : Nat) : ZMod c.p) := by
    push_cast
    exact Iff.rfl
  rw [hcast, ZMod.natCast_eq_natCast_iff', Nat.mod_eq_of_lt hp, c.power_eq he]

/-- A number that passes the test is prime, if the listed factors are. -/
theorem prime (hc : c.passes = true) (hfactors : ∀ f ∈ c.factors, f.1.Prime) : c.p.Prime := by
  simp only [passes, Bool.and_eq_true, decide_eq_true_eq, List.all_eq_true] at hc
  rcases hc with ⟨⟨⟨hp, hprod⟩, hfull⟩, hparts⟩
  apply lucas_primality c.p (c.generator : ZMod c.p)
  · exact (c.pow_eq_one_iff hp (Nat.sub_le _ _)).2 hfull
  · intro q hq hdvd hone
    -- A prime divisor of `p - 1` is one of the listed factors.
    rw [← hprod] at hdvd
    rcases (Prime.dvd_prod_iff hq.prime).1 hdvd with ⟨x, hx, hqx⟩
    rcases List.mem_map.1 hx with ⟨f, hf, rfl⟩
    have hqf : q = f.1 :=
      (Nat.prime_dvd_prime_iff_eq hq (hfactors f hf)).1 (hq.dvd_of_dvd_pow hqx)
    rw [hqf, c.pow_eq_one_iff hp ((Nat.div_le_self _ _).trans (Nat.sub_le _ _))] at hone
    exact hparts f hf hone

end PrimeCertificate

end Lib
end CleanWeb
