import Mathlib.Data.ZMod.Basic
import Mathlib.Algebra.Field.ZMod
import Mathlib.Tactic.Ring
import CleanWeb.Lib.Synth

/-!
# Gadgets over a prime field

The standard building blocks of an arithmetic circuit over `ZMod p`: booleans, products,
conditional (dis)equality, equality tests and canonical bit decompositions.  Every gadget has a
soundness rule (`ensures_…`) for arbitrary assignments and simp lemmas (`value_…`, `accepted_…`)
for the prover's own.
-/

namespace CleanWeb
namespace Lib
namespace Gadget

open Synth

variable {p : Nat}

/-! ## Definitions -/

/-- A field element used as a truth value. -/
def IsBit (x : ZMod p) : Prop :=
  x = 0 ∨ x = 1

def ofBool (b : Bool) : ZMod p :=
  if b then 1 else 0

/-- A boolean witness. -/
def newBit (b : Bool) : Synth (ZMod p) (ZMod p) := do
  let x ← newWitness (ofBool b)
  require (x * (1 - x) = 0)
  pure x

/-- A product of two variables. -/
def mul (a b : ZMod p) : Synth (ZMod p) (ZMod p) := do
  let c ← newWitness (a * b)
  require (a * b = c)
  pure c

def enforceEqual (a b : ZMod p) : Synth (ZMod p) Unit :=
  require (a = b)

def conditionalEnforceEqual (a b guard : ZMod p) : Synth (ZMod p) Unit :=
  require ((a - b) * guard = 0)

/-- `a - b` is shown to be invertible when the guard is set. -/
def conditionalEnforceNotEqual (a b guard : ZMod p) : Synth (ZMod p) Unit := do
  let multiplier ← newWitness (if guard = 1 then (a - b)⁻¹ else 0)
  require ((a - b) * multiplier = guard)

/-- Whether `a = b`, as a truth value. -/
def isEq (a b : ZMod p) : Synth (ZMod p) (ZMod p) := do
  let isNotEqual ← newBit (a ≠ b)
  let multiplier ← newWitness (if a ≠ b then (a - b)⁻¹ else 1)
  require ((a - b) * multiplier = isNotEqual)
  require ((a - b) * (1 - isNotEqual) = 0)
  pure (1 - isNotEqual)

/-- At least one of the truth values is false. -/
def enforceKaryNand (b : ZMod p) (bits : List (ZMod p)) : Synth (ZMod p) Unit := do
  let all ← bits.foldlM mul b
  enforceEqual (1 - all) 1

/-- The field element of a little-endian bit string. -/
def leBitsToFp (bits : List (ZMod p)) : ZMod p :=
  bits.foldr (fun b acc => b + 2 * acc) 0

/-- The integer of a little-endian bit string. -/
def leBitsToNat (bits : List (ZMod p)) : Nat :=
  bits.foldr (fun b acc => b.val + 2 * acc) 0

/-- The canonical `w`-bit decomposition: the integer is below the modulus. -/
def toBitsLe (w : Nat) (x : ZMod p) : Synth (ZMod p) (List (ZMod p)) := do
  let bits ← (List.range w).mapM fun i => newBit (x.val.testBit i)
  enforceEqual (leBitsToFp bits) x
  require (leBitsToNat bits < p)
  pure bits

/-! ## Bit strings -/

theorem cast_leBitsToNat [NeZero p] (bits : List (ZMod p)) :
    (leBitsToNat bits : ZMod p) = leBitsToFp bits := by
  induction bits with
  | nil => exact Nat.cast_zero
  | cons b bits ih =>
      have hcons : ((b.val + 2 * leBitsToNat bits : Nat) : ZMod p) = b + 2 * leBitsToFp bits := by
        push_cast
        rw [ih, ZMod.natCast_rightInverse b]
      exact hcons

theorem leBitsToNat_take_le (bits : List (ZMod p)) (n : Nat) :
    leBitsToNat (bits.take n) ≤ leBitsToNat bits := by
  induction bits generalizing n with
  | nil => simp
  | cons b bits ih =>
      cases n with
      | zero => exact Nat.zero_le _
      | succ n =>
          have hle := ih n
          change b.val + 2 * leBitsToNat (bits.take n) ≤ b.val + 2 * leBitsToNat bits
          omega

theorem IsBit.val_le [Fact (1 < p)] {x : ZMod p} (hx : IsBit x) : x.val ≤ 1 := by
  rcases hx with rfl | rfl
  · simp
  · rw [ZMod.val_one]

theorem leBitsToNat_lt [Fact (1 < p)] {bits : List (ZMod p)} (hbits : ∀ b ∈ bits, IsBit b) :
    leBitsToNat bits < 2 ^ bits.length := by
  induction bits with
  | nil => exact Nat.one_pos
  | cons b bits ih =>
      have hb := (hbits b (by simp)).val_le
      have hrest := ih fun x hx => hbits x (by simp [hx])
      change b.val + 2 * leBitsToNat bits < 2 ^ (bits.length + 1)
      rw [pow_succ]
      omega

theorem val_ofBool [Fact (1 < p)] (b : Bool) : (ofBool b : ZMod p).val = b.toNat := by
  cases b with
  | false => exact ZMod.val_zero
  | true => exact ZMod.val_one p

/-- The low bits of `v`, read back. -/
theorem leBitsToNat_testBits [Fact (1 < p)] (v n : Nat) :
    leBitsToNat ((List.range n).map fun i => (ofBool (v.testBit i) : ZMod p)) = v % 2 ^ n := by
  induction n generalizing v with
  | zero => simp [leBitsToNat, Nat.mod_one]
  | succ n ih =>
      rw [List.range_succ_eq_map, List.map_cons, List.map_map]
      have htail : ((fun i => (ofBool (v.testBit i) : ZMod p)) ∘ Nat.succ) =
          fun i => ofBool ((v / 2).testBit i) := by
        funext i
        simp [Nat.testBit_succ]
      rw [htail]
      change (ofBool (v.testBit 0) : ZMod p).val + 2 * leBitsToNat _ = _
      rw [ih, val_ofBool, Nat.testBit_zero, pow_succ', Nat.mod_mul]
      congr 1
      rcases Nat.mod_two_eq_zero_or_one v with h | h <;> simp [h]

/-! ## Soundness -/

section Sound

variable [Fact p.Prime]

theorem ensures_newBit (b : Bool) : Ensures (newBit b : Synth (ZMod p) (ZMod p)) IsBit := by
  apply ensures_newWitness_bind
  intro x
  apply ensures_require_bind
  intro hx
  apply ensures_pure
  rcases mul_eq_zero.1 hx with h | h
  · exact .inl h
  · exact .inr (sub_eq_zero.1 h).symm

theorem ensures_mul (a b : ZMod p) : Ensures (mul a b) fun c => c = a * b := by
  apply ensures_newWitness_bind
  intro c
  apply ensures_require_bind
  intro hc
  exact ensures_pure hc.symm

theorem ensures_conditionalEnforceEqual (a b guard : ZMod p) :
    Ensures (conditionalEnforceEqual a b guard) fun _ => guard ≠ 0 → a = b := by
  refine ensures_require.mono ?_
  intro _ h hguard
  exact sub_eq_zero.1 ((mul_eq_zero.1 h).resolve_right hguard)

theorem ensures_conditionalEnforceNotEqual (a b guard : ZMod p) :
    Ensures (conditionalEnforceNotEqual a b guard) fun _ => guard ≠ 0 → a ≠ b := by
  apply ensures_newWitness_bind
  intro multiplier
  refine ensures_require.mono ?_
  rintro _ h hguard rfl
  rw [sub_self, zero_mul] at h
  exact hguard h.symm

theorem ensures_isEq (a b : ZMod p) : Ensures (isEq a b) fun r => r = if a = b then 1 else 0 := by
  refine (ensures_newBit _).bind ?_
  intro isNotEqual hbit
  apply ensures_newWitness_bind
  intro multiplier
  apply ensures_require_bind
  intro hinv
  apply ensures_require_bind
  intro hzero
  apply ensures_pure
  by_cases hab : a = b
  · -- Equal elements leave nothing to invert.
    rw [hab, sub_self, zero_mul] at hinv
    rw [if_pos hab, ← hinv, sub_zero]
  · rw [if_neg hab]
    exact (mul_eq_zero.1 hzero).resolve_left (sub_ne_zero.2 hab)

theorem ensures_foldlM_mul (b : ZMod p) (bits : List (ZMod p)) :
    Ensures (bits.foldlM mul b) fun c => c = b * bits.prod := by
  induction bits generalizing b with
  | nil =>
      rw [List.foldlM_nil]
      exact ensures_pure (by simp)
  | cons x bits ih =>
      rw [List.foldlM_cons]
      refine (ensures_mul b x).bind ?_
      rintro _ rfl
      refine (ih (b * x)).mono ?_
      rintro _ rfl
      rw [List.prod_cons, mul_assoc]

theorem ensures_enforceKaryNand (b : ZMod p) (bits : List (ZMod p)) :
    Ensures (enforceKaryNand b bits) fun _ => b * bits.prod = 0 := by
  refine (ensures_foldlM_mul b bits).bind ?_
  rintro _ rfl
  refine ensures_require.mono ?_
  intro _ h
  simpa using h

/-- The decomposition is the one of the canonical representative. -/
theorem ensures_toBitsLe (w : Nat) (x : ZMod p) :
    Ensures (toBitsLe w x) fun bits =>
      bits.length = w ∧ (∀ b ∈ bits, IsBit b) ∧ leBitsToNat bits = x.val := by
  refine (ensures_mapM (Q := fun _ b => IsBit b) fun i _ => ensures_newBit _).bind ?_
  intro bits hbits
  apply ensures_require_bind
  intro hvalue
  apply ensures_require_bind
  intro hfield
  refine ensures_pure ⟨?_, ?_, ?_⟩
  · simpa using hbits.length_eq.symm
  · intro b hb
    rcases exists_left_of_forall₂ hbits hb with ⟨-, -, hbit⟩
    exact hbit
  · rw [← ZMod.val_natCast_of_lt hfield, cast_leBitsToNat, hvalue]

end Sound

/-! ## Public inputs -/

theorem inputFree_newBit (b : Bool) : (newBit b : Synth (ZMod p) _).InputFree :=
  (inputFree_newWitness _).bind fun _ => (inputFree_require _).bind fun _ => inputFree_pure _

theorem inputFree_mul (a b : ZMod p) : (mul a b).InputFree :=
  (inputFree_newWitness _).bind fun _ => (inputFree_require _).bind fun _ => inputFree_pure _

theorem inputFree_conditionalEnforceEqual (a b guard : ZMod p) :
    (conditionalEnforceEqual a b guard).InputFree :=
  inputFree_require _

theorem inputFree_conditionalEnforceNotEqual (a b guard : ZMod p) :
    (conditionalEnforceNotEqual a b guard).InputFree :=
  (inputFree_newWitness _).bind fun _ => inputFree_require _

theorem inputFree_isEq (a b : ZMod p) : (isEq a b).InputFree :=
  (inputFree_newBit _).bind fun _ => (inputFree_newWitness _).bind fun _ =>
    (inputFree_require _).bind fun _ => (inputFree_require _).bind fun _ => inputFree_pure _

theorem inputFree_enforceKaryNand (b : ZMod p) (bits : List (ZMod p)) :
    (enforceKaryNand b bits).InputFree :=
  (inputFree_foldlM inputFree_mul bits b).bind fun _ => inputFree_require _

theorem inputFree_toBitsLe (w : Nat) (x : ZMod p) : (toBitsLe w x).InputFree :=
  (inputFree_mapM (fun _ => inputFree_newBit _) _).bind fun _ =>
    (inputFree_require _).bind fun _ => (inputFree_require _).bind fun _ => inputFree_pure _

/-! ## Completeness -/

section Complete

@[simp] theorem value_newBit (b : Bool) : (newBit b : Synth (ZMod p) _).value = ofBool b := rfl

@[simp] theorem accepted_newBit (b : Bool) : (newBit b : Synth (ZMod p) _).Accepted := by
  cases b <;> simp [newBit, ofBool]

@[simp] theorem value_mul (a b : ZMod p) : (mul a b).value = a * b := rfl

@[simp] theorem accepted_mul (a b : ZMod p) : (mul a b).Accepted := by
  simp [mul]

@[simp] theorem accepted_enforceEqual (a b : ZMod p) : (enforceEqual a b).Accepted ↔ a = b := by
  simp [enforceEqual]

@[simp] theorem value_toBitsLe (w : Nat) (x : ZMod p) :
    (toBitsLe w x).value = (List.range w).map fun i => ofBool (x.val.testBit i) := by
  simp [toBitsLe]

variable [Fact p.Prime]

theorem accepted_conditionalEnforceEqual (a b guard : ZMod p) :
    (conditionalEnforceEqual a b guard).Accepted ↔ (guard ≠ 0 → a = b) := by
  rw [conditionalEnforceEqual, accepted_require, mul_eq_zero, sub_eq_zero]
  tauto

theorem accepted_conditionalEnforceNotEqual (a b : ZMod p) (guard : Bool) :
    (conditionalEnforceNotEqual a b (ofBool guard)).Accepted ↔ (guard = true → a ≠ b) := by
  cases guard with
  | false => simp [conditionalEnforceNotEqual, ofBool]
  | true =>
      by_cases hab : a = b
      · simp [conditionalEnforceNotEqual, ofBool, hab]
      · simp [conditionalEnforceNotEqual, ofBool, hab, mul_inv_cancel₀ (sub_ne_zero.2 hab)]

@[simp] theorem value_isEq (a b : ZMod p) :
    (isEq a b).value = if a = b then 1 else 0 := by
  by_cases hab : a = b <;> simp [isEq, ofBool, hab]

@[simp] theorem accepted_isEq (a b : ZMod p) : (isEq a b).Accepted := by
  by_cases hab : a = b
  · simp [isEq, ofBool, hab]
  · simp [isEq, ofBool, hab, mul_inv_cancel₀ (sub_ne_zero.2 hab)]

theorem value_foldlM_mul (b : ZMod p) (bits : List (ZMod p)) :
    (bits.foldlM mul b).value = b * bits.prod ∧ (bits.foldlM mul b).Accepted := by
  induction bits generalizing b with
  | nil => simp
  | cons x bits ih => simp [ih, mul_assoc]

theorem accepted_enforceKaryNand (b : ZMod p) (bits : List (ZMod p)) :
    (enforceKaryNand b bits).Accepted ↔ b * bits.prod = 0 := by
  simp [enforceKaryNand, value_foldlM_mul]

/-- The prover's decomposition is accepted when the modulus fits the width. -/
theorem accepted_toBitsLe {w : Nat} (hw : p ≤ 2 ^ w) (x : ZMod p) : (toBitsLe w x).Accepted := by
  have hp : Fact (1 < p) := ⟨(Fact.out : p.Prime).one_lt⟩
  have hx : x.val < p := ZMod.val_lt x
  have hnat : leBitsToNat ((List.range w).map fun i => (ofBool (x.val.testBit i) : ZMod p)) =
      x.val := by
    rw [leBitsToNat_testBits, Nat.mod_eq_of_lt (hx.trans_le hw)]
  have hfp : leBitsToFp ((List.range w).map fun i => (ofBool (x.val.testBit i) : ZMod p)) = x := by
    rw [← cast_leBitsToNat, hnat, ZMod.natCast_rightInverse x]
  simp [toBitsLe, hnat, hfp, hx]

end Complete

end Gadget
end Lib
end CleanWeb
