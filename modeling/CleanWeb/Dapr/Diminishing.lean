import Mathlib.Tactic.Ring
import CleanWeb.Dapr.Model
import CleanWeb.Lib.FloorMean

/-!
# The diminishing-returns multiplier (`sims/src/lib.rs`, `d_ppm`)

`d_ppm` never panics: it is the rounded mean of the values of the plays, which fall from a million
on.  So it falls with the plays and with `k`.
-/

namespace CleanWeb
namespace Dapr

open Lib Lib.Exec Finset

/-- The value in ppm of the play after `i` others. -/
def playValue (kPpm i : Nat) : Nat :=
  1000000 * 1000000 / (1000000 + kPpm * i)

/-- The plays that the loop of `dPpm` adds up. -/
def playsCounted (plays : Nat) : Nat :=
  max 1 (min plays playsCap)

theorem playValue_zero (kPpm : Nat) : playValue kPpm 0 = 1000000 := by
  simp [playValue]

theorem playValue_antitone (kPpm : Nat) : Antitone (playValue kPpm) := by
  intro i j hij
  refine Nat.div_le_div_left ?_ (by omega)
  exact Nat.add_le_add_left (Nat.mul_le_mul_left kPpm hij) _

theorem playValue_le_of_le {kPpm kPpm' : Nat} (h : kPpm ≤ kPpm') (i : Nat) :
    playValue kPpm' i ≤ playValue kPpm i := by
  refine Nat.div_le_div_left ?_ (by omega)
  exact Nat.add_le_add_left (Nat.mul_le_mul_right i h) _

theorem playValue_le (kPpm i : Nat) : playValue kPpm i ≤ 1000000 := by
  rw [← playValue_zero kPpm]
  exact playValue_antitone kPpm (Nat.zero_le i)

theorem playsCounted_pos (plays : Nat) : 0 < playsCounted plays :=
  Nat.lt_of_lt_of_le Nat.zero_lt_one (le_max_left _ _)

theorem playsCounted_le (plays : Nat) : playsCounted plays ≤ playsCap :=
  max_le (by decide) (min_le_right _ _)

theorem playsCounted_mono {plays plays' : Nat} (h : plays ≤ plays') :
    playsCounted plays ≤ playsCounted plays' :=
  max_le_max le_rfl (min_le_min_right _ h)

/-! ## The loop -/

theorem dPpmStep_ok {kPpm sumPpm i : Nat} (hk : kPpm < 2 ^ 64) (hcap : i < playsCap)
    (hsum : sumPpm ≤ i * 1000000) :
    dPpmStep kPpm sumPpm (i + 1) = .ok (sumPpm + playValue kPpm i) := by
  have hcap' : playsCap = 100000 := rfl
  have hscaled : kPpm * i ≤ 2 ^ 64 * 100000 := Nat.mul_le_mul (by omega) (by omega)
  have hterm := playValue_le kPpm i
  have hprev : (subU (i + 1) 1 : Exec DaprError Nat) = .ok i :=
    subU_eq_ok.2 ⟨by omega, by omega⟩
  have hmul : (mulU 128 kPpm i : Exec DaprError Nat) = .ok (kPpm * i) :=
    mulU_eq_ok.2 ⟨by omega, rfl⟩
  have hadd : (addU 128 1000000 (kPpm * i) : Exec DaprError Nat) = .ok (1000000 + kPpm * i) :=
    addU_eq_ok.2 ⟨by omega, rfl⟩
  have hdiv : (divU (1000000 * 1000000) (1000000 + kPpm * i) : Exec DaprError Nat) =
      .ok (playValue kPpm i) := if_neg (by omega)
  simp only [dPpmStep, hprev, hmul, hadd, hdiv, ok_bind]
  exact addU_eq_ok.2 ⟨by omega, rfl⟩

/-- The loop adds up the values of the plays. -/
theorem dPpmLoop_ok {kPpm n : Nat} (hk : kPpm < 2 ^ 64) (hn : n ≤ playsCap) :
    (List.range' 1 n).foldlM (dPpmStep kPpm) 0 =
      (.ok (∑ i ∈ range n, playValue kPpm i) : Exec DaprError Nat) := by
  induction n with
  | zero =>
      rfl
  | succ n ih =>
      have hsum : ∑ i ∈ range n, playValue kPpm i ≤ n * 1000000 := by
        calc
          ∑ i ∈ range n, playValue kPpm i ≤ ∑ _i ∈ range n, 1000000 :=
            sum_le_sum fun i _ => playValue_le kPpm i
          _ = n * 1000000 := by simp
      rw [List.range'_1_concat, List.foldlM_append, ih (by omega), sum_range_succ, Nat.add_comm 1 n]
      simp only [List.foldlM_cons, List.foldlM_nil, ok_bind, dPpmStep_ok hk hn hsum]
      rfl

/-- The multiplier is the rounded mean of the values of the plays counted. -/
theorem dPpm_eq {kPpm : Nat} (plays : Nat) (hk : kPpm < 2 ^ 64) :
    dPpm plays kPpm = .ok (floorMean (playValue kPpm) (playsCounted plays)) := by
  have hloop := dPpmLoop_ok hk (playsCounted_le plays)
  have hle : floorMean (playValue kPpm) (playsCounted plays) ≤ 1000000 :=
    floorMean_le (playValue_le kPpm) _
  rw [playsCounted] at hloop
  simp only [dPpm, hloop, ok_bind]
  exact congrArg Except.ok (Nat.mod_eq_of_lt (hle.trans_lt (by decide)))

theorem exists_dPpm {kPpm : Nat} (plays : Nat) (hk : kPpm < 2 ^ 64) :
    ∃ d, dPpm plays kPpm = .ok d ∧ d ≤ 1000000 :=
  ⟨_, dPpm_eq plays hk, floorMean_le (playValue_le kPpm) _⟩

/-! ## The curve -/

/-- For every play count and every `k`, the multiplier is computed without overflow, lies between a
million over the plays counted and a million, and does not rise with the plays or with `k`. -/
theorem dPpm_curve (plays kPpm : Nat) (hk : kPpm < 2 ^ 64) :
    ∃ d, dPpm plays kPpm = .ok d ∧ 1000000 / playsCounted plays ≤ d ∧ d ≤ 1000000 ∧
      (∀ plays', plays ≤ plays' → ∃ d', dPpm plays' kPpm = .ok d' ∧ d' ≤ d) ∧
      ∀ kPpm', kPpm ≤ kPpm' → kPpm' < 2 ^ 64 → ∃ d', dPpm plays kPpm' = .ok d' ∧ d' ≤ d := by
  refine ⟨_, dPpm_eq plays hk, ?_, floorMean_le (playValue_le kPpm) _, ?_, ?_⟩
  · have hfirst := div_le_floorMean (playValue kPpm) (playsCounted_pos plays)
    rwa [playValue_zero] at hfirst
  · intro plays' hplays
    refine ⟨_, dPpm_eq plays' hk, ?_⟩
    exact floorMean_antitone (playValue_antitone kPpm) (playsCounted_pos plays)
      (playsCounted_mono hplays)
  · intro kPpm' hle hk'
    exact ⟨_, dPpm_eq plays hk', floorMean_mono (playValue_le_of_le hle) _⟩

/-- A hundred plays are worth no more each than one, and a steeper curve is no higher. -/
theorem dPpm_curve_hundred :
    ∃ d d' d'', dPpm 1 1000000 = .ok d ∧ dPpm 100 1000000 = .ok d' ∧ dPpm 1 2000000 = .ok d'' ∧
      1000000 ≤ d ∧ d' ≤ d ∧ d'' ≤ d := by
  rcases dPpm_curve 1 1000000 (by decide) with ⟨d, hd, hlow, -, hplays, hk⟩
  rcases hplays 100 (by decide) with ⟨d', hd', hle⟩
  rcases hk 2000000 (by decide) (by decide) with ⟨d'', hd'', hle'⟩
  exact ⟨d, d', d'', hd, hd', hd'', hlow, hle, hle'⟩

end Dapr
end CleanWeb
