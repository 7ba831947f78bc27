import CleanWeb.Dapr.Apportion

/-!
# The largest-remainder method

`apportion` is the largest-remainder split.  The units left over after flooring are handed out in
the order of the remainders, and a unit never overtakes: of two weights, the one that ranks first is
raised first.  All that is said about two shares below follows from that.
-/

namespace CleanWeb
namespace Dapr

open Lib Lib.Exec Lib.ProportionalShare

/-- `shares` is a largest-remainder split of `total` among `ws`, whose sum is `W`. -/
structure LargestRemainder (total W : Nat) (ws shares : List Nat) : Prop where
  length : shares.length = ws.length
  sum : shares.sum = total
  floor_or_ceil : ∀ i w s : Nat, ws[i]? = some w → shares[i]? = some s →
    s = total * w / W ∨ s = total * w ⌈/⌉ W
  zero : ∀ i : Nat, ws[i]? = some 0 → shares[i]? = some 0
  mono : ∀ i j v w s t : Nat, ws[i]? = some v → ws[j]? = some w → v < w →
    shares[i]? = some s → shares[j]? = some t → s ≤ t
  equal : ∀ i j w s t : Nat, i < j → ws[i]? = some w → ws[j]? = some w →
    shares[i]? = some s → shares[j]? = some t → t ≤ s ∧ s ≤ t + 1

variable {total W : Nat} {ws idxs shares : List Nat}

/-- An inexact floor and one unit make the ceiling. -/
theorem floor_succ_eq_ceil {w : Nat} (hW : 0 < W) (hrem : 0 < total * w % W) :
    total * w / W + 1 = total * w ⌈/⌉ W := by
  have hdiv := Nat.div_add_mod (total * w) W
  apply Nat.le_antisymm
  · by_contra hlt
    have hle : total * w ⌈/⌉ W ≤ total * w / W := by omega
    rw [ceilDiv_le_iff_le_mul hW] at hle
    omega
  · rw [ceilDiv_le_iff_le_mul hW]
    exact (Nat.lt_mul_div_succ _ hW).le

/-! ## Two positions -/

/-- Where the first of two positions is raised and the second is not, its remainder is the larger
one, or it comes earlier. -/
theorem Raised.ranks (h : Raised total W ws idxs) {i j v w : Nat} (hi : ws[i]? = some v)
    (hj : ws[j]? = some w) (hmem : i ∈ idxs) (hnot : j ∉ idxs) :
    total * w % W < total * v % W ∨ (total * w % W = total * v % W ∧ i ≤ j) := by
  have hlt : j < ws.length := (List.getElem?_eq_some_iff.1 hj).1
  have hfirst := h.first i hmem j hlt hnot
  rwa [RanksBefore, getD_remainders hi, getD_remainders hj] at hfirst

/-- A larger weight with the same floor is raised whenever the smaller one is. -/
theorem Raised.mem_of_lt (h : Raised total W ws idxs) {i j v w : Nat} (hi : ws[i]? = some v)
    (hj : ws[j]? = some w) (hvw : v < w) (hfloor : total * v / W = total * w / W)
    (hmem : i ∈ idxs) : j ∈ idxs := by
  by_contra hnot
  -- Nothing is handed out of an empty total.
  have htotal : 0 < total := by
    have hrem := h.remainder_pos i hmem
    rw [getD_remainders hi] at hrem
    apply Nat.pos_of_ne_zero
    rintro rfl
    simp at hrem
  have hlt : total * v < total * w := Nat.mul_lt_mul_of_pos_left hvw htotal
  rcases h.ranks hi hj hmem hnot with hrank | ⟨hrank, -⟩
  · exact absurd ((mul_le_mul_iff_of_floor_eq hfloor).1 hlt.le) (Nat.not_le.2 hrank)
  · exact absurd ((mul_le_mul_iff_of_floor_eq hfloor.symm).2 hrank.le) (Nat.not_le.2 hlt)

/-- Of two equal weights, the later one is raised only if the earlier one is. -/
theorem Raised.mem_of_earlier (h : Raised total W ws idxs) {i j w : Nat} (hij : i < j)
    (hi : ws[i]? = some w) (hj : ws[j]? = some w) (hmem : j ∈ idxs) : i ∈ idxs := by
  by_contra hnot
  rcases h.ranks hj hi hmem hnot with hrank | ⟨-, hle⟩
  · exact absurd hrank (Nat.lt_irrefl _)
  · exact absurd hle (Nat.not_le.2 hij)

/-- A larger weight never has the smaller share. -/
theorem Raised.share_le_of_lt (h : Raised total W ws idxs) {i j v w : Nat} (hi : ws[i]? = some v)
    (hj : ws[j]? = some w) (hvw : v < w) :
    (total * v / W + if i ∈ idxs then 1 else 0) ≤ total * w / W + if j ∈ idxs then 1 else 0 := by
  have hle : total * v / W ≤ total * w / W :=
    Nat.div_le_div_right (Nat.mul_le_mul_left total hvw.le)
  by_cases hmem : i ∈ idxs
  · rw [if_pos hmem]
    rcases Nat.lt_or_eq_of_le hle with hlt | hfloor
    · -- The floors already differ by the unit that `i` received.
      exact Nat.le_add_right_of_le hlt
    · rw [if_pos (h.mem_of_lt hi hj hvw hfloor hmem), hfloor]
  · rw [if_neg hmem]
    exact Nat.le_add_right_of_le hle

/-- Of two equal weights, the earlier one has the later one's share, or one unit more. -/
theorem Raised.share_of_earlier (h : Raised total W ws idxs) {i j w : Nat} (hij : i < j)
    (hi : ws[i]? = some w) (hj : ws[j]? = some w) :
    (total * w / W + if j ∈ idxs then 1 else 0) ≤ (total * w / W + if i ∈ idxs then 1 else 0) ∧
      (total * w / W + if i ∈ idxs then 1 else 0) ≤
        (total * w / W + if j ∈ idxs then 1 else 0) + 1 := by
  by_cases hmem : j ∈ idxs
  · rw [if_pos hmem, if_pos (h.mem_of_earlier hij hi hj hmem)]
    exact ⟨le_rfl, Nat.le_succ _⟩
  · rw [if_neg hmem, Nat.add_zero]
    refine ⟨Nat.le_add_right _ _, Nat.add_le_add_left ?_ _⟩
    split
    · exact le_rfl
    · exact Nat.zero_le 1

/-! ## The split -/

theorem Raised.largestRemainder (h : Raised total W ws idxs) (hW : 0 < W)
    (hshare : ∀ i w : Nat, ws[i]? = some w →
      shares[i]? = some (total * w / W + if i ∈ idxs then 1 else 0))
    (hlength : shares.length = ws.length) (hsum : shares.sum = total) :
    LargestRemainder total W ws shares := by
  -- A share that is listed is the one `hshare` computes.
  have hread : ∀ {i w s : Nat}, ws[i]? = some w → shares[i]? = some s →
      s = total * w / W + if i ∈ idxs then 1 else 0 := by
    intro i w s hi hs
    rw [hshare i w hi] at hs
    exact (Option.some.inj hs).symm
  refine ⟨hlength, hsum, ?_, ?_, ?_, ?_⟩
  · intro i w s hi hs
    rw [hread hi hs]
    by_cases hmem : i ∈ idxs
    · have hrem := h.remainder_pos i hmem
      rw [getD_remainders hi] at hrem
      rw [if_pos hmem]
      exact Or.inr (floor_succ_eq_ceil hW hrem)
    · rw [if_neg hmem]
      exact Or.inl rfl
  · intro i hi
    rw [hshare i 0 hi, if_neg (h.not_mem_of_zero hi)]
    simp
  · intro i j v w s t hi hj hvw hs ht
    rw [hread hi hs, hread hj ht]
    exact h.share_le_of_lt hi hj hvw
  · intro i j w s t hij hi hj hs ht
    rw [hread hi hs, hread hj ht]
    exact h.share_of_earlier hij hi hj

/-- A returned split, as long as the positions fit a machine word. -/
theorem largestRemainder_of_ok (hW : 0 < W) (hsum : ws.sum = W) (hlen : ws.length < 2 ^ 64)
    (h : apportion total ws W = .ok shares) : LargestRemainder total W ws shares := by
  rcases apportion_returned hW hsum h with ⟨-, idxs, hraised, hbumps⟩
  refine hraised.largestRemainder hW ?_ (apportion_ok hW hsum h).1 (apportion_sum hW hsum hlen h)
  intro i w hi
  exact hraised.share hbumps hi

/-- If every product fits into 128 bits, what the flooring loop leaves over is within `total` and
below the number of weights, which the cast to `usize` keeps, and the function returns the
largest-remainder split. -/
theorem apportion_exact (total W : Nat) (ws : List Nat) (hW : 0 < W) (hsum : ws.sum = W)
    (hfit : ∀ w ∈ ws, total * w < 2 ^ 128) (hlen : ws.length < 2 ^ 64) :
    (∃ pass : FloorPass, ws.foldlM (floorStep total W) ⟨[], [], 0⟩ = .ok pass ∧
      pass.assigned ≤ total ∧ total - pass.assigned < ws.length ∧
      (total - pass.assigned) % 2 ^ 64 = total - pass.assigned) ∧
    ∃ shares, apportion total ws W = .ok shares ∧ LargestRemainder total W ws shares := by
  -- A positive weight keeps the total itself below 128 bits.
  have htotal : total < 2 ^ 128 := by
    have hne : ∃ w ∈ ws, w ≠ 0 := by
      by_contra hall
      push Not at hall
      exact absurd hsum (by rw [List.sum_eq_zero hall]; exact hW.ne)
    rcases hne with ⟨w, hw, hpos⟩
    exact (Nat.le_mul_of_pos_right total (Nat.pos_of_ne_zero hpos)).trans_lt (hfit w hw)
  have hfits : ∀ t : Trap DaprError, ¬ OverflowsBy (∃ w ∈ ws, 2 ^ 128 ≤ total * w) t := by
    rintro t ⟨-, w, hw, hbig⟩
    exact absurd (hfit w hw) (Nat.not_lt.2 hbig)
  have hle : (floors total W ws).sum ≤ total := sum_floors_le hW hsum
  have hleft : total - (floors total W ws).sum < ws.length := leftover_lt_length hW hsum
  refine ⟨?_, ?_⟩
  · rcases (floorLoop_meets hW (hle.trans_lt htotal)).exists_ok hfits with ⟨pass, hloop, -, hpass⟩
    refine ⟨pass, hloop, ?_⟩
    rw [hpass]
    exact ⟨hle, hleft, Nat.mod_eq_of_lt (hleft.trans hlen)⟩
  · rcases (apportion_meets total W ws hW hsum htotal hlen).exists_ok hfits with ⟨shares, hok, -⟩
    exact ⟨shares, hok, largestRemainder_of_ok hW hsum hlen hok⟩

/-- Ten units over three equal weights: the unit left over goes to the earliest. -/
theorem apportion_exact_ten :
    apportion 10 [1, 0, 1, 1] 3 = .ok [4, 0, 3, 3] ∧
      LargestRemainder 10 3 [1, 0, 1, 1] [4, 0, 3, 3] := by
  have hok : apportion 10 [1, 0, 1, 1] 3 = .ok [4, 0, 3, 3] := by rfl
  rcases (apportion_exact 10 3 [1, 0, 1, 1] (by decide) rfl (by decide) (by decide)).2 with
    ⟨shares, hshares, hsplit⟩
  rw [hok] at hshares
  cases hshares
  exact ⟨hok, hsplit⟩

end Dapr
end CleanWeb
