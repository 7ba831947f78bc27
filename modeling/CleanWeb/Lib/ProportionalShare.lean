import Mathlib.Algebra.BigOperators.Group.List.Basic
import Mathlib.Algebra.Order.BigOperators.Group.List
import Mathlib.Algebra.Order.Floor.Div
import Mathlib.Data.List.GetD
import Mathlib.Tactic.Linarith
import Mathlib.Tactic.Ring

/-!
# ProportionalShare — floors of proportional shares

Splitting `total` among weights `ws` of positive sum: the floors `total * w / W` never exceed
`total` together, and what they leave over is smaller than the number of weights.  Handing the
left-over units out one by one then restores `total` exactly, whoever receives them.
-/

namespace CleanWeb
namespace Lib
namespace ProportionalShare

/-- The floored share of each weight. -/
def floors (total W : Nat) (ws : List Nat) : List Nat :=
  ws.map fun w => total * w / W

/-- What each floor rounds away, as a numerator over `W`. -/
def remainders (total W : Nat) (ws : List Nat) : List Nat :=
  ws.map fun w => total * w % W

@[simp] theorem length_floors (total W : Nat) (ws : List Nat) :
    (floors total W ws).length = ws.length := by
  simp [floors]

@[simp] theorem floors_append (total W : Nat) (as bs : List Nat) :
    floors total W (as ++ bs) = floors total W as ++ floors total W bs := by
  simp [floors]

theorem getElem?_floors {total W w : Nat} {ws : List Nat} {i : Nat} (h : ws[i]? = some w) :
    (floors total W ws)[i]? = some (total * w / W) := by
  rw [floors, List.getElem?_map, h, Option.map_some]

theorem getD_remainders {total W w : Nat} {ws : List Nat} {i : Nat} (h : ws[i]? = some w) :
    (remainders total W ws).getD i 0 = total * w % W := by
  rw [List.getD_eq_getElem?_getD, remainders, List.getElem?_map, h, Option.map_some,
    Option.getD_some]

theorem mul_sum_floors_add_sum_remainders (total W : Nat) (ws : List Nat) :
    W * (floors total W ws).sum + (remainders total W ws).sum = total * ws.sum := by
  induction ws with
  | nil =>
      simp [floors, remainders]
  | cons w ws ih =>
      have hdiv : W * (total * w / W) + total * w % W = total * w :=
        Nat.div_add_mod (total * w) W
      calc
        W * (floors total W (w :: ws)).sum + (remainders total W (w :: ws)).sum
            = (W * (total * w / W) + total * w % W) +
                (W * (floors total W ws).sum + (remainders total W ws).sum) := by
              simp only [floors, remainders, List.map_cons, List.sum_cons]
              ring
        _ = total * w + total * ws.sum := by rw [hdiv, ih]
        _ = total * (w :: ws).sum := by
              simp only [List.sum_cons]
              ring

theorem sum_remainders_le (total : Nat) {W : Nat} (hW : 0 < W) (ws : List Nat) :
    (remainders total W ws).sum + ws.length ≤ ws.length * W := by
  induction ws with
  | nil =>
      simp [remainders]
  | cons w ws ih =>
      have hlt : total * w % W < W := Nat.mod_lt _ hW
      have hlen : (w :: ws).length * W = ws.length * W + W := by
        simp only [List.length_cons]
        ring
      simp only [remainders, List.map_cons, List.sum_cons, List.length_cons] at ih hlen ⊢
      omega

/-- The floors of weights that sum to `W` fit into `total`. -/
theorem sum_floors_le {total W : Nat} {ws : List Nat} (hW : 0 < W) (hsum : ws.sum = W) :
    (floors total W ws).sum ≤ total := by
  have h := mul_sum_floors_add_sum_remainders total W ws
  have hle : W * (floors total W ws).sum ≤ W * total := by
    rw [hsum] at h
    calc
      W * (floors total W ws).sum
          ≤ W * (floors total W ws).sum + (remainders total W ws).sum := Nat.le_add_right _ _
      _ = total * W := h
      _ = W * total := Nat.mul_comm _ _
  exact Nat.le_of_mul_le_mul_left hle hW

/-- Fewer units are left over than there are weights. -/
theorem leftover_lt_length {total W : Nat} {ws : List Nat} (hW : 0 < W) (hsum : ws.sum = W) :
    total - (floors total W ws).sum < ws.length := by
  have h := mul_sum_floors_add_sum_remainders total W ws
  have hrem := sum_remainders_le total hW ws
  have hpos : 0 < ws.length := by
    cases ws with
    | nil =>
        simp only [List.sum_nil] at hsum
        omega
    | cons w ws =>
        simp
  have hlt : W * (total - (floors total W ws).sum) < W * ws.length := by
    have htotal : W * (floors total W ws).sum + (remainders total W ws).sum = W * total := by
      rw [h, hsum, Nat.mul_comm]
    have hkey : W * (total - (floors total W ws).sum) = (remainders total W ws).sum := by
      rw [Nat.mul_sub]
      omega
    have hcomm : ws.length * W = W * ws.length := Nat.mul_comm _ _
    omega
  exact Nat.lt_of_mul_lt_mul_left hlt

/-- Weights with the same floor are ordered as their remainders are. -/
theorem mul_le_mul_iff_of_floor_eq {total W v w : Nat}
    (hfloor : total * v / W = total * w / W) :
    total * v ≤ total * w ↔ total * v % W ≤ total * w % W := by
  have hv := Nat.div_add_mod (total * v) W
  have hw := Nat.div_add_mod (total * w) W
  rw [hfloor] at hv
  omega

/-! ## Who receives the left-over units -/

/-- The remainders are together the left-over units. -/
theorem sum_remainders_eq {total W : Nat} {ws : List Nat} (hsum : ws.sum = W) :
    (remainders total W ws).sum = (total - (floors total W ws).sum) * W := by
  have h := mul_sum_floors_add_sum_remainders total W ws
  have hcomm : W * (floors total W ws).sum = (floors total W ws).sum * W := Nat.mul_comm _ _
  rw [hsum] at h
  rw [Nat.sub_mul]
  omega

theorem getD_remainders_lt {total W : Nat} (hW : 0 < W) (ws : List Nat) (i : Nat) :
    (remainders total W ws).getD i 0 < W := by
  rw [List.getD_eq_getElem?_getD, remainders, List.getElem?_map]
  cases ws[i]? with
  | none => exact hW
  | some w => exact Nat.mod_lt _ hW

/-- Reading a list at each of its positions, in whatever order, adds up to its sum. -/
theorem sum_map_getD {l order : List Nat} (h : order.Perm (List.range l.length)) :
    (order.map fun i => l.getD i 0).sum = l.sum := by
  have hrange : (List.range l.length).map (fun i => l.getD i 0) = l := by
    refine List.ext_getElem (by simp) ?_
    intro i _ hi
    simp [List.getD_eq_getElem?_getD, hi]
  rw [(h.map _).sum_eq, hrange]

/-- By decreasing remainders, the left-over units only reach positive remainders. -/
theorem remainder_pos_of_mem_take {total W : Nat} {ws order : List Nat} (hW : 0 < W)
    (hsum : ws.sum = W) (hperm : order.Perm (List.range ws.length))
    (hsorted : order.Pairwise fun a b =>
      (remainders total W ws).getD b 0 ≤ (remainders total W ws).getD a 0)
    {n i : Nat} (hn : n ≤ total - (floors total W ws).sum) (hi : i ∈ order.take n) :
    0 < (remainders total W ws).getD i 0 := by
  by_contra hzero
  have hzero' : (remainders total W ws).getD i 0 = 0 := by omega
  rcases List.mem_iff_getElem.1 hi with ⟨j, hj, heq⟩
  have hjn : j < n ∧ j < order.length := by
    simpa using hj
  have hget : order[j] = i := by
    simpa using heq
  -- From position `j` on there is no remainder left.
  have hrest : ((order.drop j).map fun k => (remainders total W ws).getD k 0).sum = 0 := by
    refine List.sum_eq_zero ?_
    intro r hr
    rcases List.mem_map.1 hr with ⟨k, hk, rfl⟩
    rw [List.drop_eq_getElem_cons hjn.2, hget] at hk
    rcases List.mem_cons.1 hk with rfl | hk
    · exact hzero'
    · have hpair := hsorted.sublist (List.drop_sublist j order)
      rw [List.drop_eq_getElem_cons hjn.2, hget] at hpair
      have hle := List.rel_of_pairwise_cons hpair hk
      omega
  have hfirst : ((order.take j).map fun k => (remainders total W ws).getD k 0).sum ≤ j * W := by
    have hbound := List.sum_le_card_nsmul
      ((order.take j).map fun k => (remainders total W ws).getD k 0) W (by
        intro r hr
        rcases List.mem_map.1 hr with ⟨k, -, rfl⟩
        exact (getD_remainders_lt hW ws k).le)
    have hlen : j ⊓ order.length = j := by
      omega
    simpa [hlen] using hbound
  have hall := @sum_map_getD (remainders total W ws) order (by simpa [remainders] using hperm)
  have hsplit : (order.map fun k => (remainders total W ws).getD k 0).sum =
      ((order.take j).map fun k => (remainders total W ws).getD k 0).sum +
        ((order.drop j).map fun k => (remainders total W ws).getD k 0).sum := by
    rw [← List.sum_append, ← List.map_append, List.take_append_drop]
  have hleft : (j + 1) * W ≤ (total - (floors total W ws).sum) * W :=
    Nat.mul_le_mul_right W (by omega)
  have heqs := @sum_remainders_eq total W ws hsum
  rw [Nat.add_mul] at hleft
  omega

/-! ## Handing out one unit -/

/-- Raising one in-range entry by one raises the sum by one. -/
theorem sum_set_succ {l : List Nat} {i b : Nat} (h : l[i]? = some b) :
    (l.set i (b + 1)).sum = l.sum + 1 := by
  induction l generalizing i with
  | nil =>
      simp at h
  | cons a l ih =>
      cases i with
      | zero =>
          have hab : a = b := by simpa using h
          subst hab
          simp only [List.set_cons_zero, List.sum_cons]
          omega
      | succ i =>
          have hi : l[i]? = some b := by simpa using h
          have hrec := ih hi
          simp only [List.set_cons_succ, List.sum_cons, hrec]
          omega

/-! ## Sharing out a floored part

A part `fee * S / R` of `fee` is shared out by weights that sum to `S`.  The share of the weight `c`
is then close to `fee * c / R`, as though `fee` itself were shared out by weights that sum to `R`.
-/

section Part

variable {fee S R c : Nat}

theorem part_mul_le : fee * S / R * c * R ≤ fee * c * S := by
  have hpart : fee * S / R * R ≤ fee * S := Nat.div_mul_le_self _ _
  calc
    fee * S / R * c * R = fee * S / R * R * c := by ring
    _ ≤ fee * S * c := Nat.mul_le_mul_right c hpart
    _ = fee * c * S := by ring

/-- A floored share is at most the floor of the undisturbed share. -/
theorem part_share_le (hS : 0 < S) (hR : 0 < R) : fee * S / R * c / S ≤ fee * c / R := by
  have hfloor : fee * S / R * c / S * S ≤ fee * S / R * c := Nat.div_mul_le_self _ _
  have hscaled : fee * S / R * c / S * R * S ≤ fee * c * S := by
    calc
      fee * S / R * c / S * R * S = fee * S / R * c / S * S * R := by ring
      _ ≤ fee * S / R * c * R := Nat.mul_le_mul_right R hfloor
      _ ≤ fee * c * S := part_mul_le
  rw [Nat.le_div_iff_mul_le hR]
  exact Nat.le_of_mul_le_mul_right hscaled hS

/-- A floored share that is not exact is below the undisturbed share. -/
theorem part_share_lt_ceil (hR : 0 < R) (hrem : 0 < fee * S / R * c % S) :
    fee * S / R * c / S + 1 ≤ fee * c ⌈/⌉ R := by
  have hdiv := Nat.div_add_mod (fee * S / R * c) S
  have hfloor : fee * S / R * c / S * S < fee * S / R * c := by
    rw [Nat.mul_comm]
    omega
  have hscaled : fee * S / R * c / S * R * S < fee * c * S := by
    calc
      fee * S / R * c / S * R * S = fee * S / R * c / S * S * R := by ring
      _ < fee * S / R * c * R := Nat.mul_lt_mul_of_pos_right hfloor hR
      _ ≤ fee * c * S := part_mul_le
  have hlt : fee * S / R * c / S * R < fee * c := Nat.lt_of_mul_lt_mul_right hscaled
  by_contra hle
  have hceil : fee * c ⌈/⌉ R ≤ fee * S / R * c / S := by
    omega
  rw [ceilDiv_le_iff_le_mul hR, Nat.mul_comm R] at hceil
  exact absurd hceil (Nat.not_le.2 hlt)

/-- A weight within the sum loses at most one unit to the floor of the part. -/
theorem share_le_part_succ (hS : 0 < S) (hR : 0 < R) (hc : c ≤ S) :
    fee * c / R ≤ fee * S / R * c / S + 1 := by
  have hpart : fee * S < (fee * S / R + 1) * R := by
    rw [Nat.mul_comm (fee * S / R + 1)]
    exact Nat.lt_mul_div_succ (fee * S) hR
  have hfloor : fee * S / R * c < (fee * S / R * c / S + 1) * S := by
    rw [Nat.mul_comm (fee * S / R * c / S + 1)]
    exact Nat.lt_mul_div_succ (fee * S / R * c) hS
  by_contra hgt
  have hpos : 0 < c := by
    rcases Nat.eq_zero_or_pos c with rfl | hpos
    · simp at hgt
    · exact hpos
  have hlow : (fee * S / R * c / S + 2) * R ≤ fee * c := by
    rw [← Nat.le_div_iff_mul_le hR]
    omega
  -- The floor of the part costs the weight less than `c / S`, which is at most one.
  have hscaled : (fee * S / R * c / S + 2) * R * S < (fee * S / R * c / S + 2) * R * S := by
    calc
      (fee * S / R * c / S + 2) * R * S ≤ fee * c * S := Nat.mul_le_mul_right S hlow
      _ = fee * S * c := by ring
      _ < (fee * S / R + 1) * R * c := Nat.mul_lt_mul_of_pos_right hpart hpos
      _ = (fee * S / R * c + c) * R := by ring
      _ ≤ ((fee * S / R * c / S + 1) * S + S) * R := by
          refine Nat.mul_le_mul_right R ?_
          omega
      _ = (fee * S / R * c / S + 2) * R * S := by ring
  omega

end Part

end ProportionalShare
end Lib
end CleanWeb
