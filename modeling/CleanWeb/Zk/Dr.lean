import CleanWeb.Dapr.Diminishing

/-!
# The proven weight (`libs/zk-circuits/src/dr.rs`)

The multiplier table of the circuit and the native weight of a row.  The parameter `checks` says
whether the build panics on overflow or keeps the low bits.
-/

namespace CleanWeb
namespace Zk

open Lib Lib.Exec Dapr

/-- In-circuit cap on repeat plays. -/
def maxPlaysCircuit : Nat := 64

/-- Entry `i` is the multiplier of `i + 1` plays. -/
def dPpmTable (kPpm : Nat) : Exec DaprError (List Nat) :=
  (List.range maxPlaysCircuit).mapM fun i => dPpm (i + 1) kPpm

/-- The plays the table is read at. -/
def clampPlays (plays : Nat) : Nat :=
  max 1 (min plays maxPlaysCircuit)

/-- `minutes · price_ppm · region_ppm · D(plays) / 1e6` in 128-bit arithmetic. -/
def weightOf (checks : Bool) (minutes plays pricePpm regionPpm kPpm : Nat) :
    Exec DaprError Nat := do
  let v := clampPlays plays
  let table ← dPpmTable kPpm
  let d ← index table (v - 1)
  let scaled ← mulBuild checks 128 minutes pricePpm
  let value ← mulBuild checks 128 scaled regionPpm
  let product ← mulBuild checks 128 value d
  divU product 1000000

/-! ## The table -/

variable {kPpm : Nat}

theorem exists_dPpmTable (hk : kPpm < 2 ^ 64) :
    ∃ table, dPpmTable kPpm = .ok table ∧
      List.Forall₂ (fun i d => dPpm (i + 1) kPpm = .ok d ∧ d ≤ 1000000)
        (List.range maxPlaysCircuit) table := by
  have hmeets : Meets (dPpmTable kPpm)
      (List.Forall₂ (fun i d => dPpm (i + 1) kPpm = .ok d ∧ d ≤ 1000000)
        (List.range maxPlaysCircuit)) (fun _ => False) := by
    apply meets_mapM
    intro i _
    rcases exists_dPpm (i + 1) hk with ⟨d, hd, hle⟩
    rw [hd]
    exact ⟨rfl, hle⟩
  cases htable : dPpmTable kPpm with
  | ok table => exact ⟨table, rfl, hmeets.of_ok htable⟩
  | error t => exact absurd (hmeets.of_error htable) id

/-- The table holds the multiplier of every play count up to the cap. -/
theorem dPpmTable_getElem? {table : List Nat} (hk : kPpm < 2 ^ 64)
    (htable : dPpmTable kPpm = .ok table) {i : Nat} (hi : i < maxPlaysCircuit) :
    ∃ d, table[i]? = some d ∧ dPpm (i + 1) kPpm = .ok d ∧ d ≤ 1000000 := by
  rcases exists_dPpmTable hk with ⟨table', htable', hrel⟩
  have heq : table' = table := by
    rw [htable] at htable'
    exact (Except.ok.inj htable').symm
  rw [heq] at hrel
  have hlen : i < table.length := by
    rw [← hrel.length_eq]
    simpa using hi
  have hget := (List.forall₂_iff_get.1 hrel).2 i (by simpa using hi) hlen
  refine ⟨table[i], List.getElem?_eq_getElem hlen, ?_⟩
  simpa using hget

/-! ## The weight -/

/-- Below the circuit's ranges only the last product of `weight_of` can leave 128 bits. -/
theorem weightOf_eq {checks : Bool} {minutes plays pricePpm regionPpm d : Nat}
    (hk : kPpm < 2 ^ 64) (hm : minutes < 2 ^ 32) (hp : pricePpm < 2 ^ 40)
    (hr : regionPpm < 2 ^ 40) (hd : dPpm (clampPlays plays) kPpm = .ok d) :
    weightOf checks minutes plays pricePpm regionPpm kPpm =
      (mulBuild checks 128 (minutes * pricePpm * regionPpm) d >>= fun product =>
        divU product 1000000) := by
  have hclamp : 1 ≤ clampPlays plays ∧ clampPlays plays - 1 < maxPlaysCircuit := by
    unfold clampPlays maxPlaysCircuit
    omega
  rcases exists_dPpmTable hk with ⟨table, htable, -⟩
  rcases dPpmTable_getElem? hk htable hclamp.2 with ⟨d', hget, hd', -⟩
  have hdd : d' = d := by
    rw [Nat.sub_add_cancel hclamp.1, hd] at hd'
    exact (Except.ok.inj hd').symm
  have hscaled : minutes * pricePpm < 2 ^ 72 := by
    calc minutes * pricePpm < 2 ^ 32 * 2 ^ 40 := Nat.mul_lt_mul'' hm hp
      _ = 2 ^ 72 := by norm_num
  have hvalue : minutes * pricePpm * regionPpm < 2 ^ 112 := by
    calc minutes * pricePpm * regionPpm < 2 ^ 72 * 2 ^ 40 := Nat.mul_lt_mul'' hscaled hr
      _ = 2 ^ 112 := by norm_num
  have hmul1 : (mulBuild checks 128 minutes pricePpm : Exec DaprError Nat) =
      .ok (minutes * pricePpm) := if_pos (hscaled.trans (by decide))
  have hmul2 : (mulBuild checks 128 (minutes * pricePpm) regionPpm : Exec DaprError Nat) =
      .ok (minutes * pricePpm * regionPpm) := if_pos (hvalue.trans (by decide))
  have hindex : (index table (clampPlays plays - 1) : Exec DaprError Nat) = .ok d := by
    rw [index_eq_ok, hget, hdd]
  simp only [weightOf, htable, hindex, hmul1, hmul2, ok_bind]

theorem clampPlays_eq {plays : Nat} (h1 : 1 ≤ plays) (h64 : plays ≤ maxPlaysCircuit) :
    clampPlays plays = plays := by
  unfold clampPlays
  omega

theorem weightOf_of_fits {checks : Bool} {minutes plays pricePpm regionPpm d : Nat}
    (hk : kPpm < 2 ^ 64) (hm : minutes < 2 ^ 32) (hp : pricePpm < 2 ^ 40)
    (hr : regionPpm < 2 ^ 40) (h1 : 1 ≤ plays) (h64 : plays ≤ maxPlaysCircuit)
    (hd : dPpm plays kPpm = .ok d) (hfits : minutes * pricePpm * regionPpm * d < 2 ^ 128) :
    weightOf checks minutes plays pricePpm regionPpm kPpm =
      .ok (minutes * pricePpm * regionPpm * d / 1000000) := by
  rw [weightOf_eq hk hm hp hr (by rw [clampPlays_eq h1 h64]; exact hd)]
  have hproduct : (mulBuild checks 128 (minutes * pricePpm * regionPpm) d :
      Exec DaprError Nat) = .ok (minutes * pricePpm * regionPpm * d) :=
    if_pos hfits
  rw [hproduct]
  rfl

/-- Whatever comes of the last product, the weight has 128 bits. -/
theorem weight_lt_of_product {checks : Bool} {value d weight : Nat}
    (hweight : (mulBuild checks 128 value d >>= fun product => divU product 1000000 :
      Exec DaprError Nat) = .ok weight) : weight < 2 ^ 128 := by
  rcases bind_eq_ok.1 hweight with ⟨product, hproduct, hdiv⟩
  have hdivided : product / 1000000 = weight := Except.ok.inj hdiv
  have hlt : product < 2 ^ 128 := by
    by_cases hfits : value * d < 2 ^ 128
    · rw [mulBuild, if_pos hfits] at hproduct
      rwa [← Except.ok.inj hproduct]
    · rw [mulBuild, if_neg hfits] at hproduct
      cases checks with
      | true => cases hproduct
      | false =>
          rw [← Except.ok.inj hproduct]
          exact Nat.mod_lt _ (Nat.two_pow_pos 128)
  calc
    weight = product / 1000000 := hdivided.symm
    _ ≤ product := Nat.div_le_self _ _
    _ < 2 ^ 128 := hlt

/-- A product that left 128 bits gives no weight, or one below the floor. -/
theorem fits_of_weight {checks : Bool} {value d : Nat}
    (hweight : (mulBuild checks 128 value d >>= fun product => divU product 1000000 :
      Exec DaprError Nat) = .ok (value * d / 1000000)) : value * d < 2 ^ 128 := by
  rcases bind_eq_ok.1 hweight with ⟨product, hproduct, hdiv⟩
  have hdivided : product / 1000000 = value * d / 1000000 := Except.ok.inj hdiv
  by_contra hwide
  rw [mulBuild, if_neg hwide] at hproduct
  cases checks with
  -- With overflow checks the product panics.
  | true => cases hproduct
  | false =>
      have hwrapped : value * d % 2 ^ 128 = product := Except.ok.inj hproduct
      -- The wrapped product is at least `2 ^ 128` smaller.
      have hless : product + 2 ^ 128 ≤ value * d := by
        have hsplit := Nat.div_add_mod (value * d) (2 ^ 128)
        have hquot : 1 ≤ value * d / 2 ^ 128 :=
          (Nat.one_le_div_iff (by decide)).2 (Nat.le_of_not_lt hwide)
        have hmul := Nat.mul_le_mul_left (2 ^ 128) hquot
        omega
      omega

end Zk
end CleanWeb
