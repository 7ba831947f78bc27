import CleanWeb.Dapr.Discount
import CleanWeb.Lib.Dominated
import CleanWeb.Settle.Evidence

/-!
# More evidence never lowers a payment

The factor of a user and the credibility of a row grow with the verified bytes, through every clamp,
floor and saturation, and the payments grow with the credibilities.
-/

namespace CleanWeb
namespace Settle

open Lib Lib.Exec Lib.BTreeMap Dapr

attribute [local instance] lexOrd

/-! ## Rounding is monotone -/

/-- Also where an operand saturates: what the remainder adds stays below one more `b`. -/
theorem mulDivFloor_mono_left {a a' : Nat} (b d : Nat) (h : a ≤ a') :
    mulDivFloor a b d ≤ mulDivFloor a' b d := by
  unfold mulDivFloor saturatingAdd saturatingMul
  dsimp only
  generalize 2 ^ 128 - 1 = cap
  rcases Nat.eq_zero_or_pos d with rfl | hd
  · simp
  have hquot : a / d ≤ a' / d := Nat.div_le_div_right h
  rcases Nat.lt_or_eq_of_le hquot with hlt | heq
  · have hrem : min (a % d * b) cap / d ≤ b := by
      calc
        min (a % d * b) cap / d ≤ a % d * b / d :=
          Nat.div_le_div_right (Nat.min_le_left _ _)
        _ ≤ b := Nat.div_le_of_le_mul (Nat.mul_le_mul_right b (Nat.mod_lt a hd).le)
    have hnext : a / d * b + b ≤ a' / d * b := by
      calc
        a / d * b + b = (a / d + 1) * b := by ring
        _ ≤ a' / d * b := Nat.mul_le_mul_right b hlt
    generalize min (a % d * b) cap / d = low at hrem ⊢
    generalize min (a' % d * b) cap / d = low'
    omega
  · have hrem : a % d ≤ a' % d := by
      have hsplit := Nat.div_add_mod a d
      have hsplit' := Nat.div_add_mod a' d
      rw [heq] at hsplit
      omega
    rw [heq]
    have hprod : min (a % d * b) cap ≤ min (a' % d * b) cap :=
      min_le_min_right _ (Nat.mul_le_mul_right b hrem)
    exact min_le_min_right _ (Nat.add_le_add_left (Nat.div_le_div_right hprod) _)

theorem mulDivFloor_mono_right {b b' : Nat} (a d : Nat) (h : b ≤ b') :
    mulDivFloor a b d ≤ mulDivFloor a b' d := by
  unfold mulDivFloor saturatingAdd saturatingMul
  dsimp only
  generalize 2 ^ 128 - 1 = cap
  have hquot : min (a / d * b) cap ≤ min (a / d * b') cap :=
    min_le_min_right _ (Nat.mul_le_mul_left _ h)
  have hrem : min (a % d * b) cap / d ≤ min (a % d * b') cap / d :=
    Nat.div_le_div_right (min_le_min_right _ (Nat.mul_le_mul_left _ h))
  exact min_le_min_right _ (Nat.add_le_add hquot hrem)

theorem mulDivFloor_mono {a a' b b' : Nat} (d : Nat) (ha : a ≤ a') (hb : b ≤ b') :
    mulDivFloor a b d ≤ mulDivFloor a' b' d :=
  (mulDivFloor_mono_left b d ha).trans (mulDivFloor_mono_right a' d hb)

/-! ## Factors -/

variable {verified verified' : BTreeMap (String × String) Nat} {rates : BTreeMap String Nat}

theorem userBytes_dominated (h : Dominated verified verified') :
    Dominated (userBytes verified) (userBytes verified') := by
  have htally := userBytes_tallies verified
  have htally' := userBytes_tallies verified'
  refine Dominated.of_getD ?_ ?_
  · intro user huser
    rw [htally.keys, List.map_map] at huser
    rw [htally'.keys, List.map_map]
    rcases List.mem_map.1 huser with ⟨⟨key, bytes⟩, he, rfl⟩
    rcases h key bytes (mem_toList.1 he) with ⟨bytes', he', -⟩
    exact List.mem_map.2 ⟨(key, bytes'), mem_toList.2 he', rfl⟩
  · intro user
    have hsum := h.sum_filter_le fun key => normalizeAddr key.1 = user
    rw [htally.amount, htally'.amount]
    refine min_le_min_right _ ?_
    simpa [amountAt, List.filter_map, Function.comp_def] using hsum

theorem epochFactorPpm_dominated (h : Dominated verified verified') (minEpochBytes : Nat) :
    Dominated (epochFactorPpm verified minEpochBytes) (epochFactorPpm verified' minEpochBytes) := by
  have hbytes := userBytes_dominated h
  unfold epochFactorPpm
  dsimp only
  split
  · exact hbytes.map (f := fun _ => 1000000) monotone_const
  · refine hbytes.map (f := fun bytes => min (mulDivFloor bytes 1000000 minEpochBytes) 1000000) ?_
    intro a b hab
    exact min_le_min_right _ (mulDivFloor_mono_left _ _ hab)

theorem epochFactorPpm_le (verified : BTreeMap (String × String) Nat) (minEpochBytes : Nat)
    (user : String) : (epochFactorPpm verified minEpochBytes).getD user 0 ≤ 1000000 := by
  have hmap : ∀ f : Nat → Nat, (∀ bytes, f bytes ≤ 1000000) →
      ((userBytes verified).map fun _ bytes => f bytes).getD user 0 ≤ 1000000 := by
    intro f hf
    rw [Std.ExtTreeMap.getD_eq_getD_getElem?, Std.ExtTreeMap.getElem?_map]
    cases (userBytes verified)[user]? with
    | none => exact Nat.zero_le _
    | some bytes => exact hf bytes
  unfold epochFactorPpm
  dsimp only
  split
  · exact hmap (fun _ => 1000000) fun _ => Nat.le_refl _
  · exact hmap (fun bytes => min (mulDivFloor bytes 1000000 minEpochBytes) 1000000)
      fun _ => Nat.min_le_right _ _

/-! ## Credibilities -/

section Credibility

variable {factor factor' : BTreeMap String Nat}

theorem rowCredibility_mono (h : Dominated verified verified') (hfactor : Dominated factor factor')
    (hmax : ∀ user, factor'.getD user 0 ≤ 1000000) (row : RawRow) :
    rowCredibility verified rates factor row ≤ rowCredibility verified' rates factor' row := by
  have hle := hfactor.getD_le (normalizeAddr row.user)
  have hcap := hmax (normalizeAddr row.user)
  have hbytes := h.getD_le (normalizeAddr row.user, toAsciiLowercase row.work)
  unfold rowCredibility
  dsimp only
  split
  · exact Nat.le_refl _
  split
  · exact hle
  · generalize max (mulDivFloor row.raw (rates.getD (toAsciiLowercase row.work) 0) rateScale) 1 =
      expected
    have hppm := min_le_min_right 1000000 (mulDivFloor_mono_left 1000000 expected hbytes)
    have hfold := mulDivFloor_mono 1000000 hppm hle
    -- The right side is at most a million, so neither side wraps.
    have hsmall : mulDivFloor (min (mulDivFloor (verified'.getD
        (normalizeAddr row.user, toAsciiLowercase row.work) 0) 1000000 expected) 1000000)
        (factor'.getD (normalizeAddr row.user) 0) 1000000 ≤ 1000000 := by
      refine (mulDivFloor_le _ _ _).trans (Nat.div_le_of_le_mul ?_)
      exact Nat.mul_le_mul (Nat.min_le_right _ _) hcap
    rw [Nat.mod_eq_of_lt (by omega), Nat.mod_eq_of_lt (by omega)]
    exact hfold

end Credibility

theorem rowCredibilityPpm_mono (h : Dominated verified verified') (rows : List RawRow)
    (rates : BTreeMap String Nat) (minEpochBytes : Nat) :
    List.Forall₂ (· ≤ ·)
      (rowCredibilityPpm rows verified rates (epochFactorPpm verified minEpochBytes))
      (rowCredibilityPpm rows verified' rates (epochFactorPpm verified' minEpochBytes)) := by
  have hfactor := epochFactorPpm_dominated h minEpochBytes
  refine List.forall₂_map_left_iff.2 (List.forall₂_map_right_iff.2 (List.forall₂_same.2 ?_))
  intro row _
  exact rowCredibility_mono h hfactor (epochFactorPpm_le verified' minEpochBytes) row

/-- More verified bytes, for the same rows, rates, fees and evidence floor: no factor and no
credibility falls, none is above a million, and of two allocations that are returned the one with
more evidence pays no less of any user's fee to works and leaves no more unallocated. -/
theorem more_evidence_never_lowers (rows : List RawRow) (rates : BTreeMap String Nat)
    (tierFees : BTreeMap UserId Nat) (minEpochBytes : Nat)
    (verified verified' : BTreeMap (String × String) Nat) (h : Dominated verified verified')
    (hrows : rows.length < 2 ^ 64) :
    let factor := epochFactorPpm verified minEpochBytes
    let factor' := epochFactorPpm verified' minEpochBytes
    let ppm := rowCredibilityPpm rows verified rates factor
    let ppm' := rowCredibilityPpm rows verified' rates factor'
    Dominated factor factor' ∧
      (∀ (user : String) (c : Nat), factor'[user]? = some c → c ≤ 1000000) ∧
      List.Forall₂ (· ≤ ·) ppm ppm' ∧ (∀ c ∈ ppm', c ≤ 1000000) ∧
      ∀ p p', allocateFromRawWithRowCredibility tierFees rows ppm = .ok p →
        allocateFromRawWithRowCredibility tierFees rows ppm' = .ok p' →
          (∀ user fee, tierFees[user]? = some fee →
            (rowShares fee (rowsOf rows ppm user)).sum ≤
              (rowShares fee (rowsOf rows ppm' user)).sum) ∧
          p'.unallocated ≤ p.unallocated := by
  intro factor factor' ppm ppm'
  have hppm := rowCredibilityPpm_mono h rows rates minEpochBytes
  have hfactor := epochFactorPpm_le verified' minEpochBytes
  refine ⟨epochFactorPpm_dominated h minEpochBytes, ?_, hppm, ?_, ?_⟩
  · intro user c hc
    have hle := hfactor user
    rw [Std.ExtTreeMap.getD_eq_getD_getElem?] at hle
    change factor'[user]?.getD 0 ≤ 1000000 at hle
    rwa [hc] at hle
  · intro c hc
    rcases List.mem_map.1 hc with ⟨row, -, rfl⟩
    exact (rowCredibility_le row).trans (hfactor _)
  · intro p p' hp hp'
    exact discount_lowers hrows hppm hp hp'

/-- The bytes verified for one user and one work. -/
def sampleVerified (bytes : Nat) : BTreeMap (String × String) Nat :=
  (∅ : BTreeMap (String × String) Nat).insert ("u", "w") bytes

theorem sampleVerified_dominated {bytes bytes' : Nat} (h : bytes ≤ bytes') :
    Dominated (sampleVerified bytes) (sampleVerified bytes') := by
  intro key v hv
  unfold sampleVerified at hv ⊢
  rw [Std.ExtTreeMap.getElem?_insert] at hv ⊢
  split at hv
  · rename_i hkey
    rw [if_pos hkey]
    exact ⟨bytes', rfl, by rw [← Option.some.inj hv]; exact h⟩
  · simp at hv

/-- Ten bytes are expected; five are verified, and then all ten. -/
theorem more_evidence_never_lowers_sample :
    let ppm := fun bytes => rowCredibilityPpm [⟨"u", "w", 10⟩] (sampleVerified bytes)
      {("w", rateScale)} (epochFactorPpm (sampleVerified bytes) 10)
    ∃ p p', allocateFromRawWithRowCredibility {("u", 100)} [⟨"u", "w", 10⟩] (ppm 5) = .ok p ∧
      allocateFromRawWithRowCredibility {("u", 100)} [⟨"u", "w", 10⟩] (ppm 10) = .ok p' ∧
      p'.unallocated ≤ p.unallocated := by
  intro ppm
  have hok : trap (allocateFromRawWithRowCredibility {("u", 100)} [⟨"u", "w", 10⟩] (ppm 5)) =
      none := by
    decide +kernel
  have hok' : trap (allocateFromRawWithRowCredibility {("u", 100)} [⟨"u", "w", 10⟩] (ppm 10)) =
      none := by
    decide +kernel
  rcases exists_ok_of_trap hok with ⟨p, hp⟩
  rcases exists_ok_of_trap hok' with ⟨p', hp'⟩
  rcases more_evidence_never_lowers [⟨"u", "w", 10⟩] {("w", rateScale)} {("u", 100)} 10
    (sampleVerified 5) (sampleVerified 10) (sampleVerified_dominated (by decide)) (by decide) with
    ⟨-, -, -, -, hpaid⟩
  exact ⟨p, p', hp, hp', (hpaid p p' hp hp').2⟩

end Settle
end CleanWeb
