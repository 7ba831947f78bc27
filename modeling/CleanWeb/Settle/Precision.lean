import CleanWeb.Settle.Evidence

/-!
# Nothing is lost in `mul_div_floor`

The quotient `a · b / d` is computed in two parts so as not to leave 128 bits, and each part
saturates.  While the product of the remainder fits, the result is the exact floor, cut off at the
largest `u128`; every call keeps to that.  The credibility of a row is then the documented formula
in unbounded arithmetic: no rounding but that of the floors, and no saturation, can be seen in it.
-/

namespace CleanWeb
namespace Settle

open Lib Lib.Exec Lib.BTreeMap Dapr

attribute [local instance] lexOrd

/-! ## The quotient -/

/-- Saturating early in a sum does not show once the sum saturates. -/
theorem min_add_min (a b cap : Nat) : min (min a cap + b) cap = min (a + b) cap := by
  rcases Nat.le_total a cap with hle | hle
  · rw [Nat.min_eq_left hle]
  · rw [Nat.min_eq_right hle, Nat.min_eq_right (Nat.le_add_right cap b),
      Nat.min_eq_right (hle.trans (Nat.le_add_right a b))]

/-- Exact, as long as the product of the remainder is not clipped. -/
theorem mulDivFloor_eq_min {a b d : Nat} (hd : 0 < d) (h : a % d * b < 2 ^ 128) :
    mulDivFloor a b d = min (a * b / d) (2 ^ 128 - 1) := by
  have hrem : saturatingMul (a % d) b = a % d * b := Nat.min_eq_left (Nat.le_sub_one_of_lt h)
  rw [mulDivFloor, hrem, saturatingMul, saturatingAdd, min_add_min, ← mul_div_eq_add hd]

/-! ## What the calls pass -/

section Totals

variable {hex : HexCodec} {recoverSigner : RecoverSigner} {epoch : Nat}
variable {credentialed : String → Bool} {receipts counted : List SignedReceipt}

/-- No receipt is counted twice. -/
theorem length_counted_le (h : Counted hex recoverSigner epoch credentialed receipts counted) :
    counted.length ≤ receipts.length := by
  have hnodup : counted.Nodup := List.Nodup.of_map _ h.once
  have hsub : ∀ s ∈ counted, s ∈ receipts := fun s hs => (h.checked s hs).1
  exact (hnodup.subperm hsub).length_le

/-- The bytes accepted for a consumer and a work are at most a block for each receipt. -/
theorem acceptReceipts_le (hex : HexCodec) (recoverSigner : RecoverSigner)
    (bundle : ReceiptBundle) (epoch : Nat) (credentialed : String → Bool)
    (key : String × String) :
    (acceptReceipts hex recoverSigner bundle epoch credentialed).getD key 0 ≤
      bundle.receipts.length * chunkSize := by
  rcases acceptReceipts_spec hex recoverSigner bundle epoch credentialed with
    ⟨counted, hcounted, htally⟩
  have hblock : ∀ bytes ∈ ((credits counted).filter fun e => e.1 = key).map Prod.snd,
      bytes ≤ chunkSize := by
    intro bytes hbytes
    rcases List.mem_map.1 hbytes with ⟨e, he, rfl⟩
    rcases List.mem_map.1 (List.mem_filter.1 he).1 with ⟨s, -, rfl⟩
    exact Nat.min_le_right _ _
  calc
    (acceptReceipts hex recoverSigner bundle epoch credentialed).getD key 0
        ≤ amountAt key (credits counted) := htally.le key
    _ ≤ ((credits counted).filter fun e => e.1 = key).length * chunkSize := by
        have hsum := List.sum_le_card_nsmul _ chunkSize hblock
        rwa [List.length_map, smul_eq_mul] at hsum
    -- The receipts of one consumer and work are some of those counted.
    _ ≤ counted.length * chunkSize := by
        refine Nat.mul_le_mul_right _ ((List.length_filter_le _ _).trans ?_)
        rw [credits, List.length_map]
    _ ≤ bundle.receipts.length * chunkSize :=
        Nat.mul_le_mul_right _ (length_counted_le hcounted)

/-- A million times these bytes is far from 128 bits. -/
theorem acceptReceipts_mul_lt (hex : HexCodec) (recoverSigner : RecoverSigner)
    {bundle : ReceiptBundle} (hlen : bundle.receipts.length < 2 ^ 64) (epoch : Nat)
    (credentialed : String → Bool) (key : String × String) :
    (acceptReceipts hex recoverSigner bundle epoch credentialed).getD key 0 * 1000000 <
      2 ^ 128 - 1 := by
  have hle := acceptReceipts_le hex recoverSigner bundle epoch credentialed key
  calc
    (acceptReceipts hex recoverSigner bundle epoch credentialed).getD key 0 * 1000000
        ≤ bundle.receipts.length * chunkSize * 1000000 := Nat.mul_le_mul_right _ hle
    _ ≤ 2 ^ 64 * chunkSize * 1000000 :=
        Nat.mul_le_mul_right _ (Nat.mul_le_mul_right _ hlen.le)
    _ < 2 ^ 128 - 1 := by decide

end Totals

/-! ## The four calls -/

/-- The expectation of a row. -/
theorem mulDivFloor_rate (raw : Nat) {rate : Nat} (h : rate < 2 ^ 64) :
    mulDivFloor raw rate rateScale = min (raw * rate / rateScale) (2 ^ 128 - 1) := by
  apply mulDivFloor_eq_min (by decide)
  calc
    raw % rateScale * rate ≤ rateScale * 2 ^ 64 :=
      Nat.mul_le_mul (Nat.mod_lt _ (by decide)).le h.le
    _ < 2 ^ 128 := by decide

/-- The share of the expectation. -/
theorem mulDivFloor_bytes {bytes expected : Nat} (hbytes : bytes * 1000000 < 2 ^ 128)
    (hpos : 1 ≤ expected) :
    mulDivFloor bytes 1000000 expected = min (bytes * 1000000 / expected) (2 ^ 128 - 1) := by
  apply mulDivFloor_eq_min hpos
  -- The remainder is at most the bytes themselves.
  exact (Nat.mul_le_mul_right _ (Nat.mod_le _ _)).trans_lt hbytes

/-- The two shares of a row folded together. -/
theorem mulDivFloor_fold (rowPpm : Nat) {factor : Nat} (h : factor ≤ 1000000) :
    mulDivFloor rowPpm factor 1000000 = min (rowPpm * factor / 1000000) (2 ^ 128 - 1) := by
  apply mulDivFloor_eq_min (by decide)
  calc
    rowPpm % 1000000 * factor ≤ 1000000 * 1000000 :=
      Nat.mul_le_mul (Nat.mod_lt _ (by decide)).le h
    _ < 2 ^ 128 := by decide

/-- The share of the evidence floor. -/
theorem mulDivFloor_floor (bytes : Nat) {minEpochBytes : Nat} (hne : minEpochBytes ≠ 0)
    (h : minEpochBytes < 2 ^ 64) :
    mulDivFloor bytes 1000000 minEpochBytes =
      min (bytes * 1000000 / minEpochBytes) (2 ^ 128 - 1) := by
  apply mulDivFloor_eq_min (Nat.pos_of_ne_zero hne)
  calc
    bytes % minEpochBytes * 1000000 ≤ 2 ^ 64 * 1000000 :=
      Nat.mul_le_mul_right _ ((Nat.mod_lt _ (Nat.pos_of_ne_zero hne)).le.trans h.le)
    _ < 2 ^ 128 := by decide

/-- At each of the four calls the quotient is the floor of the exact one, cut off at 128 bits. -/
theorem mulDivFloor_exact :
    (∀ raw rate : Nat, rate < 2 ^ 64 →
      mulDivFloor raw rate rateScale = min (raw * rate / rateScale) (2 ^ 128 - 1)) ∧
    (∀ (hex : HexCodec) (recoverSigner : RecoverSigner) (bundle : ReceiptBundle) (epoch : Nat)
      (credentialed : String → Bool) (key : String × String) (expected : Nat),
      bundle.receipts.length < 2 ^ 64 → 1 ≤ expected → expected < 2 ^ 128 →
      let bytes := (acceptReceipts hex recoverSigner bundle epoch credentialed).getD key 0
      mulDivFloor bytes 1000000 expected = min (bytes * 1000000 / expected) (2 ^ 128 - 1)) ∧
    (∀ rowPpm factor : Nat, rowPpm ≤ 1000000 → factor ≤ 1000000 →
      mulDivFloor rowPpm factor 1000000 = min (rowPpm * factor / 1000000) (2 ^ 128 - 1)) ∧
    ∀ (verified : BTreeMap (String × String) Nat) (user : String) (minEpochBytes : Nat),
      minEpochBytes ≠ 0 → minEpochBytes < 2 ^ 64 →
      let bytes := (userBytes verified).getD user 0
      mulDivFloor bytes 1000000 minEpochBytes =
        min (bytes * 1000000 / minEpochBytes) (2 ^ 128 - 1) := by
  refine ⟨?_, ?_, ?_, ?_⟩
  · intro raw rate hrate
    exact mulDivFloor_rate raw hrate
  · intro hex recoverSigner bundle epoch credentialed key expected hlen hpos _ bytes
    have hbytes := acceptReceipts_mul_lt hex recoverSigner hlen epoch credentialed key
    exact mulDivFloor_bytes (hbytes.trans (by decide)) hpos
  · intro rowPpm factor _ hfactor
    exact mulDivFloor_fold rowPpm hfactor
  · intro verified user minEpochBytes hne hlt bytes
    exact mulDivFloor_floor bytes hne hlt

/-- The largest weight at the largest rate is cut off; five bytes of seven are not. -/
theorem mulDivFloor_exact_sample :
    mulDivFloor (2 ^ 128 - 1) (2 ^ 64 - 1) rateScale =
        min ((2 ^ 128 - 1) * (2 ^ 64 - 1) / rateScale) (2 ^ 128 - 1) ∧
      mulDivFloor ((acceptReceipts Hex.codec sampleRecover sampleReceipts 3 fun _ => true).getD
          (Address.display Hex.codec 1, "0xaa") 0) 1000000 7 =
        min ((acceptReceipts Hex.codec sampleRecover sampleReceipts 3 fun _ => true).getD
          (Address.display Hex.codec 1, "0xaa") 0 * 1000000 / 7) (2 ^ 128 - 1) ∧
      mulDivFloor 714285 500000 1000000 = min (714285 * 500000 / 1000000) (2 ^ 128 - 1) ∧
      mulDivFloor ((userBytes {(("0x1", "0xaa"), 5)}).getD "0x1" 0) 1000000 10 =
        min ((userBytes {(("0x1", "0xaa"), 5)}).getD "0x1" 0 * 1000000 / 10) (2 ^ 128 - 1) :=
  ⟨mulDivFloor_exact.1 _ _ (by decide),
    mulDivFloor_exact.2.1 _ _ _ _ _ _ _ (by decide) (by decide) (by decide),
    mulDivFloor_exact.2.2.1 _ _ (by decide) (by decide),
    mulDivFloor_exact.2.2.2 _ _ _ (by decide) (by decide)⟩

/-! ## The documented formula -/

/-- The share of the epoch's floor that `bytes` make up, clamped at neutral. -/
def factorOf (minEpochBytes bytes : Nat) : Nat :=
  if minEpochBytes = 0 then 1000000 else min (bytes * 1000000 / minEpochBytes) 1000000

/-- The share of the expected bytes, of which there is at least one, clamped at neutral. -/
def rowRatio (raw rate bytes : Nat) : Nat :=
  min (bytes * 1000000 / max (raw * rate / rateScale) 1) 1000000

/-- The credibility of a row that claims `raw`. -/
def credibilityOf (raw rate bytes factor : Nat) : Nat :=
  if rate = 0 then 0
  else if raw = 0 then factor
  else rowRatio raw rate bytes * factor / 1000000

theorem factorOf_le (minEpochBytes bytes : Nat) : factorOf minEpochBytes bytes ≤ 1000000 := by
  unfold factorOf
  split
  · exact Nat.le_refl _
  · exact Nat.min_le_right _ _

/-- What is cut off at 128 bits is clamped further down anyway. -/
theorem min_min_neutral (a : Nat) : min (min a (2 ^ 128 - 1)) 1000000 = min a 1000000 := by
  rw [Nat.min_assoc]
  exact congrArg (min a) (Nat.min_eq_right (by decide))

theorem epochFactorPpm_eq (verified : BTreeMap (String × String) Nat) {minEpochBytes : Nat}
    (hfloor : minEpochBytes < 2 ^ 64) (user : String) :
    (epochFactorPpm verified minEpochBytes)[user]? =
      (userBytes verified)[user]?.map (factorOf minEpochBytes) := by
  unfold epochFactorPpm
  dsimp only
  split
  · rename_i hzero
    rw [Std.ExtTreeMap.getElem?_map]
    refine Option.map_congr fun bytes _ => ?_
    rw [factorOf, if_pos hzero]
  · rename_i hne
    rw [Std.ExtTreeMap.getElem?_map]
    refine Option.map_congr fun bytes _ => ?_
    rw [factorOf, if_neg hne, mulDivFloor_floor bytes hne hfloor, min_min_neutral]

/-- An expectation beyond 128 bits leaves nothing of the bytes, cut off or not. -/
theorem rowRatio_eq {raw rate bytes : Nat} (hrate : rate < 2 ^ 64)
    (hbytes : bytes * 1000000 < 2 ^ 128 - 1) :
    min (mulDivFloor bytes 1000000 (max (mulDivFloor raw rate rateScale) 1)) 1000000 =
      rowRatio raw rate bytes := by
  rw [mulDivFloor_bytes (hbytes.trans (by decide)) (Nat.le_max_right _ _), min_min_neutral,
    mulDivFloor_rate raw hrate, rowRatio]
  generalize raw * rate / rateScale = expected
  rcases Nat.lt_or_ge expected (2 ^ 128) with hfits | hlarge
  · rw [Nat.min_eq_left (Nat.le_sub_one_of_lt hfits)]
  · have hcut : min expected (2 ^ 128 - 1) = 2 ^ 128 - 1 :=
      Nat.min_eq_right ((Nat.sub_le _ _).trans hlarge)
    have hone : (1 : Nat) ≤ 2 ^ 128 - 1 := by decide
    have hmore : bytes * 1000000 < expected :=
      hbytes.trans_le ((Nat.sub_le _ _).trans hlarge)
    rw [hcut, Nat.max_eq_left hone, Nat.div_eq_of_lt hbytes,
      Nat.max_eq_left (hone.trans ((Nat.sub_le _ _).trans hlarge)), Nat.div_eq_of_lt hmore]

theorem rowCredibility_eq {verified : BTreeMap (String × String) Nat}
    {rates epochFactor : BTreeMap String Nat} {row : RawRow}
    (hrate : rates.getD (toAsciiLowercase row.work) 0 < 2 ^ 64)
    (hbytes : verified.getD (normalizeAddr row.user, toAsciiLowercase row.work) 0 * 1000000 <
      2 ^ 128 - 1)
    (hfactor : epochFactor.getD (normalizeAddr row.user) 0 ≤ 1000000) :
    rowCredibility verified rates epochFactor row =
      credibilityOf row.raw (rates.getD (toAsciiLowercase row.work) 0)
        (verified.getD (normalizeAddr row.user, toAsciiLowercase row.work) 0)
        (epochFactor.getD (normalizeAddr row.user) 0) := by
  unfold rowCredibility credibilityOf
  dsimp only
  split
  · rfl
  split
  · rfl
  · rw [rowRatio_eq hrate hbytes, mulDivFloor_fold _ hfactor]
    have hsmall : rowRatio row.raw (rates.getD (toAsciiLowercase row.work) 0)
        (verified.getD (normalizeAddr row.user, toAsciiLowercase row.work) 0) *
          epochFactor.getD (normalizeAddr row.user) 0 / 1000000 ≤ 1000000 := by
      refine Nat.div_le_of_le_mul ?_
      exact Nat.mul_le_mul (Nat.min_le_right _ _) hfactor
    rw [Nat.min_eq_left (hsmall.trans (by decide)), Nat.mod_eq_of_lt (hsmall.trans_lt (by decide))]

/-- From the receipts to the credibilities, the code computes the documented formula. -/
theorem credibilityFrom_eq (hex : HexCodec) (recoverSigner : RecoverSigner)
    (bundle : ReceiptBundle) (epoch : Nat) (credentialed : String → Bool) (rows : List RawRow)
    (rates : BTreeMap String Nat) (minEpochBytes : Nat) (hlen : bundle.receipts.length < 2 ^ 64)
    (hrates : ∀ work, rates.getD work 0 < 2 ^ 64) (hfloor : minEpochBytes < 2 ^ 64) :
    let verified := acceptReceipts hex recoverSigner bundle epoch credentialed
    credibilityFrom hex recoverSigner bundle epoch credentialed rows rates minEpochBytes =
      rows.map fun row => credibilityOf row.raw (rates.getD (toAsciiLowercase row.work) 0)
        (verified.getD (normalizeAddr row.user, toAsciiLowercase row.work) 0)
        (((userBytes verified)[normalizeAddr row.user]?.map (factorOf minEpochBytes)).getD 0) := by
  intro verified
  unfold credibilityFrom rowCredibilityPpm
  dsimp only
  refine List.map_congr_left fun row _ => ?_
  have hfactor : (epochFactorPpm verified minEpochBytes).getD (normalizeAddr row.user) 0 =
      ((userBytes verified)[normalizeAddr row.user]?.map (factorOf minEpochBytes)).getD 0 := by
    rw [Std.ExtTreeMap.getD_eq_getD_getElem?, epochFactorPpm_eq verified hfloor]
  have hneutral : (epochFactorPpm verified minEpochBytes).getD (normalizeAddr row.user) 0 ≤
      1000000 := by
    rw [hfactor]
    cases (userBytes verified)[normalizeAddr row.user]? with
    | none => exact Nat.zero_le _
    | some bytes => exact factorOf_le minEpochBytes bytes
  rw [← hfactor]
  exact rowCredibility_eq (hrates _)
    (acceptReceipts_mul_lt hex recoverSigner hlen epoch credentialed _) hneutral

end Settle
end CleanWeb
