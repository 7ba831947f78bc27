import CleanWeb.Dapr.Contribution
import CleanWeb.Wallet.Hex
import CleanWeb.Settle.ReceiptTally

/-!
# Evidence bounds payment

However the rows are weighted, the part of a fee that reaches works is at most the share of the
epoch's evidence floor that the user's accepted bytes make up.
-/

namespace CleanWeb
namespace Settle

open Lib Lib.Exec Lib.BTreeMap Dapr

attribute [local instance] lexOrd

/-! ## Rounding -/

/-- The quotient by `d`, taken apart as the code takes it. -/
theorem mul_div_eq_add {a b d : Nat} (hd : 0 < d) : a * b / d = a / d * b + a % d * b / d := by
  have hsplit : a * b = d * (a / d * b) + a % d * b := by
    calc
      a * b = (d * (a / d) + a % d) * b := by rw [Nat.div_add_mod]
      _ = d * (a / d * b) + a % d * b := by rw [Nat.add_mul, Nat.mul_assoc]
  rw [hsplit, Nat.mul_add_div hd]

/-- Neither the floors nor the saturation ever round up. -/
theorem mulDivFloor_le (a b d : Nat) : mulDivFloor a b d ≤ a * b / d := by
  unfold mulDivFloor saturatingAdd saturatingMul
  rcases Nat.eq_zero_or_pos d with rfl | hd
  · simp
  · rw [mul_div_eq_add hd]
    refine (Nat.min_le_left _ _).trans (Nat.add_le_add (Nat.min_le_left _ _) ?_)
    exact Nat.div_le_div_right (Nat.min_le_left _ _)

theorem mulDivFloor_mul_le (a b d : Nat) : mulDivFloor a b d * d ≤ a * b := by
  calc
    mulDivFloor a b d * d ≤ a * b / d * d := Nat.mul_le_mul_right d (mulDivFloor_le a b d)
    _ ≤ a * b := Nat.div_mul_le_self _ _

/-! ## The evidence factor -/

/-- The bytes accepted for `user` over all works. -/
def bytesAccepted (verified : BTreeMap (String × String) Nat) (user : UserId) : Nat :=
  amountAt (normalizeAddr user) (verified.toList.map fun e => (normalizeAddr e.1.1, e.2))

theorem userBytes_tallies (verified : BTreeMap (String × String) Nat) :
    TalliesUpTo (2 ^ 128 - 1) (userBytes verified)
      (verified.toList.map fun e => (normalizeAddr e.1.1, e.2)) := by
  -- The fold is generalised over the map it starts from and what that map tallies.
  suffices hrun : ∀ (es : List ((String × String) × Nat)) (m : BTreeMap String Nat)
      (l : List (String × Nat)), TalliesUpTo (2 ^ 128 - 1) m l →
      TalliesUpTo (2 ^ 128 - 1) (es.foldl (fun m e => m.insert (normalizeAddr e.1.1)
        (saturatingAdd (m.getD (normalizeAddr e.1.1) 0) e.2)) m)
        (l ++ es.map fun e => (normalizeAddr e.1.1, e.2)) by
    simpa [userBytes] using hrun verified.toList ∅ [] TalliesUpTo.empty
  intro es
  induction es with
  | nil =>
      intro m l h
      simpa using h
  | cons e es ih =>
      intro m l h
      have hmore := ih _ _ (h.insert_add (normalizeAddr e.1.1) e.2)
      simpa [saturatingAdd] using hmore

/-- The factor is the share of the floor that the user's bytes make up, rounded down. -/
theorem epochFactor_mul_le (verified : BTreeMap (String × String) Nat) (minEpochBytes : Nat)
    (user : UserId) :
    (epochFactorPpm verified minEpochBytes).getD (normalizeAddr user) 0 * minEpochBytes ≤
      bytesAccepted verified user * 1000000 := by
  unfold epochFactorPpm
  dsimp only
  split
  · -- No floor: the factor is full, and the bound says nothing.
    rename_i hzero
    rw [hzero, Nat.mul_zero]
    exact Nat.zero_le _
  · have hbytes := (userBytes_tallies verified).le (normalizeAddr user)
    rw [Std.ExtTreeMap.getD_eq_getD_getElem?] at hbytes ⊢
    rw [Std.ExtTreeMap.getElem?_map]
    cases hget : (userBytes verified)[normalizeAddr user]? with
    | none => simp
    | some bytes =>
        rw [hget, Option.getD_some] at hbytes
        rw [Option.map_some, Option.getD_some]
        calc
          min (mulDivFloor bytes 1000000 minEpochBytes) 1000000 * minEpochBytes
              ≤ mulDivFloor bytes 1000000 minEpochBytes * minEpochBytes :=
                Nat.mul_le_mul_right _ (Nat.min_le_left _ _)
          _ ≤ bytes * 1000000 := mulDivFloor_mul_le _ _ _
          _ ≤ bytesAccepted verified user * 1000000 := Nat.mul_le_mul_right _ hbytes

/-- A user to whom no entry belongs has no factor. -/
theorem epochFactor_eq_zero {verified : BTreeMap (String × String) Nat} {user : UserId}
    (h : ∀ e ∈ verified.toList, normalizeAddr e.1.1 ≠ normalizeAddr user) (minEpochBytes : Nat) :
    (epochFactorPpm verified minEpochBytes).getD (normalizeAddr user) 0 = 0 := by
  have hnone : (userBytes verified)[normalizeAddr user]? = none := by
    -- The keys of the totals are the normalised consumers of the entries.
    refine Std.ExtTreeMap.getElem?_eq_none ?_
    rw [(userBytes_tallies verified).keys, List.map_map]
    intro hmem
    rcases List.mem_map.1 hmem with ⟨e, he, heq⟩
    exact h e he heq
  unfold epochFactorPpm
  dsimp only
  split
  · rw [Std.ExtTreeMap.getD_eq_getD_getElem?, Std.ExtTreeMap.getElem?_map, hnone]
    rfl
  · rw [Std.ExtTreeMap.getD_eq_getD_getElem?, Std.ExtTreeMap.getElem?_map, hnone]
    rfl

/-! ## Credibility of the rows -/

variable {verified : BTreeMap (String × String) Nat} {rates : BTreeMap String Nat}
variable {epochFactor : BTreeMap String Nat} {rows : List RawRow}

theorem rowCredibility_le (row : RawRow) :
    rowCredibility verified rates epochFactor row ≤
      epochFactor.getD (normalizeAddr row.user) 0 := by
  unfold rowCredibility
  dsimp only
  generalize epochFactor.getD (normalizeAddr row.user) 0 = factor
  split
  · exact Nat.zero_le _
  split
  · exact Nat.le_refl _
  · -- The rate only lowers the factor, since its own share is clamped to a million.
    generalize mulDivFloor _ 1000000 (max _ 1) = ppm
    calc
      mulDivFloor (min ppm 1000000) factor 1000000 % 2 ^ 64
          ≤ mulDivFloor (min ppm 1000000) factor 1000000 := Nat.mod_le _ _
      _ ≤ min ppm 1000000 * factor / 1000000 := mulDivFloor_le _ _ _
      _ ≤ factor := by
          refine Nat.div_le_of_le_mul ?_
          exact Nat.mul_le_mul_right factor (Nat.min_le_right _ _)

theorem rowCredibility_of_no_rate {row : RawRow}
    (h : rates.getD (toAsciiLowercase row.work) 0 = 0) :
    rowCredibility verified rates epochFactor row = 0 := by
  unfold rowCredibility
  rw [if_pos h]

/-- A user's rows come with their own credibility, clamped. -/
theorem mem_rowsOf_credibility {user : UserId} {e : RawRow × Nat}
    (h : e ∈ rowsOf rows (rowCredibilityPpm rows verified rates epochFactor) user) :
    e.1.user = user ∧ e.2 ≤ rowCredibility verified rates epochFactor e.1 := by
  have hzip : rows.zip (rowCredibilityPpm rows verified rates epochFactor) =
      rows.map fun r => (r, rowCredibility verified rates epochFactor r) := by
    rw [rowCredibilityPpm, List.map_prod_left_eq_zip]
  rw [rowsOf, hzip] at h
  rcases List.mem_map.1 h with ⟨e', he', rfl⟩
  rcases List.mem_filter.1 he' with ⟨hmem, huser⟩
  rcases List.mem_map.1 hmem with ⟨r, -, rfl⟩
  exact ⟨by simpa using huser, Nat.min_le_left _ _⟩

/-! ## What one user pays -/

/-- Rows credited at most `factor` carry at most that share of the raw weight. -/
theorem credSum_mul_le {rs : List (RawRow × Nat)} {factor : Nat} (h : ∀ e ∈ rs, e.2 ≤ factor) :
    credSum rs * 1000000 ≤ rawSum rs * factor := by
  induction rs with
  | nil => simp [credSum, rawSum]
  | cons e rs ih =>
      have hrest := ih fun e' he' => h e' (List.mem_cons_of_mem _ he')
      have hone : credOf e * 1000000 ≤ e.1.raw * factor := by
        calc
          credOf e * 1000000 ≤ e.1.raw * e.2 := Nat.div_mul_le_self _ _
          _ ≤ e.1.raw * factor := Nat.mul_le_mul_left _ (h e List.mem_cons_self)
      have hcred : credSum (e :: rs) = credOf e + credSum rs := by
        simp [credSum]
      have hraw : rawSum (e :: rs) = e.1.raw + rawSum rs := by
        simp [rawSum]
      rw [hcred, hraw, Nat.add_mul, Nat.add_mul]
      exact Nat.add_le_add hone hrest

/-- A factor backed by `bytes` of a floor lets through at most that part of the fee. -/
theorem paidOf_mul_le {rs : List (RawRow × Nat)} {factor floor bytes : Nat}
    (hrs : ∀ e ∈ rs, e.2 ≤ factor) (hfactor : factor * floor ≤ bytes * 1000000) (fee : Nat) :
    paidOf fee rs * floor ≤ fee * bytes := by
  rcases Nat.eq_zero_or_pos (rawSum rs) with hraw | hraw
  · rw [paidOf_eq_zero (Or.inl hraw), Nat.zero_mul]
    exact Nat.zero_le _
  · have hpaid : paidOf fee rs * rawSum rs ≤ fee * credSum rs := Nat.div_mul_le_self _ _
    have hcred := credSum_mul_le hrs
    have hscale : 0 < rawSum rs * 1000000 := Nat.mul_pos hraw (by decide)
    -- Both divisions are undone by multiplying with the raw weight and the scale.
    refine Nat.le_of_mul_le_mul_right ?_ hscale
    calc
      paidOf fee rs * floor * (rawSum rs * 1000000)
          = paidOf fee rs * rawSum rs * 1000000 * floor := by ring
      _ ≤ fee * credSum rs * 1000000 * floor :=
          Nat.mul_le_mul_right _ (Nat.mul_le_mul_right _ hpaid)
      _ = fee * (credSum rs * 1000000) * floor := by ring
      _ ≤ fee * (rawSum rs * factor) * floor :=
          Nat.mul_le_mul_right _ (Nat.mul_le_mul_left _ hcred)
      _ = fee * rawSum rs * (factor * floor) := by ring
      _ ≤ fee * rawSum rs * (bytes * 1000000) := Nat.mul_le_mul_left _ hfactor
      _ = fee * bytes * (rawSum rs * 1000000) := by ring

/-! ## The whole pipeline -/

/-- The credibilities that the settlement computes from a bundle. -/
def credibilityFrom (hex : HexCodec) (recoverSigner : RecoverSigner) (bundle : ReceiptBundle)
    (epoch : Nat) (credentialed : String → Bool) (rows : List RawRow)
    (rates : BTreeMap String Nat) (minEpochBytes : Nat) : List Nat :=
  let verified := acceptReceipts hex recoverSigner bundle epoch credentialed
  rowCredibilityPpm rows verified rates (epochFactorPpm verified minEpochBytes)

/-- Every entry comes from a receipt that was counted. -/
theorem exists_checked_of_accepted {hex : HexCodec} {recoverSigner : RecoverSigner}
    {bundle : ReceiptBundle} {epoch : Nat} {credentialed : String → Bool}
    {e : (String × String) × Nat}
    (he : e ∈ (acceptReceipts hex recoverSigner bundle epoch credentialed).toList) :
    ∃ s ∈ bundle.receipts, Checked hex recoverSigner epoch credentialed s ∧
      normalizeAddr s.receipt.consumer = e.1.1 := by
  rcases acceptReceipts_spec hex recoverSigner bundle epoch credentialed with
    ⟨counted, hcounted, htally⟩
  have hkey : e.1 ∈ acceptReceipts hex recoverSigner bundle epoch credentialed :=
    Std.ExtTreeMap.mem_iff_isSome_getElem?.2 (by simp [mem_toList.1 he])
  rw [htally.keys, credits, List.map_map] at hkey
  rcases List.mem_map.1 hkey with ⟨s, hs, hpair⟩
  rcases hcounted.checked s hs with ⟨hmem, hchecked⟩
  exact ⟨s, hmem, hchecked, congrArg Prod.fst hpair⟩

/-- In every returned allocation, each user's payments are bounded by the bytes accepted for that
user; without an accepted receipt nothing is paid, and a work without a rate receives nothing.
Ids are compared as normalised, so canonical ids stand for themselves. -/
theorem evidence_bounds_payment (hex : HexCodec) (recoverSigner : RecoverSigner)
    (bundle : ReceiptBundle) (epoch : Nat) (credentialed : String → Bool) (rows : List RawRow)
    (rates : BTreeMap String Nat) (tierFees : BTreeMap UserId Nat) (minEpochBytes : Nat)
    (p : Payouts)
    (h : allocateFromRawWithRowCredibility tierFees rows (credibilityFrom hex recoverSigner bundle
      epoch credentialed rows rates minEpochBytes) = .ok p) :
    let verified := acceptReceipts hex recoverSigner bundle epoch credentialed
    let creds := credibilityFrom hex recoverSigner bundle epoch credentialed rows rates
      minEpochBytes
    let payments := fun u : UserId × Nat => paymentsOf u.2 (rowsOf rows creds u.1)
    Tallies p.perWork (tierFees.toList.flatMap payments) ∧
      ∀ u ∈ tierFees.toList,
        ((payments u).map Prod.snd).sum * minEpochBytes ≤ u.2 * bytesAccepted verified u.1 ∧
        ((∀ s ∈ bundle.receipts, Checked hex recoverSigner epoch credentialed s →
            normalizeAddr s.receipt.consumer ≠ normalizeAddr u.1) →
          ∀ pay ∈ payments u, pay.2 = 0) ∧
        ∀ pay ∈ payments u, rates.getD (toAsciiLowercase pay.1) 0 = 0 → pay.2 = 0 := by
  intro verified creds payments
  rcases allocate_ok h with ⟨st, hst, rfl⟩
  refine ⟨hst.perWork, ?_⟩
  intro u hu
  rcases paymentsOf_spec (hst.shares u hu) with ⟨hsum, hrow⟩
  -- The factor bounds the credibility of every row of the user, whatever its rate.
  have hle : ∀ e ∈ rowsOf rows creds u.1,
      e.2 ≤ (epochFactorPpm verified minEpochBytes).getD (normalizeAddr u.1) 0 := by
    intro e he
    rcases mem_rowsOf_credibility he with ⟨huser, hcred⟩
    rw [← huser]
    exact hcred.trans (rowCredibility_le e.1)
  refine ⟨?_, ?_, ?_⟩
  · calc
      ((payments u).map Prod.snd).sum * minEpochBytes
          ≤ paidOf u.2 (rowsOf rows creds u.1) * minEpochBytes := Nat.mul_le_mul_right _ hsum
      _ ≤ u.2 * bytesAccepted verified u.1 :=
          paidOf_mul_le hle (epochFactor_mul_le verified minEpochBytes u.1) u.2
  · intro hnone pay hpay
    rcases hrow pay hpay with ⟨e, he, -, hzero⟩
    have hfactor := hle e he
    rw [epochFactor_eq_zero] at hfactor
    · refine hzero ?_
      rw [credOf, Nat.le_zero.1 hfactor, Nat.mul_zero, Nat.zero_div]
    · rintro ⟨⟨consumer, work⟩, bytes⟩ hentry heq
      rcases exists_checked_of_accepted hentry with ⟨s, hmem, hchecked, hconsumer⟩
      refine hnone s hmem hchecked ?_
      rw [← heq, ← hconsumer, normalizeAddr_idem]
  · -- A missing rate is a rate of zero, and fails closed.
    intro pay hpay hrate
    rcases hrow pay hpay with ⟨e, he, hwork, hzero⟩
    have hcred := (mem_rowsOf_credibility he).2
    rw [rowCredibility_of_no_rate (hwork ▸ hrate)] at hcred
    refine hzero ?_
    rw [credOf, Nat.le_zero.1 hcred, Nat.mul_zero, Nat.zero_div]

/-! ## Half of the evidence floor -/

/-- User 1 was served five bytes by node 2. -/
def sampleReceipts : ReceiptBundle :=
  { epoch := 3
    receipts := [⟨⟨"0xaa", Address.display Hex.codec 1, Address.display Hex.codec 2, 0, 5, 3⟩,
      "node", "consumer"⟩] }

/-- Recovery of the two signatures of `sampleReceipts`. -/
def sampleRecover : RecoverSigner := fun _ sig =>
  if sig = "node" then some 2 else some 1

/-- The row claims what was served; the floor is ten bytes. -/
theorem evidence_bounds_payment_sample :
    let verified := acceptReceipts Hex.codec sampleRecover sampleReceipts 3 fun _ => true
    let rows := [⟨Address.display Hex.codec 1, "0xaa", 5⟩]
    let creds := credibilityFrom Hex.codec sampleRecover sampleReceipts 3 (fun _ => true) rows
      {("0xaa", rateScale)} 10
    ∃ p, allocateFromRawWithRowCredibility {(Address.display Hex.codec 1, 10)} rows creds = .ok p ∧
      ∀ u ∈ ({(Address.display Hex.codec 1, 10)} : BTreeMap UserId Nat).toList,
        ((paymentsOf u.2 (rowsOf rows creds u.1)).map Prod.snd).sum * 10 ≤
          u.2 * bytesAccepted verified u.1 := by
  intro verified rows creds
  have hok : trap (allocateFromRawWithRowCredibility {(Address.display Hex.codec 1, 10)} rows
      creds) = none := by
    decide +kernel
  rcases exists_ok_of_trap hok with ⟨p, hp⟩
  refine ⟨p, hp, ?_⟩
  intro u hu
  exact ((evidence_bounds_payment Hex.codec sampleRecover sampleReceipts 3 (fun _ => true) rows
    {("0xaa", rateScale)} {(Address.display Hex.codec 1, 10)} 10 p hp).2 u hu).1

end Settle
end CleanWeb
