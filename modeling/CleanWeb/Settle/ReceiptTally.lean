import CleanWeb.Lib.Tally
import CleanWeb.Settle.Receipts

/-!
# What the receipts of a bundle add up to

`acceptReceipts` counts one receipt for each content position among those that pass the checks, and
adds up the bytes of the receipts counted.
-/

namespace CleanWeb
namespace Settle

open Lib Lib.BTreeMap Dapr

attribute [local instance] lexOrd

variable {hex : HexCodec} {recoverSigner : RecoverSigner} {epoch : Nat}
variable {credentialed : String → Bool}

/-! ## Lowercase ids -/

theorem toLower_toLower (c : Char) : c.toLower.toLower = c.toLower := by
  by_cases hupper : c.val ≥ 'A'.val ∧ c.val ≤ 'Z'.val
  · have hlower : ¬ (c.toLower.val ≥ 'A'.val ∧ c.toLower.val ≤ 'Z'.val) := by
      have hval : c.toLower.val = c.val + 32 := congrArg Char.val (dif_pos hupper)
      rw [hval]
      simp only [ge_iff_le, UInt32.le_iff_toNat_le, UInt32.toNat_add, Char.reduceVal,
        UInt32.reduceToNat] at hupper ⊢
      omega
    exact dif_neg hlower
  · have hsame : c.toLower = c := dif_neg hupper
    rw [hsame, hsame]

@[simp] theorem toAsciiLowercase_idem (s : String) :
    toAsciiLowercase (toAsciiLowercase s) = toAsciiLowercase s := by
  rw [toAsciiLowercase, toAsciiLowercase, String.toList_ofList, List.map_map]
  refine congrArg String.ofList (List.map_congr_left ?_)
  intro c _
  exact toLower_toLower c

@[simp] theorem normalizeAddr_idem (s : String) :
    normalizeAddr (normalizeAddr s) = normalizeAddr s :=
  toAsciiLowercase_idem s

/-! ## The receipts counted -/

/-- The receipt passes the checks: it is co-signed, of the epoch, and from a credentialed node. -/
def Checked (hex : HexCodec) (recoverSigner : RecoverSigner) (epoch : Nat)
    (credentialed : String → Bool) (s : SignedReceipt) : Prop :=
  s.verify hex recoverSigner = true ∧ s.receipt.epoch = epoch ∧
    credentialed (normalizeAddr s.receipt.node) = true

/-- `(consumer, work)`. -/
def Receipt.pair (r : Receipt) : String × String :=
  (normalizeAddr r.consumer, toAsciiLowercase r.workId)

/-- The bytes a receipt is worth. -/
def Receipt.credit (r : Receipt) : Nat :=
  min r.bytes chunkSize

/-! ## One receipt -/

theorem acceptStep_of_not_checked {s : SignedReceipt}
    (h : ¬ Checked hex recoverSigner epoch credentialed s) (st : AcceptPass) :
    acceptStep hex recoverSigner epoch credentialed st s = st := by
  unfold acceptStep
  dsimp only
  split
  · rfl
  split
  · rfl
  split
  · rfl
  rename_i hverify hepoch hcred
  exact absurd ⟨by simpa using hverify, by simpa using hepoch, by simpa using hcred⟩ h

theorem acceptStep_of_seen {s : SignedReceipt} {st : AcceptPass}
    (h : s.receipt.dedupKey ∈ st.seen) :
    acceptStep hex recoverSigner epoch credentialed st s = st := by
  have hseen : st.seen.contains s.receipt.dedupKey = true :=
    Std.ExtTreeSet.contains_iff_mem.2 h
  simp [acceptStep, hseen]

theorem acceptStep_of_new {s : SignedReceipt} {st : AcceptPass}
    (hchecked : Checked hex recoverSigner epoch credentialed s)
    (hnew : s.receipt.dedupKey ∉ st.seen) :
    acceptStep hex recoverSigner epoch credentialed st s =
      ⟨st.totals.insert s.receipt.pair
        (saturatingAdd (st.totals.getD s.receipt.pair 0) s.receipt.credit),
        st.seen.insert s.receipt.dedupKey⟩ := by
  rcases hchecked with ⟨hverify, hepoch, hcred⟩
  have hunseen : st.seen.contains s.receipt.dedupKey = false := by
    rwa [← Bool.not_eq_true, Std.ExtTreeSet.contains_iff_mem]
  simp [acceptStep, hverify, hepoch, hcred, hunseen, Receipt.pair, Receipt.credit]

/-! ## The receipts of a bundle -/

/-- `counted` are receipts of the bundle that pass the checks, one for each content position that
has any. -/
structure Counted (hex : HexCodec) (recoverSigner : RecoverSigner) (epoch : Nat)
    (credentialed : String → Bool) (receipts counted : List SignedReceipt) : Prop where
  checked : ∀ s ∈ counted, s ∈ receipts ∧ Checked hex recoverSigner epoch credentialed s
  once : (counted.map (·.receipt.dedupKey)).Nodup
  complete : ∀ s ∈ receipts, Checked hex recoverSigner epoch credentialed s →
    s.receipt.dedupKey ∈ counted.map (·.receipt.dedupKey)

/-- The amounts of the receipts counted. -/
def credits (counted : List SignedReceipt) : List ((String × String) × Nat) :=
  counted.map fun s => (s.receipt.pair, s.receipt.credit)

/-- What the accumulators hold after the receipts `done`, of which `counted` were counted. -/
structure AcceptInv (hex : HexCodec) (recoverSigner : RecoverSigner) (epoch : Nat)
    (credentialed : String → Bool) (done counted : List SignedReceipt) (st : AcceptPass) :
    Prop where
  isCounted : Counted hex recoverSigner epoch credentialed done counted
  seen : ∀ k, k ∈ st.seen ↔ k ∈ counted.map (·.receipt.dedupKey)
  totals : TalliesUpTo (2 ^ 128 - 1) st.totals (credits counted)

/-- A receipt that fails a check, or repeats a position, counts for nothing. -/
theorem AcceptInv.skip {done counted : List SignedReceipt} {st : AcceptPass} {s : SignedReceipt}
    (h : AcceptInv hex recoverSigner epoch credentialed done counted st)
    (hskip : Checked hex recoverSigner epoch credentialed s → s.receipt.dedupKey ∈ st.seen) :
    AcceptInv hex recoverSigner epoch credentialed (done ++ [s]) counted st := by
  refine ⟨⟨?_, h.isCounted.once, ?_⟩, h.seen, h.totals⟩
  · intro t ht
    rcases h.isCounted.checked t ht with ⟨hmem, hchecked⟩
    exact ⟨List.mem_append_left _ hmem, hchecked⟩
  · intro t ht hchecked
    rcases List.mem_append.1 ht with ht | ht
    · exact h.isCounted.complete t ht hchecked
    · rw [List.mem_singleton.1 ht] at hchecked ⊢
      exact (h.seen _).1 (hskip hchecked)

theorem AcceptInv.count {done counted : List SignedReceipt} {st : AcceptPass} {s : SignedReceipt}
    (h : AcceptInv hex recoverSigner epoch credentialed done counted st)
    (hchecked : Checked hex recoverSigner epoch credentialed s)
    (hnew : s.receipt.dedupKey ∉ st.seen) :
    AcceptInv hex recoverSigner epoch credentialed (done ++ [s]) (counted ++ [s])
      ⟨st.totals.insert s.receipt.pair
        (saturatingAdd (st.totals.getD s.receipt.pair 0) s.receipt.credit),
        st.seen.insert s.receipt.dedupKey⟩ := by
  refine ⟨⟨?_, ?_, ?_⟩, ?_, ?_⟩
  · intro t ht
    rcases List.mem_append.1 ht with ht | ht
    · rcases h.isCounted.checked t ht with ⟨hmem, hold⟩
      exact ⟨List.mem_append_left _ hmem, hold⟩
    · rw [List.mem_singleton.1 ht]
      exact ⟨by simp, hchecked⟩
  · -- A position counted again would be among the seen ones.
    rw [List.map_append, List.map_singleton, List.nodup_append]
    refine ⟨h.isCounted.once, List.nodup_singleton _, ?_⟩
    intro k hk k' hk' heq
    rw [List.mem_singleton.1 hk'] at heq
    exact hnew ((h.seen _).2 (heq ▸ hk))
  · intro t ht htchecked
    rw [List.map_append, List.mem_append]
    rcases List.mem_append.1 ht with ht | ht
    · exact Or.inl (h.isCounted.complete t ht htchecked)
    · rw [List.mem_singleton.1 ht]
      exact Or.inr (by simp)
  · -- `seen` and the positions counted grow by the same one.
    intro k
    rw [Std.ExtTreeSet.mem_insert, h.seen, List.map_append, List.mem_append, or_comm]
    simp [@eq_comm _ _ k]
  · have htally := h.totals.insert_add s.receipt.pair s.receipt.credit
    simpa [credits, saturatingAdd] using htally

theorem acceptStep_inv {done counted : List SignedReceipt} {st : AcceptPass}
    (h : AcceptInv hex recoverSigner epoch credentialed done counted st) (s : SignedReceipt) :
    ∃ counted', AcceptInv hex recoverSigner epoch credentialed (done ++ [s]) counted'
      (acceptStep hex recoverSigner epoch credentialed st s) := by
  by_cases hchecked : Checked hex recoverSigner epoch credentialed s
  · by_cases hseen : s.receipt.dedupKey ∈ st.seen
    · -- The position has been counted for an earlier receipt of the bundle.
      rw [acceptStep_of_seen hseen]
      exact ⟨counted, h.skip fun _ => hseen⟩
    · rw [acceptStep_of_new hchecked hseen]
      exact ⟨counted ++ [s], h.count hchecked hseen⟩
  · rw [acceptStep_of_not_checked hchecked]
    exact ⟨counted, h.skip fun hok => absurd hok hchecked⟩

/-- The totals are those of the receipts counted. -/
theorem acceptReceipts_spec (hex : HexCodec) (recoverSigner : RecoverSigner)
    (bundle : ReceiptBundle) (epoch : Nat) (credentialed : String → Bool) :
    ∃ counted, Counted hex recoverSigner epoch credentialed bundle.receipts counted ∧
      TalliesUpTo (2 ^ 128 - 1) (acceptReceipts hex recoverSigner bundle epoch credentialed)
        (credits counted) := by
  have hempty : AcceptInv hex recoverSigner epoch credentialed [] [] ⟨∅, ∅⟩ :=
    ⟨⟨by simp, by simp, by simp⟩, by simp, TalliesUpTo.empty⟩
  -- By induction on the receipts still to come, from any state that satisfies the invariant.
  suffices hrun : ∀ (receipts done counted : List SignedReceipt) (st : AcceptPass),
      AcceptInv hex recoverSigner epoch credentialed done counted st →
      ∃ counted', AcceptInv hex recoverSigner epoch credentialed (done ++ receipts) counted'
        (receipts.foldl (acceptStep hex recoverSigner epoch credentialed) st) by
    rcases hrun bundle.receipts [] [] _ hempty with ⟨counted, hinv⟩
    exact ⟨counted, hinv.isCounted, hinv.totals⟩
  intro receipts
  induction receipts with
  | nil =>
      intro done counted st h
      exact ⟨counted, by simpa using h⟩
  | cons s receipts ih =>
      intro done counted st h
      rcases acceptStep_inv h s with ⟨counted', h'⟩
      rcases ih _ _ _ h' with ⟨counted'', h''⟩
      exact ⟨counted'', by simpa using h''⟩

end Settle
end CleanWeb
