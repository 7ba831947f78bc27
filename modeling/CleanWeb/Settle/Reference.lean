import CleanWeb.Lib.FirstSum
import CleanWeb.Settle.ReceiptTally
import CleanWeb.Wallet.Hex

/-!
# Accepted receipts as a sum over content positions

`acceptReceipts` runs one loop over the bundle.  Its result is a sum that mentions no loop: for each
content position, the bytes of the first receipt that passes the checks.
-/

namespace CleanWeb
namespace Settle

open Lib Lib.BTreeMap Dapr

attribute [local instance] lexOrd

variable {hex : HexCodec} {recoverSigner : RecoverSigner} {epoch : Nat}
variable {credentialed : String → Bool}

/-! ## The reference -/

instance (s : SignedReceipt) : Decidable (Checked hex recoverSigner epoch credentialed s) :=
  inferInstanceAs (Decidable (_ ∧ _ ∧ _))

/-- The receipts of one (consumer, work) that pass the checks, in bundle order. -/
def checkedFor (hex : HexCodec) (recoverSigner : RecoverSigner) (epoch : Nat)
    (credentialed : String → Bool) (receipts : List SignedReceipt) (k : String × String) :
    List SignedReceipt :=
  receipts.filter fun s => Checked hex recoverSigner epoch credentialed s ∧ s.receipt.pair = k

/-- The content positions among `receipts`. -/
def positions (receipts : List SignedReceipt) : Finset Nat :=
  (receipts.map (·.receipt.chunkIndex)).toFinset

/-- For each content position, the bytes of the first of the `receipts`. -/
def firstBytes (receipts : List SignedReceipt) : Nat :=
  firstSum (·.receipt.chunkIndex) (·.receipt.credit) receipts

theorem mem_checkedFor {receipts : List SignedReceipt} {k : String × String} {s : SignedReceipt} :
    s ∈ checkedFor hex recoverSigner epoch credentialed receipts k ↔
      s ∈ receipts ∧ Checked hex recoverSigner epoch credentialed s ∧ s.receipt.pair = k := by
  simp [checkedFor]

theorem checkedFor_append_of_not {s : SignedReceipt} {k : String × String}
    (hnot : Checked hex recoverSigner epoch credentialed s → s.receipt.pair ≠ k)
    (done : List SignedReceipt) :
    checkedFor hex recoverSigner epoch credentialed (done ++ [s]) k =
      checkedFor hex recoverSigner epoch credentialed done k := by
  have hdrop : ¬ (Checked hex recoverSigner epoch credentialed s ∧ s.receipt.pair = k) :=
    fun h => hnot h.1 h.2
  simp [checkedFor, List.filter_append, hdrop]

theorem checkedFor_append_of_checked {s : SignedReceipt}
    (hchecked : Checked hex recoverSigner epoch credentialed s) (done : List SignedReceipt) :
    checkedFor hex recoverSigner epoch credentialed (done ++ [s]) s.receipt.pair =
      checkedFor hex recoverSigner epoch credentialed done s.receipt.pair ++ [s] := by
  simp [checkedFor, List.filter_append, hchecked]

theorem credit_le_chunkSize (r : Receipt) : r.credit ≤ chunkSize :=
  Nat.min_le_right _ _

/-- No position counts for more than one chunk. -/
theorem firstBytes_le (receipts : List SignedReceipt) :
    firstBytes receipts ≤ chunkSize * (positions receipts).card :=
  firstSum_le fun s _ => credit_le_chunkSize s.receipt

/-- Positions are 64-bit numbers, so no sum reaches the end of the range. -/
theorem firstBytes_lt {receipts : List SignedReceipt}
    (hindex : ∀ s ∈ receipts, s.receipt.chunkIndex < 2 ^ 64) : firstBytes receipts < 2 ^ 128 := by
  have hsubset : positions receipts ⊆ Finset.range (2 ^ 64) := by
    intro i hi
    rcases List.mem_map.1 (List.mem_toFinset.1 hi) with ⟨s, hs, rfl⟩
    exact Finset.mem_range.2 (hindex s hs)
  have hcard : (positions receipts).card ≤ 2 ^ 64 := by
    simpa using Finset.card_le_card hsubset
  calc
    firstBytes receipts ≤ chunkSize * (positions receipts).card := firstBytes_le receipts
    _ ≤ chunkSize * 2 ^ 64 := Nat.mul_le_mul_left _ hcard
    _ < 2 ^ 128 := by decide

/-! ## The loop -/

theorem dedupKey_eq_iff {r r' : Receipt} :
    r.dedupKey = r'.dedupKey ↔ r.pair = r'.pair ∧ r.chunkIndex = r'.chunkIndex := by
  simp [Receipt.dedupKey, Receipt.pair, and_assoc]

/-- What the accumulators hold after the receipts `done`. -/
structure Refers (hex : HexCodec) (recoverSigner : RecoverSigner) (epoch : Nat)
    (credentialed : String → Bool) (done : List SignedReceipt) (st : AcceptPass) : Prop where
  seen : ∀ key, key ∈ st.seen ↔
    ∃ s ∈ done, Checked hex recoverSigner epoch credentialed s ∧ s.receipt.dedupKey = key
  keys : ∀ k, k ∈ st.totals ↔ checkedFor hex recoverSigner epoch credentialed done k ≠ []
  totals : ∀ k, st.totals.getD k 0 =
    min (firstBytes (checkedFor hex recoverSigner epoch credentialed done k)) (2 ^ 128 - 1)

namespace Refers

variable {done : List SignedReceipt} {st : AcceptPass} {s : SignedReceipt}

theorem empty : Refers hex recoverSigner epoch credentialed [] ⟨∅, ∅⟩ := by
  refine ⟨?_, ?_, ?_⟩
  · simp
  · simp [checkedFor]
  · simp [checkedFor, firstBytes]

/-- A receipt that fails a check occupies no position. -/
theorem fail (h : Refers hex recoverSigner epoch credentialed done st)
    (hnot : ¬ Checked hex recoverSigner epoch credentialed s) :
    Refers hex recoverSigner epoch credentialed (done ++ [s]) st := by
  refine ⟨?_, ?_, ?_⟩
  · intro key
    rw [h.seen]
    constructor
    · rintro ⟨t, ht, hchecked, hkey⟩
      exact ⟨t, List.mem_append_left _ ht, hchecked, hkey⟩
    · rintro ⟨t, ht, hchecked, hkey⟩
      rcases List.mem_append.1 ht with ht | ht
      · exact ⟨t, ht, hchecked, hkey⟩
      · exact absurd (List.mem_singleton.1 ht ▸ hchecked) hnot
  · intro k
    rw [checkedFor_append_of_not (fun hok => absurd hok hnot), h.keys]
  · intro k
    rw [checkedFor_append_of_not (fun hok => absurd hok hnot), h.totals]

/-- A receipt for a position that has been counted adds nothing. -/
theorem repeated (h : Refers hex recoverSigner epoch credentialed done st)
    (hchecked : Checked hex recoverSigner epoch credentialed s)
    (hseen : s.receipt.dedupKey ∈ st.seen) :
    Refers hex recoverSigner epoch credentialed (done ++ [s]) st := by
  rcases (h.seen _).1 hseen with ⟨t, ht, htchecked, htkey⟩
  rcases dedupKey_eq_iff.1 htkey with ⟨hpair, hindex⟩
  have htmem : t ∈ checkedFor hex recoverSigner epoch credentialed done s.receipt.pair :=
    mem_checkedFor.2 ⟨ht, htchecked, hpair⟩
  refine ⟨?_, ?_, ?_⟩
  · intro key
    rw [h.seen]
    constructor
    · rintro ⟨u, hu, huchecked, hukey⟩
      exact ⟨u, List.mem_append_left _ hu, huchecked, hukey⟩
    · rintro ⟨u, hu, huchecked, hukey⟩
      rcases List.mem_append.1 hu with hu | hu
      · exact ⟨u, hu, huchecked, hukey⟩
      · rw [List.mem_singleton.1 hu] at hukey
        exact ⟨t, ht, htchecked, htkey.trans hukey⟩
  · intro k
    rw [h.keys]
    by_cases hk : s.receipt.pair = k
    · subst hk
      rw [checkedFor_append_of_checked hchecked]
      simp [List.ne_nil_of_mem htmem]
    · rw [checkedFor_append_of_not fun _ => hk]
  · intro k
    rw [h.totals]
    by_cases hk : s.receipt.pair = k
    · subst hk
      -- `t` stands before `s` and has its position.
      have hsame : firstBytes
          (checkedFor hex recoverSigner epoch credentialed done s.receipt.pair ++ [s]) =
            firstBytes (checkedFor hex recoverSigner epoch credentialed done s.receipt.pair) := by
        refine firstSum_append_of_subset ?_
        intro u hu
        rw [List.mem_singleton.1 hu]
        exact List.mem_map.2 ⟨t, htmem, hindex⟩
      rw [checkedFor_append_of_checked hchecked, hsame]
    · rw [checkedFor_append_of_not fun _ => hk]

theorem count (h : Refers hex recoverSigner epoch credentialed done st)
    (hchecked : Checked hex recoverSigner epoch credentialed s)
    (hnew : s.receipt.dedupKey ∉ st.seen) :
    Refers hex recoverSigner epoch credentialed (done ++ [s])
      ⟨st.totals.insert s.receipt.pair
        (saturatingAdd (st.totals.getD s.receipt.pair 0) s.receipt.credit),
        st.seen.insert s.receipt.dedupKey⟩ := by
  refine ⟨?_, ?_, ?_⟩
  · intro key
    rw [Std.ExtTreeSet.mem_insert, Std.compare_eq_iff_eq, h.seen]
    constructor
    · rintro (hkey | ⟨t, ht, htchecked, htkey⟩)
      · exact ⟨s, by simp, hchecked, hkey⟩
      · exact ⟨t, List.mem_append_left _ ht, htchecked, htkey⟩
    · rintro ⟨t, ht, htchecked, htkey⟩
      rcases List.mem_append.1 ht with ht | ht
      · exact Or.inr ⟨t, ht, htchecked, htkey⟩
      · rw [List.mem_singleton.1 ht] at htkey
        exact Or.inl htkey
  · intro k
    rw [Std.ExtTreeMap.mem_insert, Std.compare_eq_iff_eq, h.keys]
    by_cases hk : s.receipt.pair = k
    · subst hk
      rw [checkedFor_append_of_checked hchecked]
      simp
    · rw [checkedFor_append_of_not fun _ => hk]
      simp [hk]
  · intro k
    rw [Std.ExtTreeMap.getD_insert]
    by_cases hk : s.receipt.pair = k
    · subst hk
      have hfresh : s.receipt.chunkIndex ∉
          (checkedFor hex recoverSigner epoch credentialed done s.receipt.pair).map
            (·.receipt.chunkIndex) := by
        intro hmem
        rcases List.mem_map.1 hmem with ⟨t, ht, hindex⟩
        rcases mem_checkedFor.1 ht with ⟨htdone, htchecked, hpair⟩
        exact hnew ((h.seen _).2 ⟨t, htdone, htchecked, dedupKey_eq_iff.2 ⟨hpair, hindex⟩⟩)
      have hsum : firstBytes
          (checkedFor hex recoverSigner epoch credentialed done s.receipt.pair ++ [s]) =
            firstBytes (checkedFor hex recoverSigner epoch credentialed done s.receipt.pair) +
              s.receipt.credit :=
        firstSum_append_singleton hfresh
      rw [checkedFor_append_of_checked hchecked, hsum, if_pos Std.compare_self, h.totals,
        saturatingAdd]
      omega
    · rw [checkedFor_append_of_not (fun _ => hk),
        if_neg (fun heq => hk (Std.compare_eq_iff_eq.1 heq)), h.totals]

theorem step (h : Refers hex recoverSigner epoch credentialed done st) (s : SignedReceipt) :
    Refers hex recoverSigner epoch credentialed (done ++ [s])
      (acceptStep hex recoverSigner epoch credentialed st s) := by
  by_cases hchecked : Checked hex recoverSigner epoch credentialed s
  · by_cases hseen : s.receipt.dedupKey ∈ st.seen
    · rw [acceptStep_of_seen hseen]
      exact h.repeated hchecked hseen
    · rw [acceptStep_of_new hchecked hseen]
      exact h.count hchecked hseen
  · rw [acceptStep_of_not_checked hchecked]
    exact h.fail hchecked

theorem run (receipts : List SignedReceipt)
    (h : Refers hex recoverSigner epoch credentialed done st) :
    Refers hex recoverSigner epoch credentialed (done ++ receipts)
      (receipts.foldl (acceptStep hex recoverSigner epoch credentialed) st) := by
  induction receipts generalizing done st with
  | nil =>
      simpa using h
  | cons s receipts ih =>
      simpa using ih (h.step s)

end Refers

theorem refers_bundle (hex : HexCodec) (recoverSigner : RecoverSigner)
    (receipts : List SignedReceipt)
    (epoch : Nat) (credentialed : String → Bool) :
    Refers hex recoverSigner epoch credentialed receipts
      (receipts.foldl (acceptStep hex recoverSigner epoch credentialed) ⟨∅, ∅⟩) :=
  Refers.empty.run receipts

theorem foldl_acceptStep_filter (receipts : List SignedReceipt) (st : AcceptPass) :
    (receipts.filter fun s => Checked hex recoverSigner epoch credentialed s).foldl
        (acceptStep hex recoverSigner epoch credentialed) st =
      receipts.foldl (acceptStep hex recoverSigner epoch credentialed) st := by
  induction receipts generalizing st with
  | nil =>
      rfl
  | cons s receipts ih =>
      by_cases hchecked : Checked hex recoverSigner epoch credentialed s
      · simp [hchecked, ih]
      · simp [hchecked, acceptStep_of_not_checked, ih]

theorem foldl_acceptStep_of_seen {extra : List SignedReceipt} {st : AcceptPass}
    (h : ∀ s ∈ extra, s.receipt.dedupKey ∈ st.seen) :
    extra.foldl (acceptStep hex recoverSigner epoch credentialed) st = st := by
  induction extra with
  | nil =>
      rfl
  | cons s extra ih =>
      rw [List.foldl_cons, acceptStep_of_seen (h s (List.mem_cons_self ..))]
      exact ih fun t ht => h t (List.mem_cons_of_mem _ ht)

/-! ## The totals -/

/-- The total of a (consumer, work) is, over the content positions with a receipt that passes the
checks, the clamped bytes of the first of them; only pairs with such a receipt have a total.  A
receipt that fails a check changes nothing wherever it stands, and neither does one after the bundle
for a position that has been counted. -/
theorem acceptReceipts_eq_reference (hex : HexCodec) (recoverSigner : RecoverSigner)
    (bundle : ReceiptBundle) (epoch : Nat) (credentialed : String → Bool)
    (hindex : ∀ s ∈ bundle.receipts, s.receipt.chunkIndex < 2 ^ 64) :
    let accept := fun receipts =>
      acceptReceipts hex recoverSigner { bundle with receipts := receipts } epoch credentialed
    let chosen := checkedFor hex recoverSigner epoch credentialed bundle.receipts
    (∀ consumer work,
        let k := (normalizeAddr consumer, toAsciiLowercase work)
        (accept bundle.receipts).getD k 0 = firstBytes (chosen k) ∧
          (accept bundle.receipts).getD k 0 ≤ chunkSize * (positions (chosen k)).card) ∧
      (∀ k, k ∈ accept bundle.receipts ↔ chosen k ≠ []) ∧
      accept (bundle.receipts.filter fun s => Checked hex recoverSigner epoch credentialed s) =
        accept bundle.receipts ∧
      ∀ extra, (∀ s ∈ extra, ∃ t ∈ bundle.receipts,
          Checked hex recoverSigner epoch credentialed t ∧
            t.receipt.dedupKey = s.receipt.dedupKey) →
        accept (bundle.receipts ++ extra) = accept bundle.receipts := by
  intro accept chosen
  have hrefers := refers_bundle hex recoverSigner bundle.receipts epoch credentialed
  refine ⟨?_, hrefers.keys, ?_, ?_⟩
  · intro consumer work k
    -- The sum does not reach the saturation of the accumulator.
    have hlt : firstBytes (chosen k) < 2 ^ 128 :=
      firstBytes_lt fun s hs => hindex s (mem_checkedFor.1 hs).1
    have htotal : (accept bundle.receipts).getD k 0 = firstBytes (chosen k) := by
      calc
        (accept bundle.receipts).getD k 0 = min (firstBytes (chosen k)) (2 ^ 128 - 1) :=
          hrefers.totals k
        _ = firstBytes (chosen k) := Nat.min_eq_left (Nat.le_pred_of_lt hlt)
    exact ⟨htotal, htotal.trans_le (firstBytes_le _)⟩
  · exact congrArg AcceptPass.totals (foldl_acceptStep_filter bundle.receipts _)
  · intro extra hextra
    have hseen : ∀ s ∈ extra, s.receipt.dedupKey ∈
        (bundle.receipts.foldl (acceptStep hex recoverSigner epoch credentialed) ⟨∅, ∅⟩).seen := by
      intro s hs
      rcases hextra s hs with ⟨t, ht, hchecked, hkey⟩
      exact (hrefers.seen _).2 ⟨t, ht, hchecked, hkey⟩
    calc
      accept (bundle.receipts ++ extra)
          = (extra.foldl (acceptStep hex recoverSigner epoch credentialed)
              (bundle.receipts.foldl (acceptStep hex recoverSigner epoch credentialed)
                ⟨∅, ∅⟩)).totals := congrArg AcceptPass.totals (List.foldl_append ..)
      _ = accept bundle.receipts := by
          rw [foldl_acceptStep_of_seen hseen]
          rfl

/-! ## A bundle with receipts that do not count -/

/-- Recovery from the signatures of `sampleServed`; every other signature is forged. -/
def sampleServers : RecoverSigner := fun _ sig =>
  if sig = "consumer" then some 1
  else if sig = "node 2" then some 2
  else if sig = "node 4" then some 4
  else none

/-- User 1 was served two blocks of a work.  A forged receipt and one of another epoch come before
the genuine ones, and node 4 serves the first block again. -/
def sampleServed : ReceiptBundle :=
  let consumer := Address.display Hex.codec 1
  let receipt := fun work node chunkIndex bytes epoch =>
    (⟨work, consumer, Address.display Hex.codec node, chunkIndex, bytes, epoch⟩ : Receipt)
  { epoch := 3
    receipts := [
      ⟨receipt "0xaa" 2 0 9 3, "forged", "consumer"⟩,
      ⟨receipt "0xaa" 2 1 9 2, "node 2", "consumer"⟩,
      ⟨receipt "0xaa" 2 0 5 3, "node 2", "consumer"⟩,
      ⟨receipt "0xAA" 4 0 7 3, "node 4", "consumer"⟩,
      ⟨receipt "0xAa" 4 1 200000 3, "node 4", "consumer"⟩] }

/-- The first genuine receipt of each block counts, the large one as one chunk. -/
theorem acceptReceipts_eq_reference_sample :
    (acceptReceipts Hex.codec sampleServers sampleServed 3 fun _ => true).getD
      (normalizeAddr (Address.display Hex.codec 1), toAsciiLowercase "0xAA") 0 = 5 + chunkSize := by
  have hindex : ∀ s ∈ sampleServed.receipts, s.receipt.chunkIndex < 2 ^ 64 := by
    decide +kernel
  have hsum : firstBytes (checkedFor Hex.codec sampleServers 3 (fun _ => true)
      sampleServed.receipts (normalizeAddr (Address.display Hex.codec 1),
        toAsciiLowercase "0xAA")) = 5 + chunkSize := by
    decide +kernel
  have htotal := ((acceptReceipts_eq_reference Hex.codec sampleServers sampleServed 3
    (fun _ => true) hindex).1 (Address.display Hex.codec 1) "0xAA").1
  exact htotal.trans hsum

end Settle
end CleanWeb
