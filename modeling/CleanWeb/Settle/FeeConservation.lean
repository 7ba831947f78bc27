import CleanWeb.Dapr.Conservation
import CleanWeb.Settle.Routing
import CleanWeb.Wallet.Hex

/-!
# Fee conservation through the whole payout pipeline

From the tier fees to the settlement: what the payout library returns accounts for the fees, and
`finalize` loses nothing of it.  With canonical work ids every credited work is found again on
exactly one side, under its own amount.
-/

namespace CleanWeb
namespace Settle

open Lib Lib.Exec Lib.BTreeMap Dapr

variable {hex : HexCodec} {keccak256 : Keccak} {escrowWorks : BTreeSet WorkId}

/-! ## Canonical work ids -/

/-- The text is the canonical form of some id. -/
def Canonical (hex : HexCodec) (work : WorkId) : Prop :=
  ∃ b, Bytes32.display hex b = work

theorem idOf_display (hex : HexCodec) (b : Bytes32) : idOf hex (Bytes32.display hex b) = b := by
  simp [idOf, Bytes32.fromStr_display]

theorem idOf_eq_iff {work : WorkId} (h : Canonical hex work) (b : Bytes32) :
    idOf hex work = b ↔ work = Bytes32.display hex b := by
  rcases h with ⟨c, rfl⟩
  rw [idOf_display]
  exact (Bytes32.display_injective hex).eq_iff.symm

/-- Among credits under distinct canonical ids, the ones parsed as `b` are those of `b`'s text. -/
theorem filter_creditOf {credits : List (WorkId × Nat)}
    (hcanon : ∀ e ∈ credits, Canonical hex e.1) (b : Bytes32) :
    (credits.map (creditOf hex)).filter (fun x => x.1 = b) =
      (credits.filter fun e => e.1 = Bytes32.display hex b).map (creditOf hex) := by
  rw [List.filter_map]
  refine congrArg _ (List.filter_congr ?_)
  intro e he
  simp [creditOf, idOf_eq_iff (hcanon e he)]

/-- The amounts listed under the id `b`. -/
def amountsOf (b : Bytes32) (listed : List (Bytes32 × Nat)) : List Nat :=
  (listed.filter fun x => x.1 = b).map Prod.snd

section Sides

variable {credits side : List (WorkId × Nat)} {b : Bytes32} {a : Nat}

theorem amountsOf_eq_singleton (hcanon : ∀ e ∈ side, Canonical hex e.1)
    (hkeys : (side.map Prod.fst).Nodup) (h : (Bytes32.display hex b, a) ∈ side) :
    amountsOf b (side.map (creditOf hex)) = [a] := by
  rw [amountsOf, filter_creditOf hcanon, filter_key_eq hkeys h]
  rfl

theorem amountsOf_eq_nil (hcanon : ∀ e ∈ side, Canonical hex e.1)
    (h : ∀ e ∈ side, e.1 ≠ Bytes32.display hex b) :
    amountsOf b (side.map (creditOf hex)) = [] := by
  rw [amountsOf, filter_creditOf hcanon, List.map_eq_nil_iff, List.map_eq_nil_iff,
    List.filter_eq_nil_iff]
  intro e he
  simpa using h e he

end Sides

/-! ## What a settlement accounts for -/

/-- The direct entries as pairs. -/
def Settlement.directCredits (s : Settlement) : List (Bytes32 × Nat) :=
  s.entries.map fun e => (e.workId, e.amount)

/-- The escrow entries as pairs. -/
def Settlement.escrowCredits (s : Settlement) : List (Bytes32 × Nat) :=
  s.escrow.map fun e => (e.workId, e.amount)

/-- The settlement accounts for the tier fees and lists every credited work once. -/
structure AccountsFor (hex : HexCodec) (tierFees : BTreeMap UserId Nat)
    (escrowWorks : BTreeSet WorkId) (payouts : Payouts) (s : Settlement) : Prop where
  conserved : s.totalCredits + s.escrowTotal + s.unallocated = total tierFees
  totalCredits : s.totalCredits = (s.directCredits.map Prod.snd).sum
  escrowTotal : s.escrowTotal = (s.escrowCredits.map Prod.snd).sum
  escrowed : ∀ b a, payouts.perWork[Bytes32.display hex b]? = some a →
    escrowWorks.contains (Bytes32.display hex b) = true →
    amountsOf b s.escrowCredits = [a] ∧ amountsOf b s.directCredits = []
  direct : ∀ b a, payouts.perWork[Bytes32.display hex b]? = some a →
    escrowWorks.contains (Bytes32.display hex b) = false →
    amountsOf b s.directCredits = [a] ∧ amountsOf b s.escrowCredits = []
  canonical : ∀ work ∈ payouts.perWork, Canonical hex work

theorem accountsFor_of_finalized {tierFees : BTreeMap UserId Nat} {payouts : Payouts}
    {s : Settlement} (hp : Conserves tierFees payouts)
    (hcanon : ∀ work ∈ payouts.perWork, Canonical hex work)
    (hs : Finalized hex keccak256 escrowWorks payouts s) :
    AccountsFor hex tierFees escrowWorks payouts s := by
  have hkeys : ∀ side : List (WorkId × Nat), side.Sublist payouts.perWork.toList →
      (∀ e ∈ side, Canonical hex e.1) ∧ (side.map Prod.fst).Nodup := by
    intro side hsub
    refine ⟨?_, (nodup_keys payouts.perWork).sublist (hsub.map Prod.fst)⟩
    intro e he
    refine hcanon e.1 ?_
    have hmem : (e.1, e.2) ∈ payouts.perWork.toList := hsub.subset he
    exact Std.ExtTreeMap.mem_iff_isSome_getElem?.2 (by simp [mem_toList.1 hmem])
  have hdirect := hkeys (directOf escrowWorks payouts.perWork.toList) List.filter_sublist
  have hescrow := hkeys (escrowedOf escrowWorks payouts.perWork.toList) List.filter_sublist
  have htotal : s.totalCredits =
      ((directOf escrowWorks payouts.perWork.toList).map Prod.snd).sum := by
    rw [hs.committed.total]
    have hsnd := congrArg (fun l => (l.map Prod.snd).sum) hs.direct
    simpa [Function.comp_def, creditOf] using hsnd
  have hescrowTotal : s.escrowTotal =
      ((escrowedOf escrowWorks payouts.perWork.toList).map Prod.snd).sum := by
    rw [hs.escrowTotal]
    have hsnd := congrArg (fun l => (l.map Prod.snd).sum) hs.escrow
    simpa [Function.comp_def, creditOf] using hsnd
  refine ⟨?_, ?_, ?_, ?_, ?_, hcanon⟩
  · have hparts := sum_directOf_add_sum_escrowedOf escrowWorks payouts.perWork.toList
    have hcons := hp.conserved
    rw [htotal, hescrowTotal, hs.unallocated, hparts]
    exact hcons
  · rw [hs.committed.total]
    simp [Settlement.directCredits, Function.comp_def]
  · rw [hs.escrowTotal]
    simp [Settlement.escrowCredits, Function.comp_def]
  · intro b a hget hin
    rw [Settlement.escrowCredits, hs.escrow, Settlement.directCredits, hs.direct]
    refine ⟨amountsOf_eq_singleton hescrow.1 hescrow.2 ?_, amountsOf_eq_nil hdirect.1 ?_⟩
    · exact List.mem_filter.2 ⟨mem_toList.2 hget, hin⟩
    · intro e he heq
      have hout := (List.mem_filter.1 he).2
      rw [heq, hin] at hout
      simp at hout
  · intro b a hget hout
    rw [Settlement.escrowCredits, hs.escrow, Settlement.directCredits, hs.direct]
    refine ⟨amountsOf_eq_singleton hdirect.1 hdirect.2 ?_, amountsOf_eq_nil hescrow.1 ?_⟩
    · exact List.mem_filter.2 ⟨mem_toList.2 hget, by simp [hout]⟩
    · intro e he heq
      have hin := (List.mem_filter.1 he).2
      rw [heq, hout] at hin
      simp at hin

/-! ## The pipeline -/

/-- The computation does not panic, and what it returns conserves the fees. -/
def Conserving (tierFees : BTreeMap UserId Nat) (x : Exec DaprError Payouts) : Prop :=
  x ≠ .error .panic ∧ ∀ payouts, x = .ok payouts → Conserves tierFees payouts

/-- The settlement made from `x` does not panic, and accounts for the fees that `x` conserved. -/
def Accounting (hex : HexCodec) (tierFees : BTreeMap UserId Nat) (escrowWorks : BTreeSet WorkId)
    (x : Exec DaprError Payouts) (y : Exec SettleError Settlement) : Prop :=
  y ≠ .error .panic ∧ ∀ s, y = .ok s →
    ∃ payouts, x = .ok payouts ∧ AccountsFor hex tierFees escrowWorks payouts s

theorem conserving_of_meets {tierFees : BTreeMap UserId Nat} {x : Exec DaprError Payouts}
    {P : Payouts → Prop} (h : Meets x (fun p => Conserves tierFees p ∧ P p) Returned) :
    Conserving tierFees x := by
  refine ⟨?_, ?_⟩
  · intro hpanic
    exact h.of_error hpanic rfl
  · intro payouts hok
    exact (h.of_ok hok).1

theorem accounting_of_meets {tierFees : BTreeMap UserId Nat} {x : Exec DaprError Payouts}
    (works : List WorkId) (epoch : Nat) (hfees : total tierFees < 2 ^ 128)
    (hworks : ∀ work ∈ works, Canonical hex work)
    (h : Meets x (fun p => Conserves tierFees p ∧ ∀ w ∈ p.perWork, w ∈ works) Returned) :
    Accounting hex tierFees escrowWorks x
      (mapErr .dapr x >>= fun payouts => finalize hex keccak256 epoch payouts escrowWorks) := by
  cases x with
  | error t =>
      cases t with
      | err e =>
          simp [Accounting, mapErr]
      | panic =>
          simp at h
  | ok payouts =>
      rcases h with ⟨hp, hcredited⟩
      have hfit : total payouts.perWork < 2 ^ 128 := by
        have hcons := hp.conserved
        omega
      have hfinal := finalize_meets hex keccak256 escrowWorks epoch payouts
      refine ⟨?_, ?_⟩
      · intro hpanic
        cases hfinal.of_error hpanic with
        | overflow hsum =>
            exact absurd hsum (Nat.not_le.2 hfit)
      · intro s hs
        have hcanon : ∀ work ∈ payouts.perWork, Canonical hex work :=
          fun work hw => hworks work (hcredited work hw)
        exact ⟨payouts, rfl, accountsFor_of_finalized hp hcanon (hfinal.of_ok hs)⟩

/-- Fees are conserved from the tier fees to the settlement, on each of the three paths. -/
theorem fees_conserved (hex : HexCodec) (keccak256 : Keccak) (escrowWorks : BTreeSet WorkId)
    (epoch : Nat) {tierFees : BTreeMap UserId Nat} (hfees : total tierFees < 2 ^ 128) :
    (∀ (rows : List RawRow) (credibilityPpm : List Nat), rows.length < 2 ^ 64 →
      Conserving tierFees (allocateFromRawWithRowCredibility tierFees rows credibilityPpm) ∧
        ((∀ r ∈ rows, Canonical hex r.work) → Accounting hex tierFees escrowWorks
          (allocateFromRawWithRowCredibility tierFees rows credibilityPpm)
          (settleRawWithRowCredibility hex keccak256 epoch tierFees rows credibilityPpm
            escrowWorks))) ∧
    (∀ (rows : List RawRow) (bandwidthPpm : BTreeMap WorkId Nat), rows.length < 2 ^ 64 →
      Conserving tierFees (allocateFromRaw tierFees rows bandwidthPpm) ∧
        ((∀ r ∈ rows, Canonical hex r.work) → Accounting hex tierFees escrowWorks
          (allocateFromRaw tierFees rows bandwidthPpm)
          (settleRaw hex keccak256 epoch tierFees rows bandwidthPpm escrowWorks))) ∧
    ∀ (dataset : Dataset) (params : DaprParams), dataset.tierFees = tierFees →
      dataset.usage.length < 2 ^ 64 → params.diminishingKPpm < 2 ^ 64 →
      Conserving tierFees (allocate dataset params) ∧
        dataset.totalFees = .ok (total tierFees) ∧
        ((∀ r ∈ dataset.usage, Canonical hex r.work) → Accounting hex tierFees escrowWorks
          (allocate dataset {}) (settle hex keccak256 epoch dataset escrowWorks)) := by
  refine ⟨?_, ?_, ?_⟩
  · intro rows credibilityPpm hrows
    have hmeets := allocateFromRawWithRowCredibility_conserves credibilityPpm hrows hfees
    refine ⟨conserving_of_meets hmeets, ?_⟩
    intro hcanon
    refine accounting_of_meets (rows.map RawRow.work) epoch hfees ?_ ?_
    · simpa using hcanon
    · simpa using hmeets
  · intro rows bandwidthPpm hrows
    have hmeets := allocateFromRaw_conserves bandwidthPpm hrows hfees
    refine ⟨conserving_of_meets hmeets, ?_⟩
    intro hcanon
    refine accounting_of_meets (rows.map RawRow.work) epoch hfees ?_ ?_
    · simpa using hcanon
    · simpa using hmeets
  · rintro dataset params rfl husage hk
    refine ⟨conserving_of_meets (allocate_conserves hk husage hfees), totalFees_eq hfees, ?_⟩
    intro hcanon
    have hk' : ({} : DaprParams).diminishingKPpm < 2 ^ 64 := by decide
    have hmeets := allocate_conserves hk' husage hfees
    refine accounting_of_meets (dataset.usage.map UsageRow.work) epoch hfees ?_ ?_
    · simpa using hcanon
    · simpa using hmeets

/-- Two works of one subscriber, the second recognised by fingerprint. -/
theorem fees_conserved_two_works :
    ∃ payouts, AccountsFor Hex.codec {("u1", 1000000)} {Bytes32.display Hex.codec 0xbb} payouts
      { epoch := 3
        merkleRoot := 0xcbbca074b0a2db9c3b1cb5296221dddac1b540a10c639c565e9b38094dc5cd7b
        totalCredits := 750000
        unallocated := 0
        entries := [⟨0xaa, 750000, []⟩]
        escrow := [⟨0xbb, 250000⟩]
        escrowTotal := 250000 } := by
  have hfees : total ({("u1", 1000000)} : BTreeMap UserId Nat) < 2 ^ 128 := by
    decide +kernel
  have haccount := ((fees_conserved Hex.codec
    (fun s => if s = leafBuf 0xaa 750000 then
      0xcbbca074b0a2db9c3b1cb5296221dddac1b540a10c639c565e9b38094dc5cd7b else 0)
    {Bytes32.display Hex.codec 0xbb} 3 hfees).1
    [⟨"u1", Bytes32.display Hex.codec 0xaa, 60⟩, ⟨"u1", Bytes32.display Hex.codec 0xbb, 20⟩]
    [1000000, 1000000] (by decide)).2 (by simp [Canonical])
  refine (haccount.2 _ ?_).imp fun payouts hp => hp.2
  decide +kernel

end Settle
end CleanWeb
