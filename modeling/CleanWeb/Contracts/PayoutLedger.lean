import CleanWeb.Contracts.PayoutSystem
import CleanWeb.Lib.Totals
import CleanWeb.Settle.Inclusion

/-!
# The ledger of the payout pool

`Ledger` ties the contract's root and total to the entries behind them: the liability is the sum of
the entries not yet withdrawn, whatever the order of withdrawals and of what payees call back.  So
no outstanding entry can be locked out, and `withdraw_completes` pays one to its end.
-/

namespace CleanWeb
namespace Contracts

open Lib Lib.Exec Settle

variable {d : PoolDeployment}

/-! ## What is outstanding -/

def unpaid (w : PoolWorld) (epochId : Nat) (workId : Bytes32) : Bool :=
  !w.payouts.withdrawn (epochId, workId)

/-- The sum of the entries whose work passes `unpaid`. -/
def sumOf (unpaid : Bytes32 → Bool) (entries : List SettlementEntry) : Nat :=
  ((entries.filter fun e => unpaid e.workId).map SettlementEntry.amount).sum

/-- The amounts of an epoch that are not yet withdrawn. -/
def PoolWorld.outstanding (w : PoolWorld) (epochId : Nat) : Nat :=
  sumOf (unpaid w epochId) (w.entries epochId)

theorem sumOf_congr {f g : Bytes32 → Bool} {entries : List SettlementEntry}
    (h : ∀ e ∈ entries, f e.workId = g e.workId) : sumOf f entries = sumOf g entries := by
  rw [sumOf, sumOf, List.filter_congr h]

theorem sumOf_cons (f : Bytes32 → Bool) (e : SettlementEntry) (entries : List SettlementEntry) :
    sumOf f (e :: entries) = (if f e.workId then e.amount else 0) + sumOf f entries := by
  unfold sumOf
  cases hf : f e.workId with
  | false => simp [hf]
  | true => simp [hf]

theorem sumOf_of_forall {f : Bytes32 → Bool} {entries : List SettlementEntry}
    (h : ∀ e ∈ entries, f e.workId = true) :
    sumOf f entries = (entries.map SettlementEntry.amount).sum := by
  rw [sumOf, List.filter_eq_self.2 h]

/-- Marking the work of one listed entry takes that entry's amount out of the sum. -/
theorem sumOf_mark {f g : Bytes32 → Bool} {entries : List SettlementEntry} {e : SettlementEntry}
    (hdistinct : (entries.map SettlementEntry.workId).Nodup) (he : e ∈ entries)
    (hf : f e.workId = true) (hg : ∀ w, g w = (f w && w != e.workId)) :
    sumOf g entries + e.amount = sumOf f entries := by
  induction entries with
  | nil =>
      cases he
  | cons x entries ih =>
      rcases List.nodup_cons.1 hdistinct with ⟨hx, hrest⟩
      rw [sumOf_cons, sumOf_cons]
      rcases List.mem_cons.1 he with rfl | he
      · -- The entry itself: no later one has its work.
        have hsame : sumOf g entries = sumOf f entries := by
          refine sumOf_congr ?_
          intro y hy
          have hne : y.workId ≠ e.workId := by
            intro heq
            exact hx (heq ▸ List.mem_map_of_mem hy)
          simp [hg, hne]
        rw [hsame, hg, hf]
        simp
        omega
      · have hne : x.workId ≠ e.workId := by
          intro heq
          exact hx (heq ▸ List.mem_map_of_mem he)
        have hhead : g x.workId = f x.workId := by
          simp [hg, hne]
        have hih := ih hrest he
        rw [hhead]
        omega

theorem amount_le_sumOf {f : Bytes32 → Bool} {entries : List SettlementEntry}
    {e : SettlementEntry} (he : e ∈ entries) (hf : f e.workId = true) :
    e.amount ≤ sumOf f entries := by
  refine List.le_sum_of_mem (List.mem_map_of_mem ?_)
  exact List.mem_filter.2 ⟨he, hf⟩

/-! ## The invariant -/

/-- The invariant of the pool while `due` wei are still to be sent. -/
structure Ledger (d : PoolDeployment) (w : PoolWorld) (due : Nat) : Prop where
  registry : w.registry.WellFormed
  fresh : ∀ epochId, w.payouts.epochCommitted epochId = false →
    w.entries epochId = [] ∧ ∀ workId, w.payouts.withdrawn (epochId, workId) = false
  distinct : ∀ epochId, ((w.entries epochId).map SettlementEntry.workId).Nodup
  narrow : ∀ epochId, ∀ e ∈ w.entries epochId, e.amount < 2 ^ 128
  provable : ∀ epochId, ∀ e ∈ w.entries epochId,
    MerkleProof.verify d.keccak256 e.proof (w.payouts.epochRoot epochId)
      (CWEPayouts.leafHash d.keccak256 e.workId e.amount) = true
  liability : Totals w.outstanding w.payouts.liability
  covered : w.payouts.liability + due ≤ w.payouts.balance
  marked : ∀ epochId workId amount, (epochId, workId, amount) ∈ w.history →
    w.payouts.withdrawn (epochId, workId) = true

/-- The withdrawal under way, if there is one, and what it has still to send. -/
inductive Paying (w : PoolWorld) : List (Frame PoolWorld Payment) → Nat → Prop where
  | rest (hstatus : w.payouts.status = .notEntered) : Paying w [] 0
  | paying (f : Frame PoolWorld Payment) (hstatus : w.payouts.status = .entered)
      (hsent : f.pending.Sent) (hnarrow : f.pending.amount < 2 ^ 128) :
      Paying w [f] f.pending.remaining

def InLedger (d : PoolDeployment) (c : Config PoolWorld Payment) : Prop :=
  ∃ due, Paying c.world c.frames due ∧ Ledger d c.world due

theorem Paying.keep {w w' : PoolWorld} {frames : List (Frame PoolWorld Payment)} {due : Nat}
    (h : Paying w frames due) (hstatus : w'.payouts.status = w.payouts.status) :
    Paying w' frames due := by
  cases h with
  | rest hrest => exact .rest (hstatus.trans hrest)
  | paying f hentered hsent hnarrow => exact .paying f (hstatus.trans hentered) hsent hnarrow

theorem Paying.rest_of_status {w : PoolWorld} {frames : List (Frame PoolWorld Payment)} {due : Nat}
    (h : Paying w frames due) (hstatus : w.payouts.status = .notEntered) :
    frames = [] ∧ due = 0 := by
  cases h with
  | rest _ =>
      exact ⟨rfl, rfl⟩
  | paying f hentered _ _ =>
      rw [hstatus] at hentered
      cases hentered

theorem Paying.rest_of_frames {w : PoolWorld} {due : Nat} (h : Paying w [] due) :
    w.payouts.status = .notEntered ∧ due = 0 := by
  cases h with
  | rest hstatus => exact ⟨hstatus, rfl⟩

namespace Ledger

variable {w : PoolWorld} {due : Nat}

/-- An outstanding entry is covered by the liability. -/
theorem amount_le (h : Ledger d w due) {epochId : Nat} {e : SettlementEntry}
    (he : e ∈ w.entries epochId) (hunpaid : w.payouts.withdrawn (epochId, e.workId) = false) :
    e.amount ≤ w.payouts.liability := by
  refine (amount_le_sumOf he ?_).trans (h.liability.le epochId)
  simp [unpaid, hunpaid]

/-- A commit adds the entries of its settlement, all outstanding, and their total. -/
theorem commitEpoch (h : Ledger d w 0) {epochId : Nat} {s : FinalizedSettlement d}
    (hfresh : w.payouts.epochCommitted epochId = false)
    (hfunds : w.payouts.liability + s.settlement.totalCredits ≤ w.payouts.balance) :
    Ledger d { w with
      payouts := { w.payouts with
        epochRoot := Function.update w.payouts.epochRoot epochId s.settlement.merkleRoot
        epochTotal := Function.update w.payouts.epochTotal epochId s.settlement.totalCredits
        epochCommitted := Function.update w.payouts.epochCommitted epochId true
        liability := w.payouts.liability + s.settlement.totalCredits }
      entries := Function.update w.entries epochId s.settlement.entries } 0 := by
  rcases s.produced with ⟨epoch, payouts, escrowWorks, hproduced⟩
  have hs := (finalize_meets d.hex d.keccak256 escrowWorks epoch payouts).of_ok hproduced
  have hempty := h.fresh epochId hfresh
  refine ⟨h.registry, ?_, ?_, ?_, ?_, ?_, hfunds, h.marked⟩
  · intro x hx
    by_cases hxe : x = epochId
    · subst hxe
      simp at hx
    · simpa [hxe] using h.fresh x (by simpa [hxe] using hx)
  · intro x
    by_cases hxe : x = epochId
    · subst hxe
      simpa using s.distinct
    · simpa [hxe] using h.distinct x
  · intro x
    by_cases hxe : x = epochId
    · subst hxe
      simpa using hs.committed.fits
    · simpa [hxe] using h.narrow x
  · intro x
    by_cases hxe : x = epochId
    · subst hxe
      simpa using fun e he => hs.entry_verifies he
    · simpa [hxe] using h.provable x
  · refine Totals.congr (f := Function.update w.outstanding epochId s.settlement.totalCredits) ?_ ?_
    · refine h.liability.update ?_
      have hzero : w.outstanding epochId = 0 := by
        rw [PoolWorld.outstanding, hempty.1]
        rfl
      rw [hzero, Nat.add_zero]
    · intro x
      by_cases hxe : x = epochId
      · subst hxe
        simp only [PoolWorld.outstanding, Function.update_self]
        rw [hs.committed.total]
        refine sumOf_of_forall ?_
        intro e _
        simp [unpaid, hempty.2]
      · simp only [PoolWorld.outstanding, Function.update_of_ne hxe]
        rfl

/-- A withdrawal takes its entry out of the liability. -/
theorem withdraw (h : Ledger d w 0) {epochId : Nat} {e : SettlementEntry} {s : Payment.Sending}
    (he : e ∈ w.entries epochId) (hunpaid : w.payouts.withdrawn (epochId, e.workId) = false)
    (hbalance : s.balance + s.value = w.payouts.balance)
    (hvalue : s.payment.remaining + s.value = e.amount) :
    Ledger d { w with
      payouts := w.payouts.withdrawing epochId e.workId e.amount s.balance
      history := w.history ++ [(epochId, e.workId, e.amount)] } s.payment.remaining := by
  have hle := h.amount_le he hunpaid
  have hcovered := h.covered
  refine ⟨h.registry, ?_, h.distinct, h.narrow, h.provable, ?_, ?_, ?_⟩
  · intro x hx
    rcases h.fresh x hx with ⟨hempty, hnone⟩
    refine ⟨hempty, ?_⟩
    intro workId
    have hne : (x, workId) ≠ (epochId, e.workId) := by
      rintro heq
      cases heq
      rw [hempty] at he
      cases he
    change Function.update w.payouts.withdrawn (epochId, e.workId) true (x, workId) = false
    rw [Function.update_of_ne hne]
    exact hnone workId
  · have hmark := sumOf_mark (h.distinct epochId) he
      (f := unpaid w epochId) (g := fun x => unpaid w epochId x && x != e.workId)
      (by simp [unpaid, hunpaid]) fun _ => rfl
    refine Totals.congr (f := Function.update w.outstanding epochId
      (sumOf (fun x => unpaid w epochId x && x != e.workId) (w.entries epochId))) ?_ ?_
    · refine h.liability.update (m := w.payouts.liability - e.amount) ?_
      change w.payouts.liability - e.amount + sumOf (unpaid w epochId) (w.entries epochId) = _
      omega
    · intro x
      by_cases hxe : x = epochId
      · subst hxe
        rw [Function.update_self]
        refine sumOf_congr ?_
        intro y _
        by_cases hy : y.workId = e.workId
        · simp [unpaid, CWEPayouts.withdrawing, hy]
        · simp [unpaid, CWEPayouts.withdrawing, hy]
      · rw [Function.update_of_ne hxe]
        refine sumOf_congr ?_
        intro y _
        simp [unpaid, CWEPayouts.withdrawing, hxe]
  · change w.payouts.liability - e.amount + s.payment.remaining ≤ s.balance
    omega
  · intro x workId amount hmem
    change Function.update w.payouts.withdrawn (epochId, e.workId) true (x, workId) = true
    by_cases hpair : (x, workId) = (epochId, e.workId)
    · rw [hpair, Function.update_self]
    · rw [Function.update_of_ne hpair]
      refine h.marked x workId amount ?_
      rcases List.mem_append.1 hmem with hmem | hmem
      · exact hmem
      · cases List.mem_singleton.1 hmem
        exact absurd rfl hpair

/-- The pool's records change, or time passes. -/
theorem other (h : Ledger d w due) {records : Records} {timestamp : Nat}
    (hregistry : records.registry.WellFormed) :
    Ledger d { w with toRecords := records, timestamp := timestamp } due :=
  ⟨hregistry, h.fresh, h.distinct, h.narrow, h.provable, h.liability, h.covered, h.marked⟩

/-- The balance changes within what is covered, and with it what is still due. -/
theorem rebalance (h : Ledger d w due) {balance due' : Nat} {status : GuardStatus}
    (hcovered : w.payouts.liability + due' ≤ balance) :
    Ledger d { w with
      payouts := { w.payouts with balance := balance, status := status } } due' :=
  ⟨h.registry, h.fresh, h.distinct, h.narrow, h.provable, h.liability, hcovered, h.marked⟩

end Ledger

/-! ## One step -/

theorem inLedger_call {c : Config PoolWorld Payment} {out : PoolWorld × Option Payment}
    (hc : InLedger d c) (h : PoolEffect d c.world c.pending out) :
    InLedger d (Config.enter c.world c.frames out) := by
  rcases hc with ⟨due, hpaying, hledger⟩
  cases h with
  | elapse seconds =>
      exact ⟨due, hpaying.keep rfl, hledger.other hledger.registry⟩
  | receive value =>
      have hcovered := hledger.covered
      exact ⟨due, hpaying.keep rfl, hledger.rebalance (by omega)⟩
  | records c records heffect =>
      exact ⟨due, hpaying.keep rfl, hledger.other (heffect.wellFormed hledger.registry)⟩
  | commitEpoch epochId s hrest hfresh hfit hfunds =>
      -- The aggregator is not among the nested callers, so no withdrawal is under way.
      have hframes : c.frames = [] := by
        simpa [Config.pending] using hrest
      have hdue : due = 0 := by
        rw [hframes] at hpaying
        exact hpaying.rest_of_frames.2
      subst hdue
      exact ⟨0, hpaying.keep rfl, hledger.commitEpoch hfresh hfunds⟩
  | withdraw epochId e s hlisted hstatus hwithdrawn hpayees hamount hsend =>
      rcases hpaying.rest_of_status hstatus with ⟨hframes, rfl⟩
      have hready : (CWEPayouts.payment c.world.registry epochId e.workId e.amount).Ready :=
        Payment.start_ready (hledger.registry.payable_of_payees hpayees) _
      have hpaid := Payment.send_ok hready hsend
      have hvalue : s.payment.remaining + s.value = e.amount := hpaid.value
      have hsame : s.payment.amount = e.amount := by
        rw [hpaid.same]
        rfl
      rw [hframes]
      refine ⟨s.payment.remaining, ?_,
        hledger.withdraw hlisted hwithdrawn hpaid.balance hvalue⟩
      refine .paying ⟨c.world, s.payment⟩ rfl hpaid.sent ?_
      rw [hsame]
      exact hledger.narrow epochId e hlisted

theorem inLedger_resume {c : Config PoolWorld Payment} {f : Frame PoolWorld Payment}
    {fs : List (Frame PoolWorld Payment)} {out : PoolWorld × Option Payment} (hc : InLedger d c)
    (hframes : c.frames = f :: fs) (h : c.world.resume f.pending = .ok out) :
    InLedger d (Config.enter f.snapshot fs out) := by
  rcases hc with ⟨due, hpaying, hledger⟩
  rw [hframes] at hpaying
  cases hpaying with
  | paying _ hstatus hsent hnarrow =>
      have hcovered := hledger.covered
      rcases poolResume_cases h with ⟨hlast, rfl⟩ | ⟨q, s, hnext, hsend, rfl⟩
      · exact ⟨0, .rest rfl, hledger.rebalance (by omega)⟩
      · rcases hsent.advance hnext with ⟨hready, rfl, hdue⟩
        have hturn := Payment.send_ok hready hsend
        have hvalue : s.payment.remaining + s.value = f.pending.remaining := by
          rw [← hdue]
          exact hturn.value
        have hbalance := hturn.balance
        have hsame : s.payment.amount = f.pending.amount := by
          rw [hturn.same]
        refine ⟨s.payment.remaining, ?_, hledger.rebalance (by omega)⟩
        refine .paying ⟨f.snapshot, s.payment⟩ hstatus hturn.sent ?_
        rw [hsame]
        exact hnarrow

theorem inLedger_init (d : PoolDeployment) : InLedger d (Config.init (PoolWorld.init d)) := by
  refine ⟨0, .rest rfl, CWERegistry.init_wellFormed _, fun _ _ => ⟨rfl, fun _ => rfl⟩,
    fun _ => List.nodup_nil, ?_, ?_, Totals.zero, Nat.le_refl 0, ?_⟩
  · intro epochId e he
    cases he
  · intro epochId e he
    cases he
  · intro epochId workId amount he
    cases he

theorem inLedger_run (d : PoolDeployment) (acts : List (Action (PoolInput d))) :
    InLedger d ((poolSystem d).run (PoolWorld.init d) acts) := by
  refine Machine.run_inv (inLedger_init d) ?_ ?_ acts
  · intro c k out hc hallowed hout
    exact inLedger_call hc (poolEffect_of_call hallowed hout)
  · intro c f fs out hc hframes hout
    exact inLedger_resume hc hframes hout

/-! ## Withdrawals go through -/

section Withdraw

variable {c : Config PoolWorld Payment}

/-- An outstanding entry of a registered work can be withdrawn by anyone. -/
theorem withdraw_starts (hc : InLedger d c) (hrest : c.AtRest) {epochId : Nat}
    {e : SettlementEntry} (he : e ∈ c.world.entries epochId)
    (hunpaid : c.world.payouts.withdrawn (epochId, e.workId) = false)
    (hregistered : c.world.registry.isRegistered e.workId = true) (sender : Address) :
    ∃ out, c.world.input (d := d) (.tx sender (.withdraw epochId e.workId e.amount e.proof)) =
        .ok out ∧ out.1.payouts.withdrawn =
          Function.update c.world.payouts.withdrawn (epochId, e.workId) true := by
  rcases hc with ⟨due, hpaying, hledger⟩
  rw [show c.frames = [] from hrest] at hpaying
  rcases hpaying.rest_of_frames with ⟨hstatus, rfl⟩
  have hcommitted : c.world.payouts.epochCommitted epochId = true := by
    by_contra hfresh
    have hempty := (hledger.fresh epochId (eq_false_of_ne_true hfresh)).1
    rw [hempty] at he
    cases he
  have hpayable := (hledger.registry e.workId).payable hregistered
  have hamount := hledger.amount_le he hunpaid
  have hnarrow := hledger.narrow epochId e he
  have hready : (CWEPayouts.payment c.world.registry epochId e.workId e.amount).Ready :=
    Payment.start_ready hpayable _
  have hcovered := hledger.covered
  have hsmall : e.amount < 2 ^ 236 := hnarrow.trans (by decide)
  have hfits := hready.toLoaded.fits hsmall
  rcases (Payment.exists_send_iff hready (hnarrow.trans (by decide))
    (show e.amount - 0 ≤ c.world.payouts.balance by omega)).2 hfits with ⟨s, hs⟩
  have hwithdraw : CWEPayouts.withdraw d.keccak256 c.world.registry c.world.payouts epochId e.workId
      e.amount e.proof =
      .ok (c.world.payouts.withdrawing epochId e.workId e.amount s.balance, s) := by
    rw [CWEPayouts.withdraw_of_provable hstatus hcommitted hunpaid (hledger.provable epochId e he)
      hpayable.nonempty hamount, hs]
    rfl
  have hinput : c.world.input (d := d) (.tx sender (.withdraw epochId e.workId e.amount e.proof)) =
      .ok ({ c.world with
        payouts := c.world.payouts.withdrawing epochId e.workId e.amount s.balance
        history := c.world.history ++ [(epochId, e.workId, e.amount)] }, some s.payment) := by
    simp only [PoolWorld.input, PoolWorld.exec, hwithdraw]
    rfl
  exact ⟨_, hinput, rfl⟩

/-- A withdrawal under way goes on whenever its payee accepts, whatever was called in between. -/
theorem withdraw_continues (hc : InLedger d c) {f : Frame PoolWorld Payment}
    {fs : List (Frame PoolWorld Payment)} (hframes : c.frames = f :: fs) :
    ∃ out, c.world.resume f.pending = .ok out ∧
      out.1.payouts.withdrawn = c.world.payouts.withdrawn ∧
      ∀ q ∈ out.2, f.pending.i < q.i ∧ q.payees = f.pending.payees := by
  rcases hc with ⟨due, hpaying, hledger⟩
  rw [hframes] at hpaying
  cases hpaying with
  | paying _ hstatus hsent hnarrow =>
      cases hnext : f.pending.advance with
      | none =>
          have hdone : c.world.resume f.pending =
              .ok ({ c.world with payouts := { c.world.payouts with status := .notEntered } },
                none) := by
            simp only [PoolWorld.resume, CWEPayouts.payeeReturned, hnext]
            rfl
          exact ⟨_, hdone, rfl, by simp⟩
      | some q =>
          rcases hsent.advance hnext with ⟨hready, heq, hdue⟩
          have hcovered := hledger.covered
          have hsmall : q.amount < 2 ^ 128 := by
            rw [heq]
            exact hnarrow
          rcases (Payment.exists_send_iff hready (hsmall.trans (by decide))
            (show q.amount - q.distributed ≤ c.world.payouts.balance by omega)).2
            (hready.toLoaded.fits (hsmall.trans (by decide))) with ⟨s, hs⟩
          have hturn : c.world.resume f.pending =
              .ok ({ c.world with payouts := { c.world.payouts with balance := s.balance } },
                some s.payment) := by
            simp only [PoolWorld.resume, CWEPayouts.payeeReturned, hnext, hs]
            rfl
          refine ⟨_, hturn, rfl, ?_⟩
          intro q' hq'
          have hq : q' = s.payment := by simpa using hq'.symm
          rw [hq, (Payment.send_ok hready hs).same, heq]
          exact ⟨Nat.lt_succ_self _, rfl⟩

/-- Payees that accept one after the other bring the transaction to its end. -/
theorem returns_complete (k : Nat) {c : Config PoolWorld Payment} (hc : InLedger d c)
    (hk : ∀ f ∈ c.frames, f.pending.payees.length - f.pending.i ≤ k) :
    ∃ n, ((List.replicate n (.returns true)).foldl (poolSystem d).next c).AtRest ∧
      ((List.replicate n (.returns true)).foldl (poolSystem d).next c).world.payouts.withdrawn =
        c.world.payouts.withdrawn := by
  induction k generalizing c with
  | zero =>
      cases hframes : c.frames with
      | nil => exact ⟨0, hframes, rfl⟩
      | cons f fs =>
          -- The index of a loop under way is in range.
          rcases hc with ⟨due, hpaying, -⟩
          rw [hframes] at hpaying
          have hle := hk f (by simp [hframes])
          cases hpaying with
          | paying _ hstatus hsent hnarrow =>
              have hindex := hsent.index
              omega
  | succ k ih =>
      cases hframes : c.frames with
      | nil => exact ⟨0, hframes, rfl⟩
      | cons f fs =>
          rcases withdraw_continues hc hframes with ⟨out, hout, hsame, hmore⟩
          have hfs : fs = [] := by
            rcases hc with ⟨due, hpaying, -⟩
            rw [hframes] at hpaying
            cases hpaying
            rfl
          have hnext : (poolSystem d).next c (.returns true) = Config.enter f.snapshot fs out := by
            have hresume : (poolSystem d).resume c.world f.pending = .ok out := hout
            simp only [Machine.next, hframes, if_true, hresume]
          have hle := hk f (by simp [hframes])
          have hc' := inLedger_resume hc hframes hout
          have hk' : ∀ g ∈ (Config.enter f.snapshot fs out).frames,
              g.pending.payees.length - g.pending.i ≤ k := by
            rcases out with ⟨w, _ | q⟩
            · simp [hfs]
            · rcases hmore q rfl with ⟨hlt, hpayees⟩
              simp only [Config.enter_some, hfs, List.mem_singleton]
              rintro g rfl
              show q.payees.length - q.i ≤ k
              rw [hpayees]
              omega
          rcases ih hc' hk' with ⟨n, hrest, hwithdrawn⟩
          refine ⟨n + 1, ?_, ?_⟩
          · rw [List.replicate_succ, List.foldl_cons, hnext]
            exact hrest
          · rw [List.replicate_succ, List.foldl_cons, hnext, hwithdrawn, Config.world_enter]
            exact hsame

/-- Withdrawing an outstanding entry of a registered work, with payees that accept, ends with the
entry paid. -/
theorem withdraw_completes (hc : InLedger d c) (hrest : c.AtRest) {epochId : Nat}
    {e : SettlementEntry} (he : e ∈ c.world.entries epochId)
    (hunpaid : c.world.payouts.withdrawn (epochId, e.workId) = false)
    (hregistered : c.world.registry.isRegistered e.workId = true) (sender : Address) :
    ∃ n,
      let c' := (Action.call (PoolInput.tx sender
          (.withdraw epochId e.workId e.amount e.proof)) ::
        List.replicate n (.returns true)).foldl (poolSystem d).next c
      c'.AtRest ∧ c'.world.payouts.withdrawn (epochId, e.workId) = true := by
  rcases withdraw_starts hc hrest he hunpaid hregistered sender with ⟨out, hout, hmark⟩
  have hallowed : c.world.admits (d := d) c.pending
      (.tx sender (.withdraw epochId e.workId e.amount e.proof)) = true := by
    simp [PoolWorld.admits, PoolWorld.listed, he, hrest.pending]
  have hstep : (poolSystem d).next c
      (.call (.tx sender (.withdraw epochId e.workId e.amount e.proof))) =
      Config.enter c.world c.frames out := by
    have hallowed' : (poolSystem d).admits c.world c.pending
        (.tx sender (.withdraw epochId e.workId e.amount e.proof)) = true := hallowed
    have hcall : (poolSystem d).call c.world
        (.tx sender (.withdraw epochId e.workId e.amount e.proof)) = .ok out := hout
    simp only [Machine.next, hallowed', if_true, hcall]
  have hc' := inLedger_call hc (poolEffect_of_call hallowed hout)
  rcases returns_complete (((Config.enter c.world c.frames out).frames.map fun f =>
      f.pending.payees.length - f.pending.i).sum) hc' (fun f hf =>
        List.le_sum_of_mem (List.mem_map_of_mem hf)) with ⟨n, hend, hwithdrawn⟩
  refine ⟨n, ?_⟩
  simp only [List.foldl_cons, hstep]
  refine ⟨hend, ?_⟩
  rw [hwithdrawn, Config.world_enter, hmark, Function.update_self]

end Withdraw

/-! ## Every run -/

/-- The pool in every reachable state.  At a transaction boundary the liability is the sum of the
entries not yet withdrawn and is covered; every such entry of a registered work can then be
withdrawn by anyone, to the end; a withdrawal under way never stops but by a payee's refusal; and
what has been withdrawn cannot be withdrawn again. -/
theorem pool_ledger (d : PoolDeployment) (acts : List (Action (PoolInput d))) :
    let c := (poolSystem d).run (PoolWorld.init d) acts
    (c.AtRest → Totals c.world.outstanding c.world.payouts.liability ∧
      c.world.payouts.liability ≤ c.world.payouts.balance) ∧
    (c.AtRest → ∀ epochId e, e ∈ c.world.entries epochId →
      c.world.payouts.withdrawn (epochId, e.workId) = false →
      c.world.registry.isRegistered e.workId = true →
        e.amount ≤ c.world.payouts.liability ∧
        ∀ sender, ∃ n,
          let c' := (poolSystem d).run (PoolWorld.init d)
            (acts ++ Action.call (PoolInput.tx sender
                (.withdraw epochId e.workId e.amount e.proof)) ::
              List.replicate n (.returns true))
          c'.AtRest ∧ c'.world.payouts.withdrawn (epochId, e.workId) = true) ∧
    (∀ f fs, c.frames = f :: fs → ∃ out, c.world.resume f.pending = .ok out) ∧
    ∀ epochId workId amount, (epochId, workId, amount) ∈ c.world.history →
      ∀ sender amount' proof out,
        c.world.input (d := d) (.tx sender (.withdraw epochId workId amount' proof)) ≠ .ok out := by
  intro c
  have hc : InLedger d c := inLedger_run d acts
  refine ⟨?_, ?_, ?_, ?_⟩
  · intro hrest
    rcases hc with ⟨due, hpaying, hledger⟩
    exact ⟨hledger.liability, (Nat.le_add_right _ _).trans hledger.covered⟩
  · intro hrest epochId e he hunpaid hregistered
    refine ⟨?_, ?_⟩
    · rcases hc with ⟨due, hpaying, hledger⟩
      exact hledger.amount_le he hunpaid
    · intro sender
      rcases withdraw_completes hc hrest he hunpaid hregistered sender with ⟨n, hn⟩
      refine ⟨n, ?_⟩
      simp only [Machine.run, List.foldl_append]
      exact hn
  · intro f fs hframes
    rcases withdraw_continues hc hframes with ⟨out, hout, -⟩
    exact ⟨out, hout⟩
  · intro epochId workId amount hmem sender amount' proof out hout
    rcases hc with ⟨due, hpaying, hledger⟩
    have hmarked := hledger.marked epochId workId amount hmem
    rcases bind_eq_ok.1 hout with ⟨sent, hwithdraw, -⟩
    rcases CWEPayouts.withdraw_cases hwithdraw with ⟨-, -, hfresh, -⟩
    rw [hmarked] at hfresh
    cases hfresh

end Contracts
end CleanWeb
