import CleanWeb.Contracts.EscrowSystem
import CleanWeb.Lib.Totals

/-!
# Solvency of the escrow

`Funded w due` is the accounting of the escrow while `due` wei of a release are still to be sent,
`Underway` ties `due` to the release that is under way, and `Solvent` is both.  Every call and
every return of a payee keeps it.
-/

namespace CleanWeb
namespace Contracts

open Lib Lib.Exec

/-! ## Sums over the history -/

@[simp] def Entry.committed : Entry → Nat
  | .escrowCommitted _ _ amount => amount
  | _ => 0

@[simp] def Entry.paidOut : Entry → Nat
  | .paid _ value => value
  | _ => 0

/-- Everything ever committed. -/
def committedIn (history : List Entry) : Nat :=
  (history.map Entry.committed).sum

/-- Everything ever sent to payees. -/
def paidIn (history : List Entry) : Nat :=
  (history.map Entry.paidOut).sum

@[simp] theorem committedIn_append (as bs : List Entry) :
    committedIn (as ++ bs) = committedIn as + committedIn bs := by
  simp [committedIn]

@[simp] theorem paidIn_append (as bs : List Entry) : paidIn (as ++ bs) = paidIn as + paidIn bs := by
  simp [paidIn]

@[simp] theorem committedIn_nil : committedIn [] = 0 := rfl

@[simp] theorem paidIn_nil : paidIn [] = 0 := rfl

@[simp] theorem committedIn_cons (e : Entry) (h : List Entry) :
    committedIn (e :: h) = e.committed + committedIn h := by
  simp [committedIn]

@[simp] theorem paidIn_cons (e : Entry) (h : List Entry) :
    paidIn (e :: h) = e.paidOut + paidIn h := by
  simp [paidIn]

/-- Registrations move no money. -/
@[simp] theorem committedIn_recordEntries (timestamp : Nat) (c : RecordCall) :
    committedIn (World.recordEntries timestamp c) = 0 := by
  cases c <;> rfl

@[simp] theorem paidIn_recordEntries (timestamp : Nat) (c : RecordCall) :
    paidIn (World.recordEntries timestamp c) = 0 := by
  cases c <;> rfl

/-! ## The accounting -/

/-- The amount of every slot. -/
def CWEEscrow.amounts (st : CWEEscrow) : Nat × Bytes32 → Nat :=
  fun k => (st.escrows k).amount

/-- A slot holds money only while it is committed and not released. -/
structure SlotLive (e : Escrow) : Prop where
  live : 0 < e.amount → e.committed = true ∧ e.released = false
  released : e.released = true → e.committed = true

theorem Escrow.default_live : SlotLive default :=
  ⟨by simp, by simp [default]⟩

/-- The invariant of the accounts while `due` wei are still to be sent. -/
structure Funded (w : World) (due : Nat) : Prop where
  registry : w.registry.WellFormed
  liability : Totals w.escrow.amounts w.escrow.liability
  wide : w.escrow.liability < 2 ^ 256
  slots : ∀ k, SlotLive (w.escrow.escrows k)
  covered : w.escrow.liability + due ≤ w.escrow.balance
  conserved : committedIn w.history = paidIn w.history + w.escrow.liability + due

/-- The release under way, if there is one, and what it has still to send. -/
inductive Underway (w : World) : List (Frame World Payment) → Nat → Prop where
  | rest (hstatus : w.escrow.status = .notEntered) : Underway w [] 0
  | paying (f : Frame World Payment) (hstatus : w.escrow.status = .entered)
      (hsent : f.pending.Sent) (hwide : f.pending.amount < 2 ^ 256)
      (hslot : f.pending.amount = (f.snapshot.slot f.pending.epochId f.pending.workId).amount)
      (hpaid : paidIn w.history + f.pending.remaining =
        paidIn f.snapshot.history + f.pending.amount) :
      Underway w [f] f.pending.remaining

def Solvent (c : Config World Payment) : Prop :=
  ∃ due, Underway c.world c.frames due ∧ Funded c.world due

theorem Underway.keep {w w' : World} {frames : List (Frame World Payment)} {due : Nat}
    (h : Underway w frames due) (hstatus : w'.escrow.status = w.escrow.status)
    (hpaid : paidIn w'.history = paidIn w.history) : Underway w' frames due := by
  cases h with
  | rest hrest =>
      exact .rest (hstatus.trans hrest)
  | paying f hentered hsent hwide hslot hf =>
      exact .paying f (hstatus.trans hentered) hsent hwide hslot (by rw [hpaid]; exact hf)

theorem Underway.due_of_rest {w : World} {frames : List (Frame World Payment)} {due : Nat}
    (h : Underway w frames due) (hstatus : w.escrow.status = .notEntered) :
    frames = [] ∧ due = 0 := by
  cases h with
  | rest _ =>
      exact ⟨rfl, rfl⟩
  | paying f hentered _ _ _ _ =>
      rw [hstatus] at hentered
      cases hentered

namespace Funded

variable {w w' : World} {due : Nat}

/-- What touches neither the slots nor the money. -/
theorem other (h : Funded w due) (hregistry : w'.registry.WellFormed)
    (hescrow : w'.escrow = w.escrow)
    (hcommitted : committedIn w'.history = committedIn w.history)
    (hpaid : paidIn w'.history = paidIn w.history) : Funded w' due :=
  ⟨hregistry, hescrow ▸ h.liability, hescrow ▸ h.wide, hescrow ▸ h.slots, hescrow ▸ h.covered,
    by rw [hcommitted, hpaid, hescrow]; exact h.conserved⟩

theorem amounts_update (st : CWEEscrow) (k : Nat × Bytes32) (e : Escrow) :
    CWEEscrow.amounts { st with escrows := Function.update st.escrows k e } =
      Function.update st.amounts k e.amount := by
  funext x
  by_cases hx : x = k
  · subst hx
    simp [CWEEscrow.amounts]
  · simp [CWEEscrow.amounts, hx]

theorem slots_update {escrows : Nat × Bytes32 → Escrow} {k : Nat × Bytes32} {e : Escrow}
    (h : ∀ k, SlotLive (escrows k)) (he : SlotLive e) (x : Nat × Bytes32) :
    SlotLive (Function.update escrows k e x) := by
  by_cases hx : x = k
  · subst hx
    simpa using he
  · simpa [hx] using h x

/-- A slot that was never committed holds nothing and has never been released. -/
theorem fresh (h : Funded w due) {k : Nat × Bytes32}
    (hfresh : (w.escrow.escrows k).committed = false) :
    (w.escrow.escrows k).amount = 0 ∧ (w.escrow.escrows k).released = false := by
  have hslot := h.slots k
  constructor
  · by_contra hpos
    have hlive := hslot.live (Nat.pos_of_ne_zero hpos)
    rw [hfresh] at hlive
    cases hlive.1
  · by_contra hreleased
    have hcommitted := hslot.released (eq_true_of_ne_false hreleased)
    rw [hfresh] at hcommitted
    cases hcommitted

/-- Money comes in. -/
theorem receive (h : Funded w due) (value : Nat) :
    Funded { w with escrow := w.escrow.receive value } due := by
  have hcovered := h.covered
  refine ⟨h.registry, h.liability, h.wide, h.slots, ?_, h.conserved⟩
  change w.escrow.liability + due ≤ w.escrow.balance + value
  omega

/-- A slot is rewritten and keeps its amount. -/
theorem rewrite_slot (h : Funded w due) {k : Nat × Bytes32} {e : Escrow} {entry : Entry}
    {jury : CWEJury} (hamount : e.amount = (w.escrow.escrows k).amount) (he : SlotLive e)
    (hcommitted : entry.committed = 0) (hpaid : entry.paidOut = 0) :
    Funded { w with
      jury := jury
      escrow := { w.escrow with escrows := Function.update w.escrow.escrows k e }
      history := w.history ++ [entry] } due := by
  refine ⟨h.registry, ?_, h.wide, slots_update h.slots he, h.covered, ?_⟩
  · rw [amounts_update, hamount]
    exact h.liability.update rfl
  · simp only [committedIn_append, paidIn_append, committedIn_cons, paidIn_cons, committedIn_nil,
      paidIn_nil, hcommitted, hpaid]
    exact h.conserved

theorem commit (h : Funded w 0) {epochId amount releaseEpoch : Nat} {workId contentId : Bytes32}
    (hfresh : (w.slot epochId workId).committed = false)
    (hfit : w.escrow.liability + amount < 2 ^ 256)
    (hfunds : w.escrow.liability + amount ≤ w.escrow.balance) :
    Funded { w with
      escrow := { w.escrow with
        escrows := Function.update w.escrow.escrows (epochId, workId)
          { w.slot epochId workId with
            amount := amount
            releaseEpoch := releaseEpoch
            contentId := contentId
            committed := true }
        liability := w.escrow.liability + amount }
      history := w.history ++ [.escrowCommitted epochId workId amount] } 0 := by
  have hempty := h.fresh hfresh
  have hconserved := h.conserved
  refine ⟨h.registry, ?_, hfit, ?_, hfunds, ?_⟩
  · refine Totals.congr (f := Function.update w.escrow.amounts (epochId, workId) amount) ?_ ?_
    · -- The slot contributed nothing before.
      refine h.liability.update ?_
      change w.escrow.liability + amount + (w.escrow.escrows (epochId, workId)).amount = _
      rw [hempty.1, Nat.add_zero]
    · intro x
      exact congrFun (amounts_update w.escrow (epochId, workId) _) x
  · exact slots_update h.slots ⟨fun _ => ⟨rfl, hempty.2⟩, fun _ => rfl⟩
  · simp only [committedIn_append, paidIn_append, committedIn_cons, paidIn_cons, committedIn_nil,
      paidIn_nil, Entry.committed, Entry.paidOut]
    omega

/-- Clearing a slot takes its amount out of the total. -/
theorem cleared (h : Funded w due) (k : Nat × Bytes32) :
    Totals
      (CWEEscrow.amounts { w.escrow with escrows := Function.update w.escrow.escrows k default })
      (w.escrow.liability - (w.escrow.escrows k).amount) := by
  have hle : (w.escrow.escrows k).amount ≤ w.escrow.liability := h.liability.le k
  rw [amounts_update]
  refine h.liability.update ?_
  change w.escrow.liability - (w.escrow.escrows k).amount + (w.escrow.escrows k).amount = _
  simp only [Escrow.default_amount]
  omega

/-- A cleared amount fits on top of any other slot. -/
theorem merge_le (h : Funded w due) (k to_ : Nat × Bytes32) :
    (Function.update w.escrow.escrows k default to_).amount + (w.escrow.escrows k).amount ≤
      w.escrow.liability := by
  have hle : (w.escrow.escrows k).amount ≤ w.escrow.liability := h.liability.le k
  have hto : (Function.update w.escrow.escrows k default to_).amount ≤
      w.escrow.liability - (w.escrow.escrows k).amount := (h.cleared k).le to_
  omega

/-- A won slot is cleared and merged into the challenger's: the total stays. -/
theorem reassign (h : Funded w due) {epochId disputeId : Nat} {escrowedWork challenger : Bytes32} :
    Funded { w with
      escrow := { w.escrow with
        escrows := Function.update
          (Function.update w.escrow.escrows (epochId, escrowedWork) default)
          (epochId, challenger)
          (CWEEscrow.merged (w.slot epochId escrowedWork)
            (Function.update w.escrow.escrows (epochId, escrowedWork) default
              (epochId, challenger))) }
      history :=
        w.history ++ [.disputeResolved epochId escrowedWork challenger disputeId] } due := by
  have hcleared :
      ∀ k, SlotLive (Function.update w.escrow.escrows (epochId, escrowedWork) default k) :=
    slots_update h.slots Escrow.default_live
  refine ⟨h.registry, ?_, h.wide, slots_update hcleared ⟨fun _ => ⟨rfl, rfl⟩, fun _ => rfl⟩,
    h.covered, ?_⟩
  · let cleared : CWEEscrow :=
      { w.escrow with
        escrows := Function.update w.escrow.escrows (epochId, escrowedWork) default }
    have hle : w.escrow.amounts (epochId, escrowedWork) ≤ w.escrow.liability := h.liability.le _
    refine Totals.congr (f := Function.update cleared.amounts (epochId, challenger)
      (cleared.amounts (epochId, challenger) + w.escrow.amounts (epochId, escrowedWork))) ?_ ?_
    · refine (h.cleared (epochId, escrowedWork)).update ?_
      change w.escrow.liability + cleared.amounts (epochId, challenger) =
        w.escrow.liability - w.escrow.amounts (epochId, escrowedWork) + _
      omega
    · intro x
      exact congrFun (amounts_update cleared (epochId, challenger) _) x
  · simpa using h.conserved

/-- A release takes its slot out of the liability and owes what the first transfer leaves. -/
theorem release (h : Funded w 0) {epochId : Nat} {workId : Bytes32} {s : Payment.Sending}
    (hamount : (w.slot epochId workId).amount ≤ w.escrow.liability)
    (hcommitted : (w.slot epochId workId).committed = true)
    (hbalance : s.balance + s.value = w.escrow.balance)
    (hvalue : s.payment.remaining + s.value = (w.slot epochId workId).amount) :
    Funded { w with
      escrow := w.escrow.releasing epochId workId s.balance
      history := w.history ++ [.escrowReleased epochId workId (w.slot epochId workId).amount,
        .paid s.payee s.value] } s.payment.remaining := by
  have hcovered := h.covered
  have hconserved := h.conserved
  have hwide := h.wide
  refine ⟨h.registry, ?_, ?_, slots_update h.slots ⟨by simp, fun _ => hcommitted⟩, ?_, ?_⟩
  · refine Totals.congr (f := Function.update w.escrow.amounts (epochId, workId) 0) ?_ ?_
    · refine h.liability.update (m := w.escrow.liability - (w.slot epochId workId).amount) ?_
      change w.escrow.liability - (w.slot epochId workId).amount +
        (w.slot epochId workId).amount = _
      omega
    · intro x
      exact congrFun (amounts_update w.escrow (epochId, workId) _) x
  · change w.escrow.liability - (w.slot epochId workId).amount < 2 ^ 256
    omega
  · change w.escrow.liability - (w.slot epochId workId).amount + s.payment.remaining ≤ s.balance
    omega
  · simp only [committedIn_append, paidIn_append, committedIn_cons, paidIn_cons, committedIn_nil,
      paidIn_nil, Entry.committed, Entry.paidOut]
    change _ = _ + (w.escrow.liability - (w.slot epochId workId).amount) + s.payment.remaining
    omega

/-- One more transfer of the release under way. -/
theorem pay (h : Funded w due) {s : Payment.Sending}
    (hbalance : s.balance + s.value = w.escrow.balance)
    (hvalue : s.payment.remaining + s.value = due) :
    Funded { w with
      escrow := { w.escrow with balance := s.balance }
      history := w.history ++ [.paid s.payee s.value] } s.payment.remaining := by
  have hcovered := h.covered
  have hconserved := h.conserved
  refine ⟨h.registry, h.liability, h.wide, h.slots, ?_, ?_⟩
  · change w.escrow.liability + s.payment.remaining ≤ s.balance
    omega
  · simp only [committedIn_append, paidIn_append, committedIn_cons, paidIn_cons, committedIn_nil,
      paidIn_nil, Entry.committed, Entry.paidOut]
    omega

end Funded

/-! ## One step -/

/-- What a call that ends without handing over leaves. -/
theorem solvent_of_done {c : Config World Payment} {w' : World} {due : Nat}
    (hunder : Underway c.world c.frames due) (hstatus : w'.escrow.status = c.world.escrow.status)
    (hpaid : paidIn w'.history = paidIn c.world.history) (hfunded : Funded w' due) :
    Solvent (Config.enter c.world c.frames (w', none)) :=
  ⟨due, hunder.keep hstatus hpaid, hfunded⟩

theorem solvent_call {c : Config World Payment} {k : Input} {out : World × Option Payment}
    (hc : Solvent c) (h : Effect c.world c.pending k out) :
    Solvent (Config.enter c.world c.frames out) := by
  rcases hc with ⟨due, hunder, hfunded⟩
  cases h with
  | elapse seconds hrest =>
      exact solvent_of_done hunder rfl rfl (hfunded.other hfunded.registry rfl rfl rfl)
  | receive value =>
      exact solvent_of_done hunder rfl rfl (hfunded.receive value)
  | records sender c records heffect =>
      have hregistry := heffect.wellFormed hfunded.registry
      refine solvent_of_done hunder rfl (by simp) ?_
      exact hfunded.other hregistry rfl (by simp) (by simp)
  | jurySettings _ owner escrow =>
      exact solvent_of_done hunder rfl rfl (hfunded.other hfunded.registry rfl rfl rfl)
  | openDispute sender workA workB out hopen =>
      exact solvent_of_done hunder rfl rfl (hfunded.other hfunded.registry rfl rfl rfl)
  | vote juror disputeId forWork d' hvote hopen =>
      exact solvent_of_done hunder rfl rfl (hfunded.other hfunded.registry rfl rfl rfl)
  | finalize sender disputeId hopened hopen =>
      refine solvent_of_done hunder rfl (by simp) ?_
      exact hfunded.other hfunded.registry rfl (by simp)
        (by simp)
  | commit sender epochId workId amount hrest hregistered hfresh hfit hfunds =>
      -- The aggregator is not among the nested callers, so no release is under way.
      have hframes : c.frames = [] := by
        simpa [Config.pending] using hrest
      have hdue : due = 0 := by
        rw [hframes] at hunder
        cases hunder
        rfl
      subst hdue
      refine solvent_of_done hunder rfl (by simp) ?_
      exact hfunded.commit hfresh hfit hfunds
  | challenge sender epochId escrowedWork challengerWork self out hne hcommitted hreleased
      hcontent hopen =>
      refine solvent_of_done hunder rfl (by simp) ?_
      have hslot := hfunded.slots (epochId, escrowedWork)
      exact hfunded.rewrite_slot rfl ⟨hslot.live, hslot.released⟩ rfl rfl
  | reassign sender epochId escrowedWork hreleased hwins =>
      refine solvent_of_done hunder rfl (by simp) ?_
      exact hfunded.reassign
  | keep sender epochId escrowedWork hreleased =>
      refine solvent_of_done hunder rfl (by simp) ?_
      have hslot := hfunded.slots (epochId, escrowedWork)
      exact hfunded.rewrite_slot rfl ⟨hslot.live, hslot.released⟩ rfl rfl
  | release sender epochId workId s hstatus hmature hpayees hamount hsend =>
      rcases hunder.due_of_rest hstatus with ⟨hframes, rfl⟩
      have hready : (CWEEscrow.payment c.world.registry c.world.escrow epochId workId).Ready :=
        Payment.start_ready (hfunded.registry.payable_of_payees hpayees) _
      have hpaid := Payment.send_ok hready hsend
      have hvalue : s.payment.remaining + s.value = (c.world.slot epochId workId).amount :=
        hpaid.value
      rw [hframes]
      refine ⟨s.payment.remaining, ?_,
        hfunded.release hamount hmature.committed hpaid.balance hvalue⟩
      have hsame : s.payment.amount = (c.world.slot epochId workId).amount := by
        rw [hpaid.same]
        rfl
      have hwide := hfunded.wide
      refine .paying ⟨c.world, s.payment⟩ rfl hpaid.sent (by dsimp only; omega) ?_ ?_
      · rw [hpaid.same]
        rfl
      · simp only [Config.enter_some, paidIn_append, paidIn_cons, paidIn_nil, Entry.paidOut]
        omega

theorem solvent_resume {c : Config World Payment} {f : Frame World Payment}
    {fs : List (Frame World Payment)} {out : World × Option Payment} (hc : Solvent c)
    (hframes : c.frames = f :: fs) (h : c.world.resume f.pending = .ok out) :
    Solvent (Config.enter f.snapshot fs out) := by
  rcases hc with ⟨due, hunder, hfunded⟩
  rw [hframes] at hunder
  cases hunder with
  | paying _ hstatus hsent hwide hslot hpaid =>
      rcases resume_cases h with ⟨hlast, rfl⟩ | ⟨q, s, hnext, hsend, rfl⟩
      · -- The last payee has returned: nothing is due.
        rw [hsent.remaining_of_last hlast] at hfunded
        exact ⟨0, .rest rfl, hfunded.registry, hfunded.liability, hfunded.wide, hfunded.slots,
          hfunded.covered, hfunded.conserved⟩
      · rcases hsent.advance hnext with ⟨hready, rfl, hdue⟩
        have hturn := Payment.send_ok hready hsend
        have hvalue : s.payment.remaining + s.value = f.pending.remaining := by
          rw [← hdue]
          exact hturn.value
        refine ⟨s.payment.remaining, ?_, hfunded.pay hturn.balance hvalue⟩
        have hsame : s.payment.amount = f.pending.amount := by
          rw [hturn.same]
        refine .paying ⟨f.snapshot, s.payment⟩ hstatus hturn.sent (by dsimp only; omega) ?_ ?_
        · rw [hturn.same]
          exact hslot
        · simp only [Config.enter_some, paidIn_append, paidIn_cons, paidIn_nil, Entry.paidOut]
          omega

/-! ## Every run -/

theorem solvent_init (d : Deployment) : Solvent (Config.init (World.init d)) := by
  refine ⟨0, .rest rfl, ?_⟩
  refine ⟨CWERegistry.init_wellFormed _, Totals.zero, Nat.two_pow_pos 256, ?_, Nat.le_refl 0, rfl⟩
  intro k
  exact Escrow.default_live

theorem solvent_run (d : Deployment) (acts : List (Action Input)) :
    Solvent ((escrowSystem d).run (World.init d) acts) := by
  refine Machine.run_inv (solvent_init d) ?_ ?_ acts
  · intro c k out hc hallowed hout
    exact solvent_call hc (effect_of_call hallowed hout)
  · intro c f fs out hc hframes hout
    exact solvent_resume hc hframes hout

/-- The accounts of the escrow in every reachable state: the liability is the sum of the slots,
money sits only in live slots, a transaction boundary is solvent and has lost nothing, and a
release that completes has paid what its slot held when it started. -/
theorem escrow_accounts (d : Deployment) (acts : List (Action Input)) :
    let c := (escrowSystem d).run (World.init d) acts
    Totals c.world.escrow.amounts c.world.escrow.liability ∧
      (∀ epochId workId, 0 < (c.world.slot epochId workId).amount →
        (c.world.slot epochId workId).committed = true ∧
          (c.world.slot epochId workId).released = false) ∧
      (c.AtRest → c.world.escrow.liability ≤ c.world.escrow.balance ∧
        committedIn c.world.history = paidIn c.world.history + c.world.escrow.liability) ∧
      ∀ f fs w', c.frames = f :: fs → c.world.resume f.pending = .ok (w', none) →
        paidIn w'.history = paidIn f.snapshot.history +
          (f.snapshot.slot f.pending.epochId f.pending.workId).amount := by
  intro c
  rcases solvent_run d acts with ⟨due, hunder, hfunded⟩
  refine ⟨hfunded.liability, ?_, ?_, ?_⟩
  · intro epochId workId
    exact (hfunded.slots (epochId, workId)).live
  · intro hrest
    have hdue : due = 0 := by
      rw [show ((escrowSystem d).run (World.init d) acts).frames = [] from hrest] at hunder
      cases hunder
      rfl
    subst hdue
    exact ⟨hfunded.covered, hfunded.conserved⟩
  · intro f fs w' hframes hresume
    rw [show ((escrowSystem d).run (World.init d) acts).frames = f :: fs from hframes] at hunder
    cases hunder with
    | paying _ hstatus hsent hwide hslot hpaid =>
        rcases resume_cases hresume with ⟨hlast, heq⟩ | ⟨q, s, -, -, heq⟩
        · cases heq
          rw [hsent.remaining_of_last hlast] at hpaid
          rw [← hslot]
          exact hpaid
        · cases heq

end Contracts
end CleanWeb
