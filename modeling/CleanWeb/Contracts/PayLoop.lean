import CleanWeb.Contracts.Escrow
import CleanWeb.Contracts.Payouts

/-!
# The whole pay loop

`transfers` runs the loop of `CWEPayouts.withdraw` and `CWEEscrow.release` from the first payee's
code to the end, with ETH coming in meanwhile.  `transfers_ok` is its loop invariant: every payee
gets what `due` says, and nothing traps.  `Dispersed` says what the payees have then.
-/

namespace CleanWeb
namespace Contracts

open Lib Lib.Exec Lib.ProportionalShare

namespace Payment

open CWERegistry

/-- What the payee of turn `k` gets: a floored share, or for the last one what is left. -/
def due (p : Payment) (k : Nat) : Nat :=
  if k + 1 = p.payees.length then p.amount - p.firstShares k
  else p.amount * p.splits.getD k 0 / ppmTotal

/-- Turn `k` of the loop. -/
def entry (p : Payment) (k : Nat) : Address × Nat :=
  (p.payees.getD k 0, p.due k)

theorem send_payee {balance : Nat} {p : Payment} {s : Sending} (hs : send balance p = .ok s) :
    p.payees[p.i]? = some s.payee := by
  unfold send at hs
  split at hs
  · cases hs
  rename_i payee hpayee
  rcases bind_eq_ok.1 hs with ⟨out, -, hs⟩
  split at hs
  · cases hs
  cases hs
  exact hpayee

/-- What the turns of `p'` share with those of `p`: only what was distributed may differ. -/
structure Keeps (p p' : Payment) : Prop where
  payees : p'.payees = p.payees
  splits : p'.splits = p.splits
  amount : p'.amount = p.amount
  i : p'.i = p.i
  entry : p'.entry = p.entry

theorem keeps_distributed (p : Payment) (distributed : Nat) :
    Keeps p { p with distributed := distributed } :=
  ⟨rfl, rfl, rfl, rfl, rfl⟩

theorem send_keeps {balance : Nat} {p : Payment} (h : Ready p) {s : Sending}
    (hs : send balance p = .ok s) : Keeps p s.payment := by
  rw [(send_ok h hs).same]
  apply keeps_distributed

/-- A transfer carries out its turn. -/
theorem send_entry {balance : Nat} {p : Payment} (h : Ready p) {s : Sending}
    (hs : send balance p = .ok s) : (s.payee, s.value) = s.payment.entry s.payment.i := by
  have hpaid := send_ok h hs
  have hkeeps := send_keeps h hs
  have hsent := hpaid.sent.distributed
  have hvalue := hpaid.value
  have hdist := h.distributed
  rw [hkeeps.entry, hkeeps.i]
  rw [hpaid.same] at hsent hvalue
  refine Prod.ext ?_ ?_
  · simp [entry, List.getD_eq_getElem?_getD, send_payee hs]
  change s.value = p.due p.i
  unfold due
  split
  · rename_i hlast
    rw [remaining, if_pos hlast, Nat.zero_add, hdist] at hvalue
    exact hvalue
  · rename_i hearlier
    have hlt : p.i < p.splits.length := by
      rw [h.lengths]
      exact h.index
    have hsplit : p.splits[p.i]? = some (p.splits.getD p.i 0) := by
      simp [hlt]
    have hmin : min (p.i + 1) (p.payees.length - 1) = p.i + 1 := by
      have hindex := h.index
      omega
    have hle := firstShares_le h.full (p.i + 1)
    have hsucc := firstShares_succ hsplit
    dsimp only at hsent
    change s.payment.distributed = p.firstShares (min (p.i + 1) (p.payees.length - 1)) at hsent
    rw [hmin] at hsent
    rw [remaining, if_neg hearlier] at hvalue
    dsimp only at hvalue
    generalize p.amount * p.splits.getD p.i 0 / ppmTotal = share at hsucc ⊢
    omega

/-! ## The loop -/

/-- A contract's side of the loop: the ETH it holds, and what it does when a payee returns. -/
structure Payer (σ : Type) where
  balance : σ → Nat
  receive : σ → Nat → σ
  returned : σ → Payment → Exec Revert (σ × Option Sending)
  balance_receive : ∀ st value, balance (receive st value) = balance st + value
  returned_last : ∀ st p, p.advance = none → ∃ st', returned st p = .ok (st', none)
  returned_next : ∀ st p q s, p.advance = some q → send (balance st) q = .ok s →
    ∃ st', returned st p = .ok (st', some s) ∧ balance st' = s.balance

namespace Payer

variable {σ : Type} (d : Payer σ) (incoming : Nat → Nat)

/-- The loop from the code of the payee of `s` on, in at most `turns` turns; `incoming i` arrives
while `payees[i]` runs. -/
def transfers : Nat → σ → Sending → Exec Revert (σ × List (Address × Nat))
  | 0, _, _ => panics
  | turns + 1, st, s => do
      let out ← d.returned (d.receive st (incoming s.payment.i)) s.payment
      match out.2 with
      | none => pure (out.1, [(s.payee, s.value)])
      | some s' => do
          let rest ← transfers turns out.1 s'
          pure (rest.1, (s.payee, s.value) :: rest.2)

variable {d incoming}

/-- While `payees[i]` runs and the rest of the amount is there, the loop pays the rest. -/
theorem transfers_ok {turns : Nat} {st : σ} {s : Sending} (h : Sent s.payment)
    (hs : (s.payee, s.value) = s.payment.entry s.payment.i) (hfits : s.payment.amount < 2 ^ 236)
    (hmoney : s.payment.remaining ≤ d.balance st)
    (hturns : s.payment.payees.length ≤ s.payment.i + turns) :
    ∃ st', d.transfers incoming turns st s =
      .ok (st', (List.range' s.payment.i (s.payment.payees.length - s.payment.i)).map
        s.payment.entry) := by
  induction turns generalizing st s with
  | zero =>
      have hindex := h.index
      omega
  | succ turns ih =>
      have hindex := h.index
      have hcount : s.payment.payees.length - s.payment.i =
          (s.payment.payees.length - (s.payment.i + 1)) + 1 := by
        omega
      rw [hcount, List.range'_succ, List.map_cons, ← hs]
      have hmore : s.payment.remaining ≤ d.balance (d.receive st (incoming s.payment.i)) := by
        rw [d.balance_receive]
        exact hmoney.trans (Nat.le_add_right _ _)
      cases hnext : s.payment.advance with
      | none =>
          have hlast : s.payment.payees.length - (s.payment.i + 1) = 0 := by
            unfold Payment.advance at hnext
            split at hnext
            · cases hnext
            · omega
          rcases d.returned_last (d.receive st (incoming s.payment.i)) _ hnext with ⟨st', hst'⟩
          refine ⟨st', ?_⟩
          rw [hlast, transfers, hst']
          rfl
      | some q =>
          rcases h.advance hnext with ⟨hready, hq, hleft⟩
          have hamount : q.amount = s.payment.amount := by
            rw [hq]
          have hentry : q.entry = s.payment.entry := by
            rw [hq]
            rfl
          rw [← hleft] at hmore
          have hwide : q.amount < 2 ^ 256 := (hamount ▸ hfits).trans (by decide)
          rcases (exists_send_iff hready hwide hmore).2 (hready.fits (hamount ▸ hfits)) with
            ⟨s', hsend⟩
          rcases d.returned_next _ _ _ _ hnext hsend with ⟨st', hst', hbalance⟩
          have hpaid := send_ok hready hsend
          -- The new turn is of the same payment, one payee on.
          have hkeeps := send_keeps hready hsend
          have hi : s'.payment.i = s.payment.i + 1 := by
            rw [hkeeps.i, hq]
          have hpayees : s'.payment.payees = s.payment.payees := by
            rw [hkeeps.payees, hq]
          have hfits' : s'.payment.amount < 2 ^ 236 := by
            rw [hkeeps.amount, hamount]
            exact hfits
          have hmoney' : s'.payment.remaining ≤ d.balance st' := by
            have hbal := hpaid.balance
            have hvalue := hpaid.value
            omega
          have hturns' : s'.payment.payees.length ≤ s'.payment.i + turns := by
            rw [hpayees, hi]
            omega
          rcases ih hpaid.sent (send_entry hready hsend) hfits' hmoney' hturns' with
            ⟨final, hrest⟩
          rw [hi, hpayees, hkeeps.entry, hentry] at hrest
          refine ⟨final, ?_⟩
          rw [transfers, hst', ok_bind]
          simp only [hrest, ok_bind]
          rfl

end Payer

/-! ## What the payees have -/

theorem sum_due {p : Payment} (h : Loaded p) {k : Nat} (hk : k < p.payees.length) :
    ((List.range k).map p.due).sum = p.firstShares k := by
  induction k with
  | zero => simp [firstShares, floors]
  | succ k ih =>
      have hlt : k < p.splits.length := by
        rw [h.lengths]
        omega
      have hsplit : p.splits[k]? = some (p.splits.getD k 0) := by
        simp [hlt]
      have hdue : p.due k = p.amount * p.splits.getD k 0 / ppmTotal :=
        if_neg (Nat.ne_of_lt hk)
      rw [List.range_succ, List.map_append, List.sum_append, ih (by omega), firstShares_succ hsplit,
        List.map_singleton, List.sum_singleton, hdue]

end Payment

/-- What `paid` says was paid is the whole of `amount`: the floored share to all payees but the
last, and to the last at least that, and less than one unit more for each payee. -/
structure Dispersed (payees : List Address) (splits : List Nat) (amount : Nat)
    (paid : List (Address × Nat)) : Prop where
  recipients : paid.map Prod.fst = payees
  total : (paid.map Prod.snd).sum = amount
  floors : ∀ (i : Nat) (payee : Address) (value split : Nat), i + 1 < payees.length →
    paid[i]? = some (payee, value) → splits[i]? = some split →
      value = amount * split / CWERegistry.ppmTotal
  last : ∀ (i : Nat) (payee : Address) (value split : Nat), i + 1 = payees.length →
    paid[i]? = some (payee, value) → splits[i]? = some split →
      amount * split / CWERegistry.ppmTotal ≤ value ∧
        value < amount * split / CWERegistry.ppmTotal + payees.length

namespace Payment

open CWERegistry

theorem dispersed {p : Payment} (h : Loaded p) :
    Dispersed p.payees p.splits p.amount ((List.range p.payees.length).map p.entry) := by
  have hindex := h.index
  have hread : ∀ (i : Nat) (payee : Address) (value : Nat),
      ((List.range p.payees.length).map p.entry)[i]? = some (payee, value) → value = p.due i := by
    intro i payee value hi
    rw [List.getElem?_map] at hi
    rcases Option.map_eq_some_iff.1 hi with ⟨k, hk, hentry⟩
    rcases List.getElem?_eq_some_iff.1 hk with ⟨hlt, hk⟩
    rw [List.getElem_range] at hk
    subst hk
    exact (congrArg Prod.snd hentry).symm
  -- All turns but the last pay the floored shares, so the last pays what they leave.
  have hsplit : p.payees.length = (p.payees.length - 1) + 1 := by omega
  have hlast : p.due (p.payees.length - 1) = p.amount - p.firstShares (p.payees.length - 1) :=
    if_pos hsplit.symm
  have hle := firstShares_le h.full (p.payees.length - 1)
  refine ⟨?_, ?_, ?_, ?_⟩
  · rw [List.map_map]
    refine List.ext_getElem (by simp) ?_
    intro i _ hi
    simp [entry, List.getD_eq_getElem?_getD, hi]
  · have hsum := sum_due h (show p.payees.length - 1 < p.payees.length by omega)
    rw [List.map_map, hsplit, List.range_succ, List.map_append, List.sum_append]
    change ((List.range (p.payees.length - 1)).map p.due).sum + [p.due (p.payees.length - 1)].sum =
      p.amount
    rw [hsum, List.sum_singleton, hlast, Nat.add_sub_cancel' hle]
  · intro i payee value split hi hentry hshare
    rw [hread i payee value hentry, due, if_neg (Nat.ne_of_lt hi), List.getD_eq_getElem?_getD,
      hshare, Option.getD_some]
  · intro i payee value split hi hentry hshare
    have hidx : i = p.payees.length - 1 := by omega
    rw [hread i payee value hentry, hidx, hlast]
    rw [hidx] at hshare
    have hall := firstShares_le h.full (p.payees.length - 1 + 1)
    have hstep := firstShares_succ hshare
    have hwhole : p.firstShares (p.payees.length - 1 + 1) =
        (floors p.amount ppmTotal p.splits).sum := by
      rw [firstShares, ← hsplit, ← h.lengths, List.take_length]
    have hleft : p.amount - (floors p.amount ppmTotal p.splits).sum < p.splits.length :=
      leftover_lt_length (by decide) h.full
    rw [← hwhole, h.lengths] at hleft
    generalize p.amount * split / ppmTotal = share at hstep ⊢
    omega

/-- A loop that starts with the amount at hand pays all of it out. -/
theorem Payer.transfers_of_start {σ : Type} (d : Payer σ) (incoming : Nat → Nat) {p : Payment}
    {balance : Nat} (h : Ready p) (hi : p.i = 0) (hfits : p.amount < 2 ^ 236)
    (hmoney : p.amount ≤ balance) :
    ∃ s, send balance p = .ok s ∧ ∀ st, d.balance st = s.balance → ∃ st' paid,
      d.transfers incoming p.payees.length st s = .ok (st', paid) ∧
        Dispersed p.payees p.splits p.amount paid := by
  have hmoney' : p.amount - p.distributed ≤ balance := (Nat.sub_le _ _).trans hmoney
  have hwide : p.amount < 2 ^ 256 := hfits.trans (by decide)
  rcases (exists_send_iff h hwide hmoney').2 (h.fits hfits) with ⟨s, hsend⟩
  refine ⟨s, hsend, ?_⟩
  intro st hst
  have hpaid := send_ok h hsend
  have hentry := send_entry h hsend
  have hbalance := hpaid.balance
  have hvalue := hpaid.value
  have hkeeps := send_keeps h hsend
  have hleft : s.payment.remaining ≤ d.balance st := by omega
  have hturns : s.payment.payees.length ≤ s.payment.i + p.payees.length := by
    rw [hkeeps.payees]
    exact Nat.le_add_left _ _
  rcases transfers_ok hpaid.sent hentry (hkeeps.amount ▸ hfits) hleft hturns with ⟨st', hrun⟩
  refine ⟨st', _, hrun, ?_⟩
  have hall := dispersed hpaid.sent.toLoaded
  rw [List.range_eq_range'] at hall
  rwa [hkeeps.i, hi, Nat.sub_zero, ← hkeeps.payees, ← hkeeps.splits, ← hkeeps.amount]

end Payment
end Contracts
end CleanWeb
