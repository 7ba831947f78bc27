import CleanWeb.Contracts.Registry
import CleanWeb.Lib.ProportionalShare

/-!
# The pay loop of `CWEEscrow.release` and `CWEPayouts.withdraw`

Both functions end in the same loop over the payees: a floored share for each, the remainder for
the last.  The loop stops at every transfer to run the payee, so one turn is a function of its
own; `Ready` is its invariant before a transfer and `Sent` while the payee runs.
-/

namespace CleanWeb
namespace Contracts

open Lib Lib.Exec Lib.ProportionalShare

/-- The loop's variables, with the credit that is being paid. -/
structure Payment where
  epochId : Nat
  workId : Bytes32
  payees : List Address
  splits : List Nat
  amount : Nat
  distributed : Nat
  i : Nat
  deriving DecidableEq, Repr

/-- `ReentrancyGuard._status`. -/
inductive GuardStatus where
  | notEntered
  | entered
  deriving DecidableEq, Repr

/-- The entry half of `nonReentrant`. -/
def nonReentrant (status : GuardStatus) : Exec Revert GuardStatus :=
  if status = .entered then fail .reentrantCall else pure .entered

namespace Payment

open CWERegistry

def start (epochId : Nat) (workId : Bytes32) (payees : List Address) (splits : List Nat)
    (amount : Nat) : Payment :=
  ⟨epochId, workId, payees, splits, amount, 0, 0⟩

/-- The share of `payees[i]` and the amount distributed with it. -/
def share (p : Payment) : Exec Revert (Nat × Nat) :=
  if p.i = p.payees.length - 1 then do
    let share ← subU p.amount p.distributed
    pure (share, p.distributed)
  else
    match p.splits[p.i]? with
    | none => panics
    | some split => do
        let product ← mulU 256 p.amount split
        let share := product / ppmTotal
        let distributed ← addU 256 p.distributed share
        pure (share, distributed)

/-- What a transfer leaves: the balance, the waiting loop, and who got how much. -/
structure Sending where
  balance : Nat
  payment : Payment
  payee : Address
  value : Nat
  deriving DecidableEq, Repr

/-- One turn up to `payees[i].call{value: share}("")`, which fails at once on a short balance. -/
def send (balance : Nat) (p : Payment) : Exec Revert Sending :=
  match p.payees[p.i]? with
  | none => panics
  | some payee => do
      let out ← p.share
      if balance < out.1 then fail (.payoutFailed payee)
      else pure ⟨balance - out.1, { p with distributed := out.2 }, payee, out.1⟩

/-- `i++`, and the turn after it if there is one. -/
def advance (p : Payment) : Option Payment :=
  if p.i + 1 < p.payees.length then some { p with i := p.i + 1 } else none

/-! ## The invariant of the loop -/

/-- The shares of the first `k` payees. -/
def firstShares (p : Payment) (k : Nat) : Nat :=
  (floors p.amount ppmTotal (p.splits.take k)).sum

/-- The payees and splits are those of a registered work, and the index is in range. -/
structure Loaded (p : Payment) : Prop where
  lengths : p.splits.length = p.payees.length
  full : p.splits.sum = ppmTotal
  index : p.i < p.payees.length

/-- Before the transfer of turn `i`. -/
structure Ready (p : Payment) : Prop extends Loaded p where
  distributed : p.distributed = p.firstShares p.i

/-- While `payees[i]` runs. -/
structure Sent (p : Payment) : Prop extends Loaded p where
  distributed : p.distributed = p.firstShares (min (p.i + 1) (p.payees.length - 1))

/-- What is still to be sent while `payees[i]` runs. -/
def remaining (p : Payment) : Nat :=
  if p.i + 1 = p.payees.length then 0 else p.amount - p.distributed

/-- The product formed in this turn, if one is, fits in a word. -/
def Fits (p : Payment) : Prop :=
  p.i + 1 < p.payees.length → ∀ split, p.splits[p.i]? = some split → p.amount * split < 2 ^ 256

theorem firstShares_le {p : Payment} (h : p.splits.sum = ppmTotal) (k : Nat) :
    p.firstShares k ≤ p.amount := by
  have hall : (floors p.amount ppmTotal p.splits).sum ≤ p.amount :=
    sum_floors_le (by decide : 0 < ppmTotal) h
  have hsplit : (floors p.amount ppmTotal p.splits).sum =
      p.firstShares k + (floors p.amount ppmTotal (p.splits.drop k)).sum := by
    rw [firstShares, ← List.sum_append, ← floors_append, List.take_append_drop]
  omega

theorem firstShares_succ {p : Payment} {k split : Nat} (h : p.splits[k]? = some split) :
    p.firstShares (k + 1) = p.firstShares k + p.amount * split / ppmTotal := by
  rw [firstShares, firstShares, List.take_add_one, h, floors_append, List.sum_append]
  simp [floors]

theorem start_ready {epochId : Nat} {workId : Bytes32} {w : Work} (hw : CWERegistry.Payable w)
    (amount : Nat) : Ready (start epochId workId w.payees w.splits amount) :=
  ⟨⟨hw.lengths, hw.full, List.length_pos_iff.2 hw.nonempty⟩, by simp [start, firstShares, floors]⟩

/-- The next turn starts where this one stopped. -/
theorem Sent.advance {p q : Payment} (h : Sent p) (hq : p.advance = some q) :
    Ready q ∧ q = { p with i := p.i + 1 } ∧ q.amount - q.distributed = p.remaining := by
  unfold Payment.advance at hq
  split at hq
  · rename_i hmore
    cases hq
    have hmin : min (p.i + 1) (p.payees.length - 1) = p.i + 1 := by omega
    refine ⟨⟨⟨h.lengths, h.full, hmore⟩, ?_⟩, rfl, ?_⟩
    · have hdist := h.distributed
      rwa [hmin] at hdist
    · rw [remaining, if_neg (by omega)]
  · cases hq

theorem Sent.remaining_of_last {p : Payment} (h : Sent p) (hq : p.advance = none) :
    p.remaining = 0 := by
  unfold Payment.advance at hq
  split at hq
  · cases hq
  · have hindex := h.index
    rw [remaining, if_pos (by omega)]

/-- Every product of a credit below `2 ^ 236` fits: no split exceeds the whole. -/
theorem Loaded.fits {p : Payment} (h : Loaded p) (hamount : p.amount < 2 ^ 236) : p.Fits := by
  intro _ split hsplit
  have hmem : split ∈ p.splits := List.mem_of_getElem? hsplit
  have hle : split ≤ ppmTotal := by
    rw [← h.full]
    exact List.le_sum_of_mem hmem
  calc
    p.amount * split ≤ p.amount * ppmTotal := Nat.mul_le_mul_left _ hle
    _ ≤ 2 ^ 236 * ppmTotal := Nat.mul_le_mul_right _ hamount.le
    _ < 2 ^ 256 := by decide

/-! ## One transfer -/

/-- What a turn has done when its payee runs. -/
structure Paid (balance : Nat) (p : Payment) (s : Sending) : Prop where
  sent : Sent s.payment
  same : s.payment = { p with distributed := s.payment.distributed }
  balance : s.balance + s.value = balance
  value : s.payment.remaining + s.value = p.amount - p.distributed

theorem share_ok {p : Payment} (h : Ready p) {out : Nat × Nat} (hout : p.share = .ok out) :
    Sent { p with distributed := out.2 } ∧
      remaining { p with distributed := out.2 } + out.1 = p.amount - p.distributed := by
  have hindex := h.index
  unfold share at hout
  split at hout
  · -- The last payee takes what is left.
    rename_i hlast
    rcases bind_eq_ok.1 hout with ⟨value, hsub, hpure⟩
    cases hpure
    rcases subU_eq_ok.1 hsub with ⟨hle, rfl⟩
    have hmin : min (p.i + 1) (p.payees.length - 1) = p.i := by omega
    refine ⟨⟨h.toLoaded, ?_⟩, ?_⟩
    · change p.distributed = p.firstShares (min (p.i + 1) (p.payees.length - 1))
      rw [hmin]
      exact h.distributed
    · rw [remaining, if_pos (show p.i + 1 = p.payees.length by omega)]
      omega
  · rename_i hearlier
    split at hout
    · cases hout
    · rename_i split hsplit
      rcases bind_eq_ok.1 hout with ⟨product, hmul, hout⟩
      rcases bind_eq_ok.1 hout with ⟨distributed, hadd, hpure⟩
      cases hpure
      rcases mulU_eq_ok.1 hmul with ⟨-, rfl⟩
      rcases addU_eq_ok.1 hadd with ⟨-, rfl⟩
      have hmin : min (p.i + 1) (p.payees.length - 1) = p.i + 1 := by omega
      have hsucc := firstShares_succ hsplit
      have hle := firstShares_le h.full (p.i + 1)
      have hdist := h.distributed
      refine ⟨⟨⟨h.lengths, h.full, h.index⟩, ?_⟩, ?_⟩
      · change p.distributed + p.amount * split / ppmTotal =
          p.firstShares (min (p.i + 1) (p.payees.length - 1))
        rw [hmin, hsucc, hdist]
      · rw [remaining, if_neg (show ¬ p.i + 1 = p.payees.length by omega)]
        dsimp only
        generalize p.amount * split / ppmTotal = share at hsucc ⊢
        omega

theorem send_ok {balance : Nat} {p : Payment} (h : Ready p) {s : Sending}
    (hs : send balance p = .ok s) : Paid balance p s := by
  unfold send at hs
  split at hs
  · cases hs
  rcases bind_eq_ok.1 hs with ⟨out, hshare, hs⟩
  split at hs
  · cases hs
  rename_i henough
  cases hs
  rcases share_ok h hshare with ⟨hsent, hvalue⟩
  exact ⟨hsent, rfl, by dsimp only; omega, hvalue⟩

/-- With the money there, a turn stops only on a product that leaves its word. -/
theorem exists_send_iff {balance : Nat} {p : Payment} (h : Ready p) (hwide : p.amount < 2 ^ 256)
    (hmoney : p.amount - p.distributed ≤ balance) :
    (∃ s, send balance p = .ok s) ↔ p.Fits := by
  have hindex := h.index
  have hpayee : p.payees[p.i]? = some p.payees[p.i] := List.getElem?_eq_getElem hindex
  constructor
  · rintro ⟨s, hs⟩ hearlier split hsplit
    unfold send at hs
    rw [hpayee] at hs
    rcases bind_eq_ok.1 hs with ⟨out, hshare, -⟩
    unfold share at hshare
    rw [if_neg (by omega), hsplit] at hshare
    rcases bind_eq_ok.1 hshare with ⟨product, hmul, -⟩
    exact (mulU_eq_ok.1 hmul).1
  · intro hfits
    have hdist := h.distributed
    have hle := firstShares_le h.full p.i
    have hshare : ∃ out, p.share = .ok out ∧ out.1 ≤ p.amount - p.distributed := by
      unfold share
      by_cases hlast : p.i = p.payees.length - 1
      · refine ⟨(p.amount - p.distributed, p.distributed), ?_, Nat.le_refl _⟩
        rw [if_pos hlast, subU, if_pos (by omega)]
        rfl
      · have hlt : p.i < p.splits.length := by
          rw [h.lengths]
          exact hindex
        have hsplit : p.splits[p.i]? = some p.splits[p.i] := List.getElem?_eq_getElem hlt
        have hproduct := hfits (by omega) _ hsplit
        have hsucc := firstShares_succ hsplit
        have hnext := firstShares_le h.full (p.i + 1)
        have hsum : p.distributed + p.amount * p.splits[p.i] / ppmTotal < 2 ^ 256 := by
          omega
        refine ⟨(p.amount * p.splits[p.i] / ppmTotal,
          p.distributed + p.amount * p.splits[p.i] / ppmTotal), ?_, ?_⟩
        · rw [if_neg hlast, hsplit]
          simp only [mulU, if_pos hproduct, ok_bind, addU, if_pos hsum]
          rfl
        · dsimp only
          omega
    rcases hshare with ⟨out, hout, hvalue⟩
    refine ⟨⟨balance - out.1, { p with distributed := out.2 }, p.payees[p.i], out.1⟩, ?_⟩
    unfold send
    rw [hpayee]
    simp only [hout, ok_bind]
    rw [if_neg (by omega)]
    rfl

end Payment
end Contracts
end CleanWeb
