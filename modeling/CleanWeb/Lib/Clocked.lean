import Mathlib.Data.List.Induction
import CleanWeb.Lib.Exec

/-!
# Clocked — transactions, the time, and the calls that went through

A contract whose calls depend on the time: a call that fails is undone, and time only passes
between calls.  It names no program.

* `run`: the storage and the time after a list of transactions;
* `log`: the calls of the run that went through, each with the state that it was made in;
* `run_inv`: what every call that goes through and every wait keeps, of the run and its log;
* `run_related`: two runs of which the second leaves some transactions out.
-/

namespace CleanWeb
namespace Lib

variable {σ α κ ε : Type}

/-- A storage and the time. -/
structure Clocked (σ : Type) where
  timestamp : Nat
  state : σ

/-- What happens next: time passes, or somebody makes a call. -/
inductive Tx (α κ : Type) where
  | elapse (seconds : Nat)
  | call (sender : α) (k : κ)
  deriving DecidableEq, Repr

/-- A call that went through, with what it found. -/
structure Accepted (σ α κ : Type) where
  before : Clocked σ
  sender : α
  call : κ

namespace Clocked

section Defs

variable (exec : Nat → σ → α → κ → Exec ε σ)

/-- One transaction.  What fails is undone. -/
def next (c : Clocked σ) : Tx α κ → Clocked σ
  | .elapse seconds => { c with timestamp := c.timestamp + seconds }
  | .call sender k =>
      match exec c.timestamp c.state sender k with
      | .ok state => { c with state := state }
      | .error _ => c

def run (c : Clocked σ) (txs : List (Tx α κ)) : Clocked σ :=
  txs.foldl (next exec) c

/-- The call of a transaction, if it is one and goes through. -/
def accepted (c : Clocked σ) : Tx α κ → List (Accepted σ α κ)
  | .elapse _ => []
  | .call sender k =>
      match exec c.timestamp c.state sender k with
      | .ok _ => [⟨c, sender, k⟩]
      | .error _ => []

/-- The calls that went through, in order. -/
def log (c : Clocked σ) : List (Tx α κ) → List (Accepted σ α κ)
  | [] => []
  | tx :: txs => accepted exec c tx ++ log (next exec c tx) txs

end Defs

variable {exec : Nat → σ → α → κ → Exec ε σ} {c : Clocked σ} {txs : List (Tx α κ)}

@[simp] theorem run_nil : run exec c [] = c := rfl

@[simp] theorem log_nil : log exec c [] = [] := rfl

theorem run_cons (tx : Tx α κ) : run exec c (tx :: txs) = run exec (next exec c tx) txs := rfl

theorem run_append (more : List (Tx α κ)) :
    run exec c (txs ++ more) = run exec (run exec c txs) more := by
  rw [run, List.foldl_append]
  rfl

theorem run_append_singleton (tx : Tx α κ) :
    run exec c (txs ++ [tx]) = next exec (run exec c txs) tx :=
  run_append [tx]

theorem log_append (more : List (Tx α κ)) :
    log exec c (txs ++ more) = log exec c txs ++ log exec (run exec c txs) more := by
  induction txs generalizing c with
  | nil => rfl
  | cons tx txs ih =>
      change accepted exec c tx ++ log exec (next exec c tx) (txs ++ more) = _
      rw [ih, ← List.append_assoc]
      rfl

theorem log_append_singleton (tx : Tx α κ) :
    log exec c (txs ++ [tx]) = log exec c txs ++ accepted exec (run exec c txs) tx := by
  rw [log_append]
  simp [log]

@[simp] theorem next_elapse (seconds : Nat) :
    next exec c (.elapse seconds) = ⟨c.timestamp + seconds, c.state⟩ := rfl

@[simp] theorem accepted_elapse (seconds : Nat) : accepted exec c (.elapse seconds) = [] := rfl

section Call

variable {sender : α} {k : κ} {state : σ} {e : Trap ε}

theorem next_ok (h : exec c.timestamp c.state sender k = .ok state) :
    next exec c (.call sender k) = ⟨c.timestamp, state⟩ := by
  simp only [next, h]

theorem next_error (h : exec c.timestamp c.state sender k = .error e) :
    next exec c (.call sender k) = c := by
  simp only [next, h]

theorem accepted_ok (h : exec c.timestamp c.state sender k = .ok state) :
    accepted exec c (.call sender k) = [⟨c, sender, k⟩] := by
  simp only [accepted, h]

theorem accepted_error (h : exec c.timestamp c.state sender k = .error e) :
    accepted exec c (.call sender k) = [] := by
  simp only [accepted, h]

end Call

theorem accepted_mem {tx : Tx α κ} {e : Accepted σ α κ} (h : e ∈ accepted exec c tx) :
    tx = .call e.sender e.call := by
  cases tx with
  | elapse seconds => cases h
  | call sender k =>
      cases hexec : exec c.timestamp c.state sender k with
      | ok state =>
          rw [accepted_ok hexec, List.mem_singleton] at h
          rw [h]
      | error e' =>
          rw [accepted_error hexec] at h
          cases h

/-- What went through was sent. -/
theorem call_mem_of_mem_log {e : Accepted σ α κ} (h : e ∈ log exec c txs) :
    .call e.sender e.call ∈ txs := by
  induction txs generalizing c with
  | nil => cases h
  | cons tx txs ih =>
      rcases List.mem_append.1 h with h | h
      · rw [accepted_mem h]
        exact List.mem_cons_self
      · exact List.mem_cons_of_mem _ (ih h)

/-- What holds at the start, and is kept by a wait and by every call that goes through. -/
theorem run_inv {P : List (Accepted σ α κ) → Clocked σ → Prop} (h0 : P [] c)
    (helapse : ∀ calls d seconds, P calls d → P calls ⟨d.timestamp + seconds, d.state⟩)
    (hcall : ∀ calls d sender k state, P calls d →
      exec d.timestamp d.state sender k = .ok state →
        P (calls ++ [⟨d, sender, k⟩]) ⟨d.timestamp, state⟩)
    (txs : List (Tx α κ)) : P (log exec c txs) (run exec c txs) := by
  induction txs using List.reverseRecOn with
  | nil => exact h0
  | append_singleton txs tx ih =>
      rw [log_append_singleton, run_append_singleton]
      cases tx with
      | elapse seconds =>
          rw [accepted_elapse, List.append_nil]
          exact helapse _ _ seconds ih
      | call sender k =>
          cases h : exec (run exec c txs).timestamp (run exec c txs).state sender k with
          | ok state =>
              rw [accepted_ok h, next_ok h]
              exact hcall _ _ sender k state ih h
          | error e =>
              rw [accepted_error h, next_error h, List.append_nil]
              exact ih

/-- What holds of the storage whatever its past. -/
theorem run_state_inv {P : σ → Prop} (h0 : P c.state)
    (hcall : ∀ timestamp s sender k s', P s → exec timestamp s sender k = .ok s' → P s')
    (txs : List (Tx α κ)) : P (run exec c txs).state :=
  run_inv (P := fun _ d => P d.state) h0 (fun _ _ _ h => h)
    (fun _ d sender k state h hok => hcall d.timestamp d.state sender k state h hok) txs

/-! ## Leaving transactions out -/

/-- The transactions that `drop` does not take out. -/
def without (drop : Tx α κ → Bool) (txs : List (Tx α κ)) : List (Tx α κ) :=
  txs.filter fun tx => !drop tx

section Without

variable {drop : Tx α κ → Bool}

theorem without_append (more : List (Tx α κ)) :
    without drop (txs ++ more) = without drop txs ++ without drop more := by
  rw [without, without, without, List.filter_append]

theorem without_of_dropped {tx : Tx α κ} (h : drop tx = true) : without drop [tx] = [] := by
  simp [without, h]

theorem without_of_kept {tx : Tx α κ} (h : drop tx = false) : without drop [tx] = [tx] := by
  simp [without, h]

theorem without_eq_self (h : ∀ tx ∈ txs, drop tx = false) : without drop txs = txs := by
  refine List.filter_eq_self.2 ?_
  intro tx htx
  rw [h tx htx]
  rfl

/-- Two runs of which the second leaves transactions out stay related, if a transaction left out
keeps the relation where the calls it makes are allowed, and a transaction of both keeps it. -/
theorem run_related {R : Clocked σ → Clocked σ → Prop} {H : Accepted σ α κ → Prop} (h0 : R c c)
    (hdropped : ∀ d d' tx, R d d' → drop tx = true → (∀ e ∈ accepted exec d tx, H e) →
      R (next exec d tx) d')
    (hkept : ∀ d d' tx, R d d' → drop tx = false → R (next exec d tx) (next exec d' tx))
    (txs : List (Tx α κ)) (hall : ∀ e ∈ log exec c txs, H e) :
    R (run exec c txs) (run exec c (without drop txs)) := by
  induction txs using List.reverseRecOn with
  | nil => exact h0
  | append_singleton txs tx ih =>
      rw [log_append_singleton] at hall
      have hR := ih fun e he => hall e (List.mem_append_left _ he)
      rw [run_append_singleton, without_append]
      cases hdrop : drop tx with
      | true =>
          rw [without_of_dropped hdrop, List.append_nil]
          exact hdropped _ _ tx hR hdrop fun e he => hall e (List.mem_append_right _ he)
      | false =>
          rw [without_of_kept hdrop, run_append_singleton]
          exact hkept _ _ tx hR hdrop

end Without

end Clocked
end Lib
end CleanWeb
