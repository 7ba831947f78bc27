import Mathlib.Data.List.Basic
import CleanWeb.Lib.Exec

/-!
# Script — fallible steps that are not undone

A script performs steps one after the other on a state and stops at the first that fails; what the
steps before have done stays.  An attempt may also be cut off from outside, after any number of
steps.  If the first step works only once, a script can be completed after any attempts exactly when
none of them got to perform it.
-/

namespace CleanWeb
namespace Lib

variable {σ τ ε : Type} (step : σ → τ → Exec ε σ)

/-- How the script ends, and the state it leaves. -/
def perform (s : σ) : List τ → Exec ε Unit × σ
  | [] => (.ok (), s)
  | t :: ts =>
      match step s t with
      | .ok s' => perform s' ts
      | .error e => (.error e, s)

/-- The state after an attempt that is cut off after `cut` steps. -/
def cutOff (ts : List τ) (s : σ) (cut : Nat) : σ :=
  (perform step s (ts.take cut)).2

/-- The state after a series of attempts. -/
def attempts (ts : List τ) (s : σ) (cuts : List Nat) : σ :=
  cuts.foldl (cutOff step ts) s

/-- `t` sets `done`, no step unsets it, and where it is set `t` fails with `e`. -/
structure OnceOnly (t : τ) (e : Trap ε) (done : σ → Prop) : Prop where
  sets : ∀ {s s'}, step s t = .ok s' → done s'
  keeps : ∀ {s s'} (u : τ), done s → step s u = .ok s' → done s'
  refuses : ∀ {s}, done s → step s t = .error e

variable {step}

theorem perform_cons_ok {s s' : σ} {t : τ} {ts : List τ} (h : step s t = .ok s') :
    perform step s (t :: ts) = perform step s' ts := by
  simp only [perform, h]

theorem perform_cons_error {s : σ} {t : τ} {ts : List τ} {e : Trap ε} (h : step s t = .error e) :
    perform step s (t :: ts) = (.error e, s) := by
  simp only [perform, h]

/-- A script that succeeds performs its first step. -/
theorem perform_cons_eq_ok {s final : σ} {t : τ} {ts : List τ}
    (h : perform step s (t :: ts) = (.ok (), final)) :
    ∃ s', step s t = .ok s' ∧ perform step s' ts = (.ok (), final) := by
  cases hstep : step s t with
  | ok s' =>
      rw [perform_cons_ok hstep] at h
      exact ⟨s', rfl, h⟩
  | error e =>
      rw [perform_cons_error hstep] at h
      cases h

/-- A script in two parts that succeeds performs the one and then the other. -/
theorem perform_append_eq_ok {s final : σ} {ts us : List τ}
    (h : perform step s (ts ++ us) = (.ok (), final)) :
    ∃ mid, perform step s ts = (.ok (), mid) ∧ perform step mid us = (.ok (), final) := by
  induction ts generalizing s with
  | nil => exact ⟨s, rfl, h⟩
  | cons t ts ih =>
      rcases perform_cons_eq_ok h with ⟨s', hfirst, hrest⟩
      rcases ih hrest with ⟨mid, hts, hus⟩
      exact ⟨mid, (perform_cons_ok hfirst).trans hts, hus⟩

/-- What every step keeps holds of the state that a script leaves, however it ends. -/
theorem perform_inv {P : σ → Prop} (hkeeps : ∀ {s s'} (u : τ), P s → step s u = .ok s' → P s')
    {s : σ} (hs : P s) (ts : List τ) : P (perform step s ts).2 := by
  induction ts generalizing s with
  | nil => exact hs
  | cons t ts ih =>
      cases hstep : step s t with
      | ok s' =>
          rw [perform_cons_ok hstep]
          exact ih (hkeeps t hs hstep)
      | error e =>
          rw [perform_cons_error hstep]
          exact hs

@[simp] theorem cutOff_zero (ts : List τ) (s : σ) : cutOff step ts s 0 = s := rfl

namespace OnceOnly

variable {t : τ} {e : Trap ε} {done : σ → Prop} {ts : List τ} {s final : σ}

theorem perform_of_done (h : OnceOnly step t e done) (hs : done s) :
    perform step s (t :: ts) = (.error e, s) :=
  perform_cons_error (h.refuses hs)

/-- Where the first step is done, attempts change nothing. -/
theorem cutOff_of_done (h : OnceOnly step t e done) (hs : done s) (cut : Nat) :
    cutOff step (t :: ts) s cut = s := by
  cases cut with
  | zero => rfl
  | succ cut =>
      rw [cutOff, List.take_succ_cons, h.perform_of_done hs]

theorem attempts_of_done (h : OnceOnly step t e done) (hs : done s) (cuts : List Nat) :
    attempts step (t :: ts) s cuts = s := by
  induction cuts with
  | nil => rfl
  | cons cut cuts ih =>
      rw [attempts, List.foldl_cons, h.cutOff_of_done hs]
      exact ih

/-- An attempt that gets to the first step leaves it done. -/
theorem done_cutOff (h : OnceOnly step t e done)
    (hrun : perform step s (t :: ts) = (.ok (), final)) {cut : Nat} (hcut : cut ≠ 0) :
    done (cutOff step (t :: ts) s cut) := by
  rcases perform_cons_eq_ok hrun with ⟨s', hfirst, -⟩
  cases cut with
  | zero => exact absurd rfl hcut
  | succ cut =>
      rw [cutOff, List.take_succ_cons, perform_cons_ok hfirst]
      exact perform_inv h.keeps (h.sets hfirst) _

/-- After attempts on a state where the script works, either all of them were cut off at once and
nothing has happened, or the first step is done. -/
theorem attempts_cases (h : OnceOnly step t e done)
    (hrun : perform step s (t :: ts) = (.ok (), final)) (cuts : List Nat) :
    ((∀ cut ∈ cuts, cut = 0) ∧ attempts step (t :: ts) s cuts = s) ∨
      ((∃ cut ∈ cuts, cut ≠ 0) ∧ done (attempts step (t :: ts) s cuts)) := by
  induction cuts with
  | nil => exact Or.inl ⟨by simp, rfl⟩
  | cons cut cuts ih =>
      by_cases hcut : cut = 0
      · subst hcut
        have hsame : attempts step (t :: ts) s (0 :: cuts) = attempts step (t :: ts) s cuts := rfl
        rw [hsame]
        rcases ih with ⟨hall, hleft⟩ | ⟨⟨cut, hmem, hcut⟩, hdone⟩
        · exact Or.inl ⟨by simpa using hall, hleft⟩
        · exact Or.inr ⟨⟨cut, List.mem_cons_of_mem _ hmem, hcut⟩, hdone⟩
      · have hdone := h.done_cutOff hrun hcut
        have hsame : attempts step (t :: ts) s (cut :: cuts) = cutOff step (t :: ts) s cut :=
          h.attempts_of_done hdone cuts
        rw [hsame]
        exact Or.inr ⟨⟨cut, List.mem_cons_self, hcut⟩, hdone⟩

/-- The script can be completed after attempts exactly when none of them got to the first step. -/
theorem completes_iff (h : OnceOnly step t e done)
    (hrun : perform step s (t :: ts) = (.ok (), final)) (cuts : List Nat) :
    perform step (attempts step (t :: ts) s cuts) (t :: ts) = (.ok (), final) ↔
      ∀ cut ∈ cuts, cut = 0 := by
  rcases h.attempts_cases hrun cuts with ⟨hall, hleft⟩ | ⟨⟨cut, hmem, hcut⟩, hdone⟩
  · rw [hleft]
    exact ⟨fun _ => hall, fun _ => hrun⟩
  · rw [h.perform_of_done hdone]
    constructor
    · intro hok
      cases hok
    · intro hall
      exact absurd (hall cut hmem) hcut

/-- Otherwise it is refused, and leaves the state as it is. -/
theorem refused (h : OnceOnly step t e done)
    (hrun : perform step s (t :: ts) = (.ok (), final)) {cuts : List Nat}
    (hcuts : ∃ cut ∈ cuts, cut ≠ 0) :
    perform step (attempts step (t :: ts) s cuts) (t :: ts) =
      (.error e, attempts step (t :: ts) s cuts) := by
  rcases h.attempts_cases hrun cuts with ⟨hall, -⟩ | ⟨-, hdone⟩
  · rcases hcuts with ⟨cut, hmem, hcut⟩
    exact absurd (hall cut hmem) hcut
  · exact h.perform_of_done hdone

end OnceOnly
end Lib
end CleanWeb
