import Mathlib.Data.List.Nodup
import Mathlib.Logic.Function.Basic
import CleanWeb.Lib.Exec
import CleanWeb.Wallet.Address

/-!
# Consumption submissions (`contracts/CWEConsumption.sol`)

The contract checks arities and the one-submission rule and logs whatever arrays it was given.
`emittedFor_iff` describes exactly which logs an epoch can show.
-/

namespace CleanWeb
namespace Contracts

open Lib Lib.Exec

/-- The event logged by an accepted submission. -/
structure ConsumptionSubmitted where
  user : Address
  epoch : Nat
  tierId : Bytes32
  digest : Bytes32
  pseudonyms : List Bytes32
  workIds : List Bytes32
  weights : List (BitVec 256)
  deriving DecidableEq, Repr

/-- A call of `submitConsumption`; `verdict` is what the proof verifier answers to it. -/
structure Submission where
  sender : Address
  timestamp : Nat
  tierId : Bytes32
  commitments : List Bytes32
  pseudonyms : List Bytes32
  workIds : List Bytes32
  weights : List (BitVec 256)
  digest : Bytes32
  verdict : Bool

/-- The storage: who has submitted in which epoch. -/
structure CWEConsumption where
  submitted : Nat → Address → Bool

inductive ConsumptionError where
  | noCommitments
  | arityMismatch
  | alreadySubmitted (epoch : Nat) (user : Address)
  | proofRejected
  deriving DecidableEq, Repr

namespace CWEConsumption

/-- `30 days`. -/
def epochLength : Nat := 2592000

def init : CWEConsumption :=
  ⟨fun _ _ => false⟩

def currentEpoch (timestamp : Nat) : Nat :=
  timestamp / epochLength

def submitConsumption (st : CWEConsumption) (c : Submission) :
    Exec ConsumptionError (CWEConsumption × ConsumptionSubmitted) :=
  if c.commitments.length = 0 then fail .noCommitments
  else if c.commitments.length ≠ c.pseudonyms.length ∨
      c.commitments.length ≠ c.workIds.length ∨ c.commitments.length ≠ c.weights.length then
    fail .arityMismatch
  else
    let epoch := currentEpoch c.timestamp
    if st.submitted epoch c.sender then fail (.alreadySubmitted epoch c.sender)
    else if !c.verdict then fail .proofRejected
    else
      .ok (⟨Function.update st.submitted epoch
          (Function.update (st.submitted epoch) c.sender true)⟩,
        { user := c.sender
          epoch := epoch
          tierId := c.tierId
          digest := c.digest
          pseudonyms := c.pseudonyms
          workIds := c.workIds
          weights := c.weights })

/-- A reverted call leaves the storage and the log as they were. -/
def next (s : CWEConsumption × List ConsumptionSubmitted) (c : Submission) :
    CWEConsumption × List ConsumptionSubmitted :=
  match submitConsumption s.1 c with
  | .ok (st, event) => (st, s.2 ++ [event])
  | .error _ => s

/-- The log after the calls `cs`, from deployment. -/
def logAfter (cs : List Submission) : List ConsumptionSubmitted :=
  (cs.foldl next (init, [])).2

/-- Some history of calls shows exactly these events for the epoch. -/
def EmittedFor (epoch : Nat) (events : List ConsumptionSubmitted) : Prop :=
  ∃ cs, (logAfter cs).filter (fun e => e.epoch = epoch) = events

/-! ## What can be emitted -/

/-- The arrays agree in length and are not empty. -/
structure WellFormed (e : ConsumptionSubmitted) : Prop where
  nonempty : 0 < e.workIds.length
  pseudonyms : e.pseudonyms.length = e.workIds.length
  weights : e.weights.length = e.workIds.length

theorem submitConsumption_cases {st st' : CWEConsumption} {c : Submission}
    {e : ConsumptionSubmitted} (h : submitConsumption st c = .ok (st', e)) :
    WellFormed e ∧ st.submitted e.epoch e.user = false ∧
      st' = ⟨Function.update st.submitted e.epoch
        (Function.update (st.submitted e.epoch) e.user true)⟩ := by
  unfold submitConsumption at h
  dsimp only at h
  split at h
  · simp [fail] at h
  split at h
  · simp [fail] at h
  rename_i hnonempty harity
  push Not at harity
  split at h
  · simp [fail] at h
  rename_i hfresh
  split at h
  · simp [fail] at h
  cases h
  refine ⟨⟨?_, ?_, ?_⟩, by simpa using hfresh, rfl⟩
  · change 0 < c.workIds.length
    omega
  · exact harity.1.symm.trans harity.2.1
  · exact harity.2.2.symm.trans harity.2.1

/-- The invariant of the log: well-formed events, each (epoch, user) once and marked. -/
structure LogInv (s : CWEConsumption × List ConsumptionSubmitted) : Prop where
  wellFormed : ∀ e ∈ s.2, WellFormed e
  once : (s.2.map fun e => (e.epoch, e.user)).Nodup
  marked : ∀ e ∈ s.2, s.1.submitted e.epoch e.user = true

theorem next_inv {s : CWEConsumption × List ConsumptionSubmitted} (hs : LogInv s)
    (c : Submission) : LogInv (next s c) := by
  unfold next
  cases hcall : submitConsumption s.1 c with
  | error t =>
      exact hs
  | ok out =>
      rcases out with ⟨st', e⟩
      rcases submitConsumption_cases hcall with ⟨hwf, hfresh, rfl⟩
      refine ⟨?_, ?_, ?_⟩
      · intro x hx
        rcases List.mem_append.1 hx with hx | hx
        · exact hs.wellFormed x hx
        · exact (List.mem_singleton.1 hx) ▸ hwf
      · -- A logged pair is marked, and the new one was not.
        rw [List.map_append, List.map_singleton]
        refine List.Nodup.append hs.once (List.nodup_singleton _) ?_
        intro p hp hpe
        rcases List.mem_map.1 hp with ⟨x, hx, rfl⟩
        have heq := List.mem_singleton.1 hpe
        have hmarked := hs.marked x hx
        rw [show x.epoch = e.epoch from congrArg Prod.fst heq,
          show x.user = e.user from congrArg Prod.snd heq, hfresh] at hmarked
        simp at hmarked
      · intro x hx
        rcases List.mem_append.1 hx with hx | hx
        · have hmarked := hs.marked x hx
          by_cases he : x.epoch = e.epoch
          · by_cases hu : x.user = e.user
            · simp [he, hu]
            · rw [he] at hmarked
              simp [he, hu, hmarked]
          · simp [Function.update_of_ne he, hmarked]
        · simp [List.mem_singleton.1 hx]

theorem log_inv (cs : List Submission) : LogInv (cs.foldl next (init, [])) := by
  induction cs using List.reverseRecOn with
  | nil =>
      exact ⟨by simp, by simp, by simp⟩
  | append_singleton cs c ih =>
      rw [List.foldl_append]
      exact next_inv ih c

/-! ## Every such list is emitted -/

/-- A call that emits `e`. -/
def submissionOf (e : ConsumptionSubmitted) : Submission :=
  { sender := e.user
    timestamp := e.epoch * epochLength
    tierId := e.tierId
    commitments := e.workIds
    pseudonyms := e.pseudonyms
    workIds := e.workIds
    weights := e.weights
    digest := e.digest
    verdict := true }

theorem next_submissionOf {s : CWEConsumption × List ConsumptionSubmitted}
    {e : ConsumptionSubmitted} (hwf : WellFormed e)
    (hfresh : s.1.submitted e.epoch e.user = false) :
    (next s (submissionOf e)).2 = s.2 ++ [e] ∧
      (next s (submissionOf e)).1 = ⟨Function.update s.1.submitted e.epoch
        (Function.update (s.1.submitted e.epoch) e.user true)⟩ := by
  have hepoch : currentEpoch (e.epoch * epochLength) = e.epoch :=
    Nat.mul_div_cancel _ (by decide)
  have hnonempty := hwf.nonempty
  have hcall : submitConsumption s.1 (submissionOf e) =
      .ok (⟨Function.update s.1.submitted e.epoch
        (Function.update (s.1.submitted e.epoch) e.user true)⟩, e) := by
    unfold submitConsumption submissionOf
    dsimp only
    rw [hepoch, if_neg (by omega), if_neg (by simp [hwf.pseudonyms, hwf.weights]), hfresh]
    rfl
  simp [next, hcall]

theorem foldl_submissionOf {events : List ConsumptionSubmitted}
    (hwf : ∀ e ∈ events, WellFormed e)
    (honce : (events.map fun e => (e.epoch, e.user)).Nodup) :
    (∀ epoch user, ((events.map submissionOf).foldl next (init, [])).1.submitted epoch user =
        decide ((epoch, user) ∈ events.map fun e => (e.epoch, e.user))) ∧
      ((events.map submissionOf).foldl next (init, [])).2 = events := by
  induction events using List.reverseRecOn with
  | nil =>
      simp [init]
  | append_singleton events e ih =>
      rw [List.map_append, List.map_singleton] at honce
      have hparts := List.nodup_append.1 honce
      rcases ih (fun x hx => hwf x (List.mem_append_left _ hx)) hparts.1 with ⟨hmarks, hlog⟩
      have hnew : (e.epoch, e.user) ∉ events.map fun e => (e.epoch, e.user) := by
        intro hmem
        exact hparts.2.2 _ hmem _ (List.mem_singleton_self _) rfl
      have hfresh : ((events.map submissionOf).foldl next (init, [])).1.submitted e.epoch e.user =
          false := by
        rw [hmarks]
        simpa using hnew
      rcases next_submissionOf (hwf e (by simp)) hfresh with ⟨hlog', hst'⟩
      rw [List.map_append, List.map_singleton, List.foldl_append, List.foldl_cons, List.foldl_nil]
      refine ⟨?_, by rw [hlog', hlog]⟩
      intro epoch user
      rw [hst']
      by_cases hep : epoch = e.epoch
      · subst hep
        by_cases hu : user = e.user
        · subst hu
          simp
        · simp [hu, hmarks]
      · simp [hep, hmarks]

/-- The logs an epoch can show are the lists of well-formed events of distinct users. -/
theorem emittedFor_iff (epoch : Nat) (events : List ConsumptionSubmitted) :
    EmittedFor epoch events ↔
      (∀ e ∈ events, WellFormed e ∧ e.epoch = epoch) ∧ (events.map (·.user)).Nodup := by
  constructor
  · rintro ⟨cs, rfl⟩
    have hinv := log_inv cs
    refine ⟨?_, ?_⟩
    · intro e he
      rcases List.mem_filter.1 he with ⟨hlog, hepoch⟩
      exact ⟨hinv.wellFormed e hlog, by simpa using hepoch⟩
    · have hsub : ((logAfter cs).filter fun e => e.epoch = epoch).Sublist (logAfter cs) :=
        List.filter_sublist
      have honce := hinv.once.sublist (hsub.map fun e => (e.epoch, e.user))
      have hpairs : ((logAfter cs).filter fun e => e.epoch = epoch).map
          (fun e => (e.epoch, e.user)) =
          (((logAfter cs).filter fun e => e.epoch = epoch).map (·.user)).map
            fun u => (epoch, u) := by
        rw [List.map_map]
        refine List.map_congr_left ?_
        intro e he
        have hepoch : e.epoch = epoch := by simpa using (List.mem_filter.1 he).2
        simp [hepoch]
      rw [hpairs] at honce
      exact List.Nodup.of_map _ honce
  · rintro ⟨hwf, husers⟩
    have hpairs : (events.map fun e => (e.epoch, e.user)) =
        (events.map (·.user)).map fun u => (epoch, u) := by
      rw [List.map_map]
      refine List.map_congr_left ?_
      intro e he
      simp [(hwf e he).2]
    have honce : (events.map fun e => (e.epoch, e.user)).Nodup := by
      rw [hpairs]
      exact husers.map fun a b h => congrArg Prod.snd h
    refine ⟨events.map submissionOf, ?_⟩
    rw [logAfter, (foldl_submissionOf (fun e he => (hwf e he).1) honce).2, List.filter_eq_self]
    intro e he
    simpa using (hwf e he).2

end CWEConsumption
end Contracts
end CleanWeb
