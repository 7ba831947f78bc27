import CleanWeb.Contracts.Solvency
import CleanWeb.Lib.Observed

/-!
# Maturity of committed money

Money moves between the slots of the escrow: a verdict clears one slot and merges it into another,
which may be fresh, committed with its own epoch, or released and reopened.  `Trail` follows every
commit through these moves and into the release that pays it, reading nothing but the events; it
is kept beside the contracts and decides nothing.  `Tracked` is the invariant that ties the trail
to the slots.
-/

namespace CleanWeb
namespace Contracts

open Lib Lib.Exec

/-! ## The trail of the money -/

/-- A commit as it was executed, with the release epoch that it wrote. -/
structure Commitment where
  epochId : Nat
  workId : Bytes32
  amount : Nat
  releaseEpoch : Nat
  deriving DecidableEq, Repr

/-- Wei leaving in epoch `epoch`, and the commits that brought them in. -/
structure Outflow where
  epoch : Nat
  value : Nat
  commits : List Commitment
  deriving DecidableEq, Repr

def amountOf (commits : List Commitment) : Nat :=
  (commits.map Commitment.amount).sum

@[simp] theorem amountOf_nil : amountOf [] = 0 := rfl

@[simp] theorem amountOf_append (as bs : List Commitment) :
    amountOf (as ++ bs) = amountOf as + amountOf bs := by
  simp [amountOf]

@[simp] theorem amountOf_singleton (c : Commitment) : amountOf [c] = c.amount := by
  simp [amountOf]

/-- Every commit so far, which of them each slot holds, what each release has taken out of its slot
and what has been sent to payees. -/
structure Trail where
  commits : List Commitment
  held : Nat × Bytes32 → List Commitment
  releases : List Outflow
  transfers : List Outflow

namespace Trail

def init : Trail :=
  ⟨[], fun _ => [], [], []⟩

/-- The commits that the latest release pays. -/
def paying (t : Trail) : List Commitment :=
  (t.releases.getLast?.map Outflow.commits).getD []

/-- One event, emitted on the way to `w`. -/
def record (w : World) (t : Trail) : Entry → Trail
  | .escrowCommitted epochId workId amount =>
      let c : Commitment := ⟨epochId, workId, amount, (w.slot epochId workId).releaseEpoch⟩
      { t with
        commits := t.commits ++ [c]
        held := Function.update t.held (epochId, workId) (t.held (epochId, workId) ++ [c]) }
  | .disputeResolved epochId escrowedWork winner _ =>
      -- A winner that held the slot before gets back what it had.
      let cleared := Function.update t.held (epochId, escrowedWork) []
      { t with
        held := Function.update cleared (epochId, winner)
          (cleared (epochId, winner) ++ t.held (epochId, escrowedWork)) }
  | .escrowReleased epochId workId amount =>
      { t with
        held := Function.update t.held (epochId, workId) []
        releases := t.releases ++
          [⟨CWEEscrow.currentEpoch w.timestamp, amount, t.held (epochId, workId)⟩] }
  | .paid _ value =>
      { t with
        transfers := t.transfers ++ [⟨CWEEscrow.currentEpoch w.timestamp, value, t.paying⟩] }
  | _ => t

/-- What a step from `w` to `w'` has added to the history. -/
def follow (w w' : World) (t : Trail) : Trail :=
  (w'.history.drop w.history.length).foldl (record w') t

theorem follow_of_append {w w' : World} {t : Trail} {entries : List Entry}
    (h : w'.history = w.history ++ entries) : t.follow w w' = entries.foldl (record w') t := by
  rw [follow, h, List.drop_left]

theorem follow_of_eq {w w' : World} {t : Trail} (h : w'.history = w.history) :
    t.follow w w' = t := by
  rw [follow, h, List.drop_length, List.foldl_nil]

end Trail

/-! ## The invariant -/

def Entry.commitment? : Entry → Option (Nat × Bytes32 × Nat)
  | .escrowCommitted epochId workId amount => some (epochId, workId, amount)
  | _ => none

def Entry.release? : Entry → Option Nat
  | .escrowReleased _ _ amount => some amount
  | _ => none

def Entry.transfer? : Entry → Option Nat
  | .paid _ value => some value
  | _ => none

/-- The trail has missed no commit, no release and no transfer of the history. -/
structure Trail.Complete (t : Trail) (history : List Entry) : Prop where
  commits : t.commits.map (fun c => (c.epochId, c.workId, c.amount)) =
    history.filterMap Entry.commitment?
  releases : t.releases.map Outflow.value = history.filterMap Entry.release?
  transfers : t.transfers.map Outflow.value = history.filterMap Entry.transfer?

/-- The commits `cs` make up the slot, and none of them is due before it. -/
structure Holds (e : Escrow) (cs : List Commitment) : Prop where
  amount : e.amount = amountOf cs
  due : ∀ c ∈ cs, c.releaseEpoch ≤ e.releaseEpoch
  fresh : e.committed = false → cs = []

/-- None of the commits is paid early. -/
def Outflow.Due (o : Outflow) : Prop :=
  ∀ c ∈ o.commits, c.releaseEpoch ≤ o.epoch

structure Tracked (w : World) (t : Trail) : Prop where
  complete : t.Complete w.history
  slots : ∀ k, Holds (w.escrow.escrows k) (t.held k)
  known : ∀ k, ∀ c ∈ t.held k, c ∈ t.commits
  /-- Every release pays what its slot held, not before the slot's epoch nor after now. -/
  releases : ∀ o ∈ t.releases, o.value = amountOf o.commits ∧ o.commits ⊆ t.commits ∧ o.Due ∧
    o.epoch ≤ CWEEscrow.currentEpoch w.timestamp
  transfers : ∀ o ∈ t.transfers, o.Due ∧ ∃ r ∈ t.releases, r.commits = o.commits

theorem Holds.default : Holds default [] :=
  ⟨rfl, by simp, fun _ => rfl⟩

namespace Tracked

variable {w w' : World} {t : Trail}

/-- A step that changes no slot's money and emits none of the four events. -/
theorem quiet (h : Tracked w t) {entries : List Entry}
    (hescrow : ∀ k, (w'.escrow.escrows k).amount = (w.escrow.escrows k).amount ∧
      (w'.escrow.escrows k).releaseEpoch = (w.escrow.escrows k).releaseEpoch ∧
      (w'.escrow.escrows k).committed = (w.escrow.escrows k).committed)
    (htime : w.timestamp ≤ w'.timestamp) (hhistory : w'.history = w.history ++ entries)
    (hquiet : ∀ entry ∈ entries, t.record w' entry = t ∧ entry.commitment? = none ∧
      entry.release? = none ∧ entry.transfer? = none) : Tracked w' (t.follow w w') := by
  have hfold : entries.foldl (Trail.record w') t = t := by
    clear hhistory
    induction entries with
    | nil =>
        rfl
    | cons entry entries ih =>
        rw [List.foldl_cons, (hquiet entry List.mem_cons_self).1]
        exact ih fun e he => hquiet e (List.mem_cons_of_mem entry he)
  have hnone : ∀ {α : Type} (f : Entry → Option α), (∀ entry ∈ entries, f entry = none) →
      w'.history.filterMap f = w.history.filterMap f := by
    intro α f hf
    rw [hhistory, List.filterMap_append, List.filterMap_eq_nil_iff.2 hf, List.append_nil]
  rw [Trail.follow_of_append hhistory, hfold]
  refine ⟨⟨?_, ?_, ?_⟩, ?_, h.known, ?_, h.transfers⟩
  · rw [hnone _ fun e he => (hquiet e he).2.1]
    exact h.complete.commits
  · rw [hnone _ fun e he => (hquiet e he).2.2.1]
    exact h.complete.releases
  · rw [hnone _ fun e he => (hquiet e he).2.2.2]
    exact h.complete.transfers
  · intro k
    rcases hescrow k with ⟨hamount, hepoch, hcommitted⟩
    have hk := h.slots k
    exact ⟨hamount.trans hk.amount, fun c hc => (hk.due c hc).trans_eq hepoch.symm,
      fun hfresh => hk.fresh (hcommitted ▸ hfresh)⟩
  · intro o ho
    rcases h.releases o ho with ⟨hvalue, hknown, hdue, hnow⟩
    exact ⟨hvalue, hknown, hdue, hnow.trans (Nat.div_le_div_right htime)⟩

theorem silent (h : Tracked w t)
    (hescrow : ∀ k, (w'.escrow.escrows k).amount = (w.escrow.escrows k).amount ∧
      (w'.escrow.escrows k).releaseEpoch = (w.escrow.escrows k).releaseEpoch ∧
      (w'.escrow.escrows k).committed = (w.escrow.escrows k).committed)
    (htime : w.timestamp ≤ w'.timestamp) (hhistory : w'.history = w.history) :
    Tracked w' (t.follow w w') := by
  have hnone : w'.history = w.history ++ [] := by
    rw [hhistory, List.append_nil]
  refine h.quiet hescrow htime hnone ?_
  intro entry hentry
  cases hentry

theorem commit (h : Tracked w t) {epochId amount releaseEpoch liability : Nat}
    {workId contentId : Bytes32} (hfresh : (w.slot epochId workId).committed = false)
    (hw' : w' = { w with
      escrow := { w.escrow with
        escrows := Function.update w.escrow.escrows (epochId, workId)
          { w.slot epochId workId with
            amount := amount
            releaseEpoch := releaseEpoch
            contentId := contentId
            committed := true }
        liability := liability }
      history := w.history ++ [.escrowCommitted epochId workId amount] }) :
    Tracked w' (t.follow w w') := by
  have hhistory : w'.history = w.history ++ [.escrowCommitted epochId workId amount] := by
    rw [hw']
  have hslot : (w'.slot epochId workId).releaseEpoch = releaseEpoch := by
    simp [hw', World.slot]
  -- The slot was never committed since it was last cleared, so it held no commit.
  have hempty : t.held (epochId, workId) = [] := (h.slots (epochId, workId)).fresh hfresh
  rw [Trail.follow_of_append hhistory, List.foldl_cons, List.foldl_nil, Trail.record, hslot, hempty,
    List.nil_append]
  refine ⟨⟨?_, ?_, ?_⟩, ?_, ?_, ?_, h.transfers⟩
  · simp [hhistory, h.complete.commits, Entry.commitment?]
  · simp [hhistory, h.complete.releases, Entry.release?]
  · simp [hhistory, h.complete.transfers, Entry.transfer?]
  · intro k
    rw [hw']
    by_cases hk : k = (epochId, workId)
    · subst hk
      simp only [Function.update_self]
      exact ⟨by simp, by simp, by simp⟩
    · simp only [Function.update_of_ne hk]
      exact h.slots k
  · intro k c hc
    by_cases hk : k = (epochId, workId)
    · subst hk
      simp only [Function.update_self, List.mem_singleton] at hc
      simp [hc]
    · simp only [Function.update_of_ne hk] at hc
      exact List.mem_append_left _ (h.known k c hc)
  · intro o ho
    rcases h.releases o ho with ⟨hvalue, hknown, hdue, hnow⟩
    refine ⟨hvalue, fun c hc => List.mem_append_left _ (hknown hc), hdue, ?_⟩
    rw [hw']
    exact hnow

/-- The later of the two epochs is late enough for the commits of both slots. -/
theorem holds_merged {e to_ : Escrow} {cs ds : List Commitment} (he : Holds e cs)
    (hto : Holds to_ ds) : Holds (CWEEscrow.merged e to_) (ds ++ cs) := by
  refine ⟨?_, ?_, by simp [CWEEscrow.merged]⟩
  · change to_.amount + e.amount = _
    rw [amountOf_append, hto.amount, he.amount]
  · intro c hc
    change c.releaseEpoch ≤ max to_.releaseEpoch e.releaseEpoch
    rcases List.mem_append.1 hc with hc | hc
    · exact (hto.due c hc).trans (Nat.le_max_left _ _)
    · exact (he.due c hc).trans (Nat.le_max_right _ _)

theorem reassign (h : Tracked w t) {epochId disputeId : Nat} {escrowedWork challenger : Bytes32}
    (hw' : w' = { w with
      escrow := { w.escrow with
        escrows := Function.update
          (Function.update w.escrow.escrows (epochId, escrowedWork) default)
          (epochId, challenger)
          (CWEEscrow.merged (w.slot epochId escrowedWork)
            (Function.update w.escrow.escrows (epochId, escrowedWork) default
              (epochId, challenger))) }
      history := w.history ++ [.disputeResolved epochId escrowedWork challenger disputeId] }) :
    Tracked w' (t.follow w w') := by
  have hhistory :
      w'.history = w.history ++ [.disputeResolved epochId escrowedWork challenger disputeId] := by
    rw [hw']
  have hcleared : ∀ k, Holds (Function.update w.escrow.escrows (epochId, escrowedWork) default k)
      (Function.update t.held (epochId, escrowedWork) [] k) := by
    intro k
    by_cases hk : k = (epochId, escrowedWork)
    · subst hk
      simpa using Holds.default
    · simpa [hk] using h.slots k
  rw [Trail.follow_of_append hhistory, List.foldl_cons, List.foldl_nil, Trail.record]
  refine ⟨⟨?_, ?_, ?_⟩, ?_, ?_, ?_, h.transfers⟩
  · simp [hhistory, h.complete.commits, Entry.commitment?]
  · simp [hhistory, h.complete.releases, Entry.release?]
  · simp [hhistory, h.complete.transfers, Entry.transfer?]
  · intro k
    rw [hw']
    by_cases hk : k = (epochId, challenger)
    · subst hk
      simp only [Function.update_self]
      exact holds_merged (h.slots (epochId, escrowedWork)) (hcleared (epochId, challenger))
    · simp only [Function.update_of_ne hk]
      exact hcleared k
  · have hkept :
        ∀ k c, c ∈ Function.update t.held (epochId, escrowedWork) [] k → c ∈ t.commits := by
      intro k c hc
      by_cases hk : k = (epochId, escrowedWork)
      · subst hk
        simp at hc
      · exact h.known k c (by simpa [hk] using hc)
    intro k c hc
    by_cases hk : k = (epochId, challenger)
    · subst hk
      simp only [Function.update_self] at hc
      rcases List.mem_append.1 hc with hc | hc
      · exact hkept _ c hc
      · exact h.known _ c hc
    · simp only [Function.update_of_ne hk] at hc
      exact hkept k c hc
  · intro o ho
    rcases h.releases o ho with ⟨hvalue, hknown, hdue, hnow⟩
    refine ⟨hvalue, hknown, hdue, ?_⟩
    rw [hw']
    exact hnow

/-- A payee is sent a part of what the latest release has taken out. -/
theorem pay (h : Tracked w t) (hreleased : t.releases ≠ []) {payee : Address} {value : Nat}
    (hescrows : w'.escrow.escrows = w.escrow.escrows) (htime : w'.timestamp = w.timestamp)
    (hhistory : w'.history = w.history ++ [.paid payee value]) :
    Tracked w' (t.record w' (.paid payee value)) := by
  rcases h.releases _ (List.getLast_mem hreleased) with ⟨-, -, hdue, hnow⟩
  have hpaying : t.paying = (t.releases.getLast hreleased).commits := by
    rw [Trail.paying, List.getLast?_eq_getLast_of_ne_nil hreleased]
    rfl
  rw [Trail.record]
  refine ⟨⟨?_, ?_, ?_⟩, ?_, h.known, ?_, ?_⟩
  · simp [hhistory, h.complete.commits, Entry.commitment?]
  · simp [hhistory, h.complete.releases, Entry.release?]
  · simp [hhistory, h.complete.transfers, Entry.transfer?]
  · intro k
    rw [hescrows]
    exact h.slots k
  · intro o ho
    rcases h.releases o ho with ⟨hvalue, hknown, hdue, hnow⟩
    exact ⟨hvalue, hknown, hdue, by rw [htime]; exact hnow⟩
  · intro o ho
    rcases List.mem_append.1 ho with ho | ho
    · exact h.transfers o ho
    · rw [List.mem_singleton.1 ho]
      refine ⟨?_, _, List.getLast_mem hreleased, hpaying.symm⟩
      intro c hc
      dsimp only at hc ⊢
      rw [hpaying] at hc
      rw [htime]
      exact (hdue c hc).trans hnow

theorem release (h : Tracked w t) {epochId : Nat} {workId : Bytes32} {s : Payment.Sending}
    (hmature : CWEEscrow.Mature w.timestamp (w.slot epochId workId))
    (hw' : w' = { w with
      escrow := w.escrow.releasing epochId workId s.balance
      history := w.history ++ [.escrowReleased epochId workId (w.slot epochId workId).amount,
        .paid s.payee s.value] }) :
    Tracked w' (t.follow w w') ∧ (t.follow w w').releases ≠ [] := by
  have hhistory : w'.history = w.history ++ [.escrowReleased epochId workId
      (w.slot epochId workId).amount, .paid s.payee s.value] := by
    rw [hw']
  have hslot := h.slots (epochId, workId)
  -- First the release, which empties the slot, then the transfer.
  let released : World :=
    { w with
      escrow := w.escrow.releasing epochId workId s.balance
      history := w.history ++ [.escrowReleased epochId workId (w.slot epochId workId).amount] }
  have hreleased : Tracked released
      (t.record w' (.escrowReleased epochId workId (w.slot epochId workId).amount)) := by
    rw [Trail.record]
    refine ⟨⟨?_, ?_, ?_⟩, ?_, ?_, ?_, ?_⟩
    · simp [released, h.complete.commits, Entry.commitment?]
    · simp [released, h.complete.releases, Entry.release?]
    · simp [released, h.complete.transfers, Entry.transfer?]
    · intro k
      by_cases hk : k = (epochId, workId)
      · subst hk
        simp only [released, CWEEscrow.releasing, Function.update_self]
        exact ⟨rfl, by simp, fun _ => rfl⟩
      · simp only [released, CWEEscrow.releasing, Function.update_of_ne hk]
        exact h.slots k
    · intro k c hc
      by_cases hk : k = (epochId, workId)
      · subst hk
        simp at hc
      · exact h.known k c (by simpa [hk] using hc)
    · intro o ho
      rcases List.mem_append.1 ho with ho | ho
      · exact h.releases o ho
      · rw [List.mem_singleton.1 ho]
        refine ⟨hslot.amount, h.known _, ?_, by rw [hw']⟩
        intro c hc
        refine (hslot.due c hc).trans ?_
        rw [hw']
        exact hmature.due
    · intro o ho
      rcases h.transfers o ho with ⟨hdue, r, hr, hcommits⟩
      exact ⟨hdue, r, List.mem_append_left _ hr, hcommits⟩
  have hne : (t.record w' (.escrowReleased epochId workId
      (w.slot epochId workId).amount)).releases ≠ [] := by
    simp [Trail.record]
  rw [Trail.follow_of_append hhistory]
  have hpaid : w'.history = released.history ++ [.paid s.payee s.value] := by
    simp [hhistory, released]
  exact ⟨hreleased.pay hne (by rw [hw']) (by rw [hw']) hpaid, by simp [Trail.record]⟩

end Tracked

/-! ## One step -/

/-- A call under way belongs to a release that the trail has recorded. -/
def Followed (c : Config World Payment) (t : Trail) : Prop :=
  Tracked c.world t ∧ (c.frames ≠ [] → t.releases ≠ [])

/-- Only a release adds to the releases, and nothing takes from them. -/
theorem Trail.releases_ne_nil {w : World} {t : Trail} {entries : List Entry}
    (h : t.releases ≠ []) : (entries.foldl (Trail.record w) t).releases ≠ [] := by
  induction entries generalizing t with
  | nil =>
      exact h
  | cons entry entries ih =>
      rw [List.foldl_cons]
      refine ih ?_
      cases entry with
      | escrowReleased epochId workId amount => simp [Trail.record]
      | _ => exact h

/-- A slot's record is rewritten and keeps its money. -/
theorem rewritten {escrows : Nat × Bytes32 → Escrow} {k : Nat × Bytes32} {e : Escrow}
    (hamount : e.amount = (escrows k).amount) (hepoch : e.releaseEpoch = (escrows k).releaseEpoch)
    (hcommitted : e.committed = (escrows k).committed) (x : Nat × Bytes32) :
    (Function.update escrows k e x).amount = (escrows x).amount ∧
      (Function.update escrows k e x).releaseEpoch = (escrows x).releaseEpoch ∧
      (Function.update escrows k e x).committed = (escrows x).committed := by
  by_cases hx : x = k
  · subst hx
    simp [hamount, hepoch, hcommitted]
  · simp [hx]

/-- A verdict for the holder leaves its commits where they are. -/
theorem Trail.record_keep {w : World} {t : Trail} {epochId disputeId : Nat} {workId : Bytes32} :
    t.record w (.disputeResolved epochId workId workId disputeId) = t := by
  simp [Trail.record]

theorem tracked_effect {w : World} {t : Trail} {ps : List Payment} {k : Input}
    {out : World × Option Payment} (hw : Tracked w t) (h : Effect w ps k out) :
    Tracked out.1 (t.follow w out.1) ∧ (out.2 ≠ none → (t.follow w out.1).releases ≠ []) := by
  cases h with
  | elapse seconds hrest =>
      refine ⟨hw.silent ?_ (Nat.le_add_right _ _) rfl, by simp⟩
      exact fun k => ⟨rfl, rfl, rfl⟩
  | receive value =>
      refine ⟨hw.silent ?_ (Nat.le_refl _) rfl, by simp⟩
      exact fun k => ⟨rfl, rfl, rfl⟩
  | records sender c records heffect =>
      refine ⟨hw.quiet (fun k => ⟨rfl, rfl, rfl⟩) (Nat.le_refl _) rfl ?_, by simp⟩
      intro entry hentry
      cases c with
      | registerWork r =>
          rw [List.mem_singleton.1 hentry]
          exact ⟨rfl, rfl, rfl, rfl⟩
      | _ => simp [World.recordEntries] at hentry
  | jurySettings _ owner escrow =>
      refine ⟨hw.silent ?_ (Nat.le_refl _) rfl, by simp⟩
      exact fun k => ⟨rfl, rfl, rfl⟩
  | openDispute sender workA workB out hopen =>
      refine ⟨hw.silent ?_ (Nat.le_refl _) rfl, by simp⟩
      exact fun k => ⟨rfl, rfl, rfl⟩
  | vote juror disputeId forWork d' hvote hopen =>
      refine ⟨hw.silent ?_ (Nat.le_refl _) rfl, by simp⟩
      exact fun k => ⟨rfl, rfl, rfl⟩
  | finalize sender disputeId hopened hopen =>
      refine ⟨hw.quiet (fun k => ⟨rfl, rfl, rfl⟩) (Nat.le_refl _) rfl ?_, by simp⟩
      intro entry hentry
      rw [List.mem_singleton.1 hentry]
      exact ⟨rfl, rfl, rfl, rfl⟩
  | commit sender epochId workId amount hrest hregistered hfresh hfit hfunds =>
      exact ⟨hw.commit hfresh rfl, by simp⟩
  | challenge sender epochId escrowedWork challengerWork self out hne hcommitted hreleased
      hcontent hopen =>
      refine ⟨hw.quiet ?_ (Nat.le_refl _) rfl ?_, by simp⟩
      · exact rewritten rfl rfl rfl
      · intro entry hentry
        rw [List.mem_singleton.1 hentry]
        exact ⟨rfl, rfl, rfl, rfl⟩
  | reassign sender epochId escrowedWork hreleased hwins =>
      exact ⟨hw.reassign rfl, by simp⟩
  | keep sender epochId escrowedWork hreleased =>
      refine ⟨hw.quiet ?_ (Nat.le_refl _) rfl ?_, by simp⟩
      · exact rewritten rfl rfl rfl
      · intro entry hentry
        rw [List.mem_singleton.1 hentry]
        exact ⟨Trail.record_keep, rfl, rfl, rfl⟩
  | release sender epochId workId s hstatus hmature hpayees hamount hsend =>
      rcases hw.release hmature rfl with ⟨htracked, hne⟩
      exact ⟨htracked, fun _ => hne⟩

theorem tracked_resume {w : World} {t : Trail} {p : Payment} {out : World × Option Payment}
    (hw : Tracked w t) (hreleased : t.releases ≠ []) (h : w.resume p = .ok out) :
    Tracked out.1 (t.follow w out.1) ∧ (t.follow w out.1).releases ≠ [] := by
  rcases resume_cases h with ⟨-, rfl⟩ | ⟨q, s, -, -, rfl⟩
  · refine ⟨hw.silent ?_ (Nat.le_refl _) rfl, ?_⟩
    · exact fun k => ⟨rfl, rfl, rfl⟩
    · have hsame : t.follow w { w with escrow := { w.escrow with status := .notEntered } } = t :=
        Trail.follow_of_eq rfl
      exact hsame.symm ▸ hreleased
  · rw [Trail.follow_of_append rfl]
    exact ⟨hw.pay hreleased rfl rfl rfl, hreleased⟩

/-! ## Every run -/

/-- Everything a run has committed, and where it has gone. -/
def trailOf (d : Deployment) (acts : List (Action Input)) : Trail :=
  (((escrowSystem d).observed Trail.follow).run (World.init d, Trail.init) acts).world.2

theorem followed_run (d : Deployment) (acts : List (Action Input)) :
    Followed ((escrowSystem d).run (World.init d) acts) (trailOf d acts) := by
  refine Machine.observed_inv (P := Followed) ?_ ?_ ?_ acts
  · refine ⟨⟨⟨rfl, rfl, rfl⟩, fun k => Holds.default, ?_, ?_, ?_⟩, by simp [Config.init]⟩
    · simp [Trail.init]
    · simp [Trail.init]
    · simp [Trail.init]
  · intro c t k out hc hallowed hout
    rcases tracked_effect hc.1 (effect_of_call hallowed hout) with ⟨htracked, hpaying⟩
    rcases out with ⟨w', _ | p⟩
    · exact ⟨htracked, fun hframes => Trail.releases_ne_nil (hc.2 hframes)⟩
    · exact ⟨htracked, fun _ => hpaying (by simp)⟩
  · intro c t f fs out hc hframes hout
    have hreleased : t.releases ≠ [] := hc.2 (by simp [hframes])
    rcases tracked_resume hc.1 hreleased hout with ⟨htracked, hne⟩
    refine ⟨?_, fun _ => hne⟩
    rw [Config.world_enter]
    exact htracked

/-- No wei is paid out earlier than the commit that brought it in allowed.  In every reachable
state the trail has missed no commit, release or transfer; each slot holds exactly the wei of the
commits that the trail sees in it, none of which is due later than the slot; a release pays the
commits of its slot when all of them are due, and every transfer belongs to such a release. -/
theorem reassignment_keeps_maturity (d : Deployment) (acts : List (Action Input)) :
    let w := ((escrowSystem d).run (World.init d) acts).world
    let t := trailOf d acts
    t.Complete w.history ∧
      (∀ epochId workId,
        (w.slot epochId workId).amount = amountOf (t.held (epochId, workId)) ∧
          ∀ c ∈ t.held (epochId, workId), c ∈ t.commits ∧
            c.releaseEpoch ≤ (w.slot epochId workId).releaseEpoch) ∧
      (∀ o ∈ t.releases, o.value = amountOf o.commits ∧ o.commits ⊆ t.commits ∧
        ∀ c ∈ o.commits, c.releaseEpoch ≤ o.epoch) ∧
      ∀ o ∈ t.transfers, (∃ r ∈ t.releases, r.commits = o.commits) ∧
        ∀ c ∈ o.commits, c.releaseEpoch ≤ o.epoch := by
  have h := (followed_run d acts).1
  refine ⟨h.complete, ?_, ?_, ?_⟩
  · intro epochId workId
    have hslot := h.slots (epochId, workId)
    exact ⟨hslot.amount, fun c hc => ⟨h.known _ c hc, hslot.due c hc⟩⟩
  · intro o ho
    rcases h.releases o ho with ⟨hvalue, hknown, hdue, -⟩
    exact ⟨hvalue, hknown, hdue⟩
  · intro o ho
    rcases h.transfers o ho with ⟨hdue, hrelease⟩
    exact ⟨hrelease, hdue⟩

end Contracts
end CleanWeb
