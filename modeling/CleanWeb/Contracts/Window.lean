import CleanWeb.Contracts.Holders
import CleanWeb.Contracts.Linkage

/-!
# The challenge window of a commit

A commit is meant to leave a full window: for `CHALLENGE_WINDOW * EPOCH_LENGTH` seconds the slot
can be challenged and cannot be released.  The contract counts whole epochs from the one the
commit falls into, so the window ends with an epoch: `full_window_iff` finds it full exactly when
the commit falls on the first second of its epoch.
-/

namespace CleanWeb
namespace Contracts

open Lib Lib.Exec CWEEscrow

/-! ## What the window promises -/

/-- The challenge passes every check but the one on the window. -/
structure OtherwiseValid (d : Deployment) (w : World) (epochId : Nat)
    (escrowedWork challengerWork : Bytes32) : Prop where
  distinct : escrowedWork ≠ challengerWork
  committed : (w.slot epochId escrowedWork).committed = true
  unreleased : (w.slot epochId escrowedWork).released = false
  undisputed : (w.slot epochId escrowedWork).disputeId = 0
  content : w.registry.contentIdOf challengerWork = (w.slot epochId escrowedWork).contentId
  opens : ∃ out, w.jury.openDispute d.escrow w.timestamp escrowedWork challengerWork = .ok out

/-- No valid challenge of the slot comes too late, and no release of it goes through. -/
def WindowOpen (d : Deployment) (w : World) (epochId : Nat) (workId : Bytes32) : Prop :=
  (∀ sender challengerWork, OtherwiseValid d w epochId workId challengerWork →
      w.exec d sender (.challenge epochId workId challengerWork) ≠
        fail (.windowClosed epochId workId)) ∧
    ∀ sender, ∃ t, w.exec d sender (.release epochId workId) = .error t

/-- The aggregator's commit, as the next action of a run. -/
def commitAction (d : Deployment) (epochId : Nat) (workId : Bytes32) (amount : Nat) :
    Action Input :=
  .call (.tx d.aggregator (.commit epochId workId amount))

/-- After `acts` the commit is made and goes through. -/
def Commits (d : Deployment) (acts : List (Action Input)) (epochId : Nat) (workId : Bytes32)
    (amount : Nat) : Prop :=
  let c := (escrowSystem d).run (World.init d) acts
  admits d c.pending (.tx d.aggregator (.commit epochId workId amount)) = true ∧
    ∃ out, c.world.input d (.tx d.aggregator (.commit epochId workId amount)) = .ok out

/-- Whatever follows the commit, its slot's window stays open for the full time, until a verdict
moves the escrow out of the slot. -/
def FullWindow (d : Deployment) (acts : List (Action Input)) (epochId : Nat) (workId : Bytes32)
    (amount : Nat) : Prop :=
  let before := ((escrowSystem d).run (World.init d) acts).world
  let committed := acts ++ [commitAction d epochId workId amount]
  let start := ((escrowSystem d).run (World.init d) committed).world
  ∀ more,
    let w := ((escrowSystem d).run (World.init d) (committed ++ more)).world
    w.timestamp < before.timestamp + challengeWindow * epochLength →
      handedOver epochId workId (w.history.drop start.history.length) = false →
        WindowOpen d w epochId workId

/-! ## The checks of a slot that is not due -/

section Checks

variable {d : Deployment} {w : World} {epochId : Nat} {workId : Bytes32}

/-- Before the slot is due, a valid challenge goes through. -/
theorem challenge_of_valid {challengerWork : Bytes32}
    (hdue : currentEpoch w.timestamp < (w.slot epochId workId).releaseEpoch)
    (hvalid : OtherwiseValid d w epochId workId challengerWork) (sender : Address) :
    ∃ out, w.exec d sender (.challenge epochId workId challengerWork) = .ok out := by
  rcases hvalid.opens with ⟨⟨jury, disputeId⟩, hopen⟩
  have hcommitted := hvalid.committed
  have hunreleased := hvalid.unreleased
  have hcontent := hvalid.content
  have hundisputed := hvalid.undisputed
  simp only [World.slot] at hcommitted hunreleased hcontent hundisputed hdue
  have hchallenge : ∃ out, challenge w.registry d.escrow w.jury w.escrow w.timestamp epochId workId
      challengerWork = .ok out := by
    unfold challenge
    rw [if_neg hvalid.distinct]
    dsimp only
    rw [if_neg (by simp [hcommitted]), if_neg (by simp [hunreleased]), if_neg (Nat.not_le.2 hdue),
      if_neg (not_not.2 hundisputed), if_neg (not_not.2 hcontent), hopen]
    exact ⟨_, rfl⟩
  rcases hchallenge with ⟨out, hout⟩
  simp only [World.exec, hout]
  exact ⟨_, rfl⟩

theorem release_rejected (hdue : currentEpoch w.timestamp < (w.slot epochId workId).releaseEpoch)
    (sender : Address) : ∃ t, w.exec d sender (.release epochId workId) = .error t := by
  cases h : w.exec d sender (.release epochId workId) with
  | error t =>
      exact ⟨t, rfl⟩
  | ok out =>
      rcases bind_eq_ok.1 h with ⟨⟨escrow, s⟩, hrelease, -⟩
      rcases release_cases hrelease with ⟨-, hmature, -⟩
      exact absurd hmature.due (Nat.not_le.2 hdue)

theorem windowOpen_of_not_due
    (hdue : currentEpoch w.timestamp < (w.slot epochId workId).releaseEpoch) :
    WindowOpen d w epochId workId := by
  refine ⟨?_, release_rejected hdue⟩
  intro sender challengerWork hvalid hclosed
  rcases challenge_of_valid hdue hvalid sender with ⟨out, hout⟩
  rw [hout] at hclosed
  cases hclosed

end Checks

/-! ## What happens to the slot after the commit -/

/-- Since `start`, the slot is committed and due no earlier than `epoch`, as long as no verdict has
moved its escrow away. -/
structure KeptSince (start : World) (epochId : Nat) (workId : Bytes32) (epoch : Nat) (w : World) :
    Prop where
  extends_ : ∃ entries, w.history = start.history ++ entries
  kept : handedOver epochId workId (w.history.drop start.history.length) = false →
    (w.slot epochId workId).committed = true ∧ epoch ≤ (w.slot epochId workId).releaseEpoch

section Step

variable {start w w' : World} {epochId epoch : Nat} {workId : Bytes32}

theorem KeptSince.keep (h : KeptSince start epochId workId epoch w) {entries : List Entry}
    (hhistory : w'.history = w.history ++ entries)
    (hslot : entries.any (Entry.handsOver epochId workId) = false →
      (w.slot epochId workId).committed = true →
        (w'.slot epochId workId).committed = true ∧
          (w.slot epochId workId).releaseEpoch ≤ (w'.slot epochId workId).releaseEpoch) :
    KeptSince start epochId workId epoch w' := by
  rcases h.extends_ with ⟨since, hsince⟩
  refine ⟨⟨since ++ entries, by rw [hhistory, hsince, List.append_assoc]⟩, ?_⟩
  intro hnot
  have hold : w.history.drop start.history.length = since := by
    rw [hsince, List.drop_left]
  rw [hhistory, hsince, List.append_assoc, List.drop_left, handedOver, List.any_append,
    Bool.or_eq_false_iff] at hnot
  have hkept := h.kept (by rw [hold]; exact hnot.1)
  rcases hslot hnot.2 hkept.1 with ⟨hcommitted, hepoch⟩
  exact ⟨hcommitted, hkept.2.trans hepoch⟩

/-- The slot itself, or another one, is rewritten. -/
theorem kept_update {escrows : Nat × Bytes32 → Escrow} {k x : Nat × Bytes32} {e : Escrow}
    (he : (escrows k).committed = true →
      e.committed = true ∧ (escrows k).releaseEpoch ≤ e.releaseEpoch)
    (h : (escrows x).committed = true) :
    (Function.update escrows k e x).committed = true ∧
      (escrows x).releaseEpoch ≤ (Function.update escrows k e x).releaseEpoch := by
  by_cases hx : x = k
  · subst hx
    simpa using he h
  · simpa [hx] using h

theorem keptSince_effect {ps : List Payment} {k : Input} {out : World × Option Payment}
    (hw : KeptSince start epochId workId epoch w) (h : Effect w ps k out) :
    KeptSince start epochId workId epoch out.1 := by
  have hsame : (w.slot epochId workId).committed = true → (w.slot epochId workId).committed = true ∧
      (w.slot epochId workId).releaseEpoch ≤ (w.slot epochId workId).releaseEpoch :=
    fun hcommitted => ⟨hcommitted, Nat.le_refl _⟩
  cases h with
  | elapse seconds hrest => exact hw.keep (List.append_nil _).symm fun _ => hsame
  | receive value => exact hw.keep (List.append_nil _).symm fun _ => hsame
  | records sender c records heffect => exact hw.keep rfl fun _ => hsame
  | jurySettings _ owner escrow => exact hw.keep (List.append_nil _).symm fun _ => hsame
  | openDispute sender workA workB out hopen =>
      exact hw.keep (List.append_nil _).symm fun _ => hsame
  | vote juror disputeId forWork d' hvote hopen =>
      exact hw.keep (List.append_nil _).symm fun _ => hsame
  | finalize sender disputeId hopened hopen => exact hw.keep rfl fun _ => hsame
  | commit sender e x amount hrest hregistered hfresh hfit hfunds =>
      refine hw.keep rfl fun _ => kept_update fun hcommitted => ?_
      -- A committed slot is not committed again.
      rw [World.slot] at hfresh
      rw [hfresh] at hcommitted
      cases hcommitted
  | challenge sender e escrowedWork challengerWork self out hne hcommitted hreleased hcontent
      hopen =>
      exact hw.keep rfl fun _ => kept_update fun h => ⟨h, Nat.le_refl _⟩
  | reassign sender e escrowedWork hreleased hwins =>
      refine hw.keep rfl ?_
      intro hnot hcommitted
      simp only [World.slot] at hnot hcommitted ⊢
      by_cases hself : (epochId, workId) = (e, (w.escrow.escrows (e, escrowedWork)).challenger)
      · -- The slot is the winner's: merging takes the later of the two epochs.
        rw [hself, Function.update_self]
        refine ⟨rfl, ?_⟩
        simp only [merged]
        by_cases hloop : (e, (w.escrow.escrows (e, escrowedWork)).challenger) = (e, escrowedWork)
        · rw [hloop]
          exact Nat.le_max_right _ _
        · rw [Function.update_of_ne hloop]
          exact Nat.le_max_left _ _
      · -- The cleared slot is another one, or the slot would have been handed over.
        have hother := ne_of_not_handsOver hself hnot
        rw [Function.update_of_ne hself, Function.update_of_ne hother]
        exact ⟨hcommitted, Nat.le_refl _⟩
  | keep sender e escrowedWork hreleased =>
      exact hw.keep rfl fun _ => kept_update fun h => ⟨h, Nat.le_refl _⟩
  | release sender e x s hstatus hmature hpayees hamount hsend =>
      exact hw.keep rfl fun _ => kept_update fun h => ⟨h, Nat.le_refl _⟩

theorem keptSince_resume {p : Payment} {out : World × Option Payment}
    (hw : KeptSince start epochId workId epoch w) (h : w.resume p = .ok out) :
    KeptSince start epochId workId epoch out.1 := by
  rcases resume_cases h with ⟨-, rfl⟩ | ⟨q, s, -, -, rfl⟩
  · exact hw.keep (List.append_nil _).symm fun _ h => ⟨h, Nat.le_refl _⟩
  · exact hw.keep rfl fun _ h => ⟨h, Nat.le_refl _⟩

end Step

/-! ## The commit itself -/

section Commit

variable {d : Deployment} {acts : List (Action Input)} {epochId amount : Nat} {workId : Bytes32}

/-- The commit is made at rest, in a slot that is under no dispute and not released; it makes the
slot due `CHALLENGE_WINDOW` epochs after the current one. -/
structure CommitEffect (before after : World) (epochId : Nat) (workId : Bytes32) (amount : Nat) :
    Prop where
  timestamp : after.timestamp = before.timestamp
  registry : after.registry = before.registry
  payees : before.registry.payeesOf workId ≠ []
  committed : (after.slot epochId workId).committed = true
  unreleased : (after.slot epochId workId).released = false
  undisputed : (after.slot epochId workId).disputeId = 0
  amount : (after.slot epochId workId).amount = amount
  due : (after.slot epochId workId).releaseEpoch =
    currentEpoch before.timestamp + challengeWindow

theorem commitEffect (h : Commits d acts epochId workId amount) :
    ((escrowSystem d).run (World.init d) (acts ++ [commitAction d epochId workId amount])).AtRest ∧
      CommitEffect ((escrowSystem d).run (World.init d) acts).world
        ((escrowSystem d).run (World.init d) (acts ++ [commitAction d epochId workId amount])).world
        epochId workId amount := by
  rcases h with ⟨hallowed, out, hout⟩
  have hlinks := (links_run d acts).1
  rcases solvent_run d acts with ⟨due, -, hfunded⟩
  rw [Machine.run_append_singleton, commitAction, Machine.next_call_ok hallowed hout]
  generalize (escrowSystem d).run (World.init d) acts = c at *
  rcases bind_eq_ok.1 hout with ⟨escrow, hcommit, hdone⟩
  cases hdone
  rcases commit_cases hcommit with ⟨-, hregistered, hfresh, hfit, hfunds, rfl⟩
  have hrest : d.aggregator ≠ d.escrow ∧ c.frames = [] := by
    simpa [admits, Config.pending] using hallowed
  have hempty := hfunded.fresh hfresh
  have hundisputed := hlinks.undisputed hfresh
  refine ⟨hrest.2, rfl, rfl, ((hfunded.registry workId).payable hregistered).nonempty, ?_, ?_, ?_,
    ?_, ?_⟩
  · simp [World.slot]
  · simpa [World.slot] using hempty.2
  · simpa [World.slot] using hundisputed
  · simp [World.slot]
  · simp [World.slot]

/-- Whatever follows the commit, the slot stays due as late as the commit made it. -/
theorem keptSince_commit (h : Commits d acts epochId workId amount) (more : List (Action Input)) :
    let before := ((escrowSystem d).run (World.init d) acts).world
    let committed := acts ++ [commitAction d epochId workId amount]
    KeptSince ((escrowSystem d).run (World.init d) committed).world epochId workId
      (currentEpoch before.timestamp + challengeWindow)
      ((escrowSystem d).run (World.init d) (committed ++ more)).world := by
  intro before committed
  rcases commitEffect h with ⟨hrest, heffect⟩
  have hsplit : (escrowSystem d).run (World.init d) (committed ++ more) =
      more.foldl (escrowSystem d).next ((escrowSystem d).run (World.init d) committed) :=
    Machine.run_append more
  rw [hsplit]
  generalize (escrowSystem d).run (World.init d) committed = start at *
  refine Machine.foldl_inv (P := fun c => KeptSince start.world epochId workId
    (currentEpoch before.timestamp + challengeWindow) c.world) hrest ?_ ?_ ?_ more
  · exact ⟨⟨[], (List.append_nil _).symm⟩, fun _ => ⟨heffect.committed, heffect.due.ge⟩⟩
  · intro c k out hc hallowed hout
    rw [Config.world_enter]
    exact keptSince_effect hc (effect_of_call hallowed hout)
  · intro c f fs out hc _ hout
    rw [Config.world_enter]
    exact keptSince_resume hc hout

/-! ## When the window is full -/

theorem epochLength_pos : 0 < epochLength := by
  decide

/-- Before the full time is over no epoch boundary that matters has passed, if the commit fell on
one. -/
theorem currentEpoch_lt {t t' : Nat} (hboundary : epochLength ∣ t)
    (hbefore : t' < t + challengeWindow * epochLength) :
    currentEpoch t' < currentEpoch t + challengeWindow := by
  rcases hboundary with ⟨q, rfl⟩
  unfold currentEpoch
  rw [Nat.mul_div_cancel_left q epochLength_pos]
  refine Nat.div_lt_of_lt_mul ?_
  rw [Nat.mul_add, Nat.mul_comm epochLength challengeWindow]
  exact hbefore

/-- The start of the epoch in which the slot falls due, for a commit inside an epoch. -/
theorem due_before_full {t : Nat} (hinside : ¬ epochLength ∣ t) :
    t ≤ (currentEpoch t + challengeWindow) * epochLength ∧
      (currentEpoch t + challengeWindow) * epochLength < t + challengeWindow * epochLength := by
  have hmod : 0 < t % epochLength := Nat.pos_of_ne_zero fun h => hinside (Nat.dvd_of_mod_eq_zero h)
  have hlt : t % epochLength < epochLength := Nat.mod_lt t epochLength_pos
  have hsplit : epochLength * currentEpoch t + t % epochLength = t := Nat.div_add_mod t epochLength
  have hwindow : epochLength ≤ challengeWindow * epochLength := by
    decide
  rw [Nat.add_mul, Nat.mul_comm (currentEpoch t)]
  omega

/-- Time passes after the commit. -/
theorem run_commit_elapse (h : Commits d acts epochId workId amount) (seconds : Nat) :
    let start := ((escrowSystem d).run (World.init d)
      (acts ++ [commitAction d epochId workId amount])).world
    (escrowSystem d).run (World.init d)
      (acts ++ [commitAction d epochId workId amount] ++ [.call (.elapse seconds)]) =
        ⟨{ start with timestamp := start.timestamp + seconds }, []⟩ := by
  intro start
  have hrest := (commitEffect h).1
  have hallowed : (escrowSystem d).admits start
      ((escrowSystem d).run (World.init d) (acts ++ [commitAction d epochId workId amount])).pending
      (.elapse seconds) = true := by
    rw [hrest.pending]
    rfl
  rw [Machine.run_append_singleton, Machine.next_call_ok hallowed rfl, hrest]
  rfl

/-- Once only time has passed since the commit and the slot is due, its release starts. -/
theorem release_accepted (h : Commits d acts epochId workId amount) {seconds : Nat}
    (hdue : let before := ((escrowSystem d).run (World.init d) acts).world
      currentEpoch before.timestamp + challengeWindow ≤ currentEpoch (before.timestamp + seconds))
    (hamount : amount < 2 ^ 236) (sender : Address) :
    let start := ((escrowSystem d).run (World.init d)
      (acts ++ [commitAction d epochId workId amount])).world
    let later := ((escrowSystem d).run (World.init d)
      (acts ++ [commitAction d epochId workId amount] ++ [.call (.elapse seconds)])).world
    later = { start with timestamp := start.timestamp + seconds } ∧
      ∃ out, later.input d (.tx sender (.release epochId workId)) = .ok out := by
  intro start later
  rcases commitEffect h with ⟨hrest, heffect⟩
  have hlater := run_commit_elapse h seconds
  have hworld : later = { start with timestamp := start.timestamp + seconds } :=
    congrArg Config.world hlater
  refine ⟨hworld, ?_⟩
  have hslot : later.slot epochId workId = start.slot epochId workId := by
    rw [hworld]
    rfl
  have hregistry : later.registry = ((escrowSystem d).run (World.init d) acts).world.registry := by
    rw [hworld]
    exact heffect.registry
  have hmature : Mature later.timestamp (later.slot epochId workId) := by
    rw [hslot]
    refine ⟨heffect.committed, heffect.unreleased, heffect.undisputed, ?_⟩
    rw [heffect.due, hworld]
    change _ ≤ currentEpoch (start.timestamp + seconds)
    rw [heffect.timestamp]
    exact hdue
  have hpayees : later.registry.payeesOf workId ≠ [] := by
    rw [hregistry]
    exact heffect.payees
  have hsolvent := solvent_run d
    (acts ++ [commitAction d epochId workId amount] ++ [.call (.elapse seconds)])
  have hatrest : ((escrowSystem d).run (World.init d)
      (acts ++ [commitAction d epochId workId amount] ++ [.call (.elapse seconds)])).AtRest := by
    rw [hlater]
    rfl
  rw [release_starts_iff hsolvent hatrest sender hmature hpayees]
  rcases hsolvent with ⟨due, -, hfunded⟩
  have hready : (payment later.registry later.escrow epochId workId).Ready :=
    Payment.start_ready (hfunded.registry.payable_of_payees hpayees) _
  refine hready.toLoaded.fits ?_
  change (later.slot epochId workId).amount < _
  rw [hslot, heffect.amount]
  exact hamount

/-- A commit that falls on the first second of an epoch has the full window, and any other commit
of a payable amount does not: when the epoch ends, its slot can be released. -/
theorem full_window_iff (d : Deployment) (acts : List (Action Input)) (epochId amount : Nat)
    (workId : Bytes32) (h : Commits d acts epochId workId amount) :
    let before := ((escrowSystem d).run (World.init d) acts).world
    (epochLength ∣ before.timestamp → FullWindow d acts epochId workId amount) ∧
      (amount < 2 ^ 236 → FullWindow d acts epochId workId amount →
        epochLength ∣ before.timestamp) := by
  intro before
  constructor
  · intro hboundary more w hbefore hnot
    have hkept := (keptSince_commit h more).kept hnot
    exact windowOpen_of_not_due ((currentEpoch_lt hboundary hbefore).trans_le hkept.2)
  · intro hamount hfull
    by_contra hinside
    rcases due_before_full hinside with ⟨hle, hlt⟩
    -- Wait for the epoch in which the slot falls due.
    rcases Nat.exists_eq_add_of_le hle with ⟨seconds, hseconds⟩
    have hdue : currentEpoch before.timestamp + challengeWindow ≤
        currentEpoch (before.timestamp + seconds) := by
      rw [← hseconds]
      exact (Nat.mul_div_cancel _ epochLength_pos).ge
    rcases release_accepted h hdue hamount d.aggregator with ⟨hworld, out, hout⟩
    have hwindow := hfull [.call (.elapse seconds)]
    simp only at hwindow
    rw [hworld] at hwindow hout
    have hopen := hwindow (by
      change _ + seconds < _
      rw [(commitEffect h).2.timestamp, ← hseconds]
      exact hlt) (by simp [handedOver])
    rcases hopen.2 d.aggregator with ⟨t, hrejected⟩
    rw [World.input, hrejected] at hout
    cases hout

end Commit

/-! ## A window cut short -/

/-- Two works under one content id, 1,010 seconds into the first epoch. -/
def sampleRivals : List (Action Input) :=
  sampleSetup ++
    [.call (.tx 0xc0 (.records (.registerWork (sampleRegistration 2 7)))),
      .call (.elapse 10),
      .call (.tx 0xc0 (.records (.registerWork (sampleRegistration 1 7))))]

theorem commits_of_trap {d : Deployment} {acts : List (Action Input)} {epochId amount : Nat}
    {workId : Bytes32}
    (h : admits d ((escrowSystem d).run (World.init d) acts).pending
        (.tx d.aggregator (.commit epochId workId amount)) = true ∧
      trap (((escrowSystem d).run (World.init d) acts).world.input d
        (.tx d.aggregator (.commit epochId workId amount))) = none) :
    Commits d acts epochId workId amount :=
  ⟨h.1, exists_ok_of_trap h.2⟩

/-- 2,590,990 seconds after a commit of work 1, at the start of the next epoch. -/
def sampleLate : World :=
  ((escrowSystem sampleDeployment).run (World.init sampleDeployment)
    (sampleRivals ++ [commitAction sampleDeployment 0 1 30] ++ [.call (.elapse 2590990)])).world

/-- A commit now goes through, and when the epoch ends, 2,590,990 seconds later, work 2's challenge
comes too late. -/
theorem sampleRivals_window_closed :
    Commits sampleDeployment sampleRivals 0 1 30 ∧
      ¬ FullWindow sampleDeployment sampleRivals 0 1 30 := by
  refine ⟨commits_of_trap (by decide +kernel), ?_⟩
  intro h
  have hlater : sampleLate.timestamp <
        ((escrowSystem sampleDeployment).run (World.init sampleDeployment)
          sampleRivals).world.timestamp + challengeWindow * epochLength ∧
      handedOver 0 1 (sampleLate.history.drop
        ((escrowSystem sampleDeployment).run (World.init sampleDeployment)
          (sampleRivals ++ [commitAction sampleDeployment 0 1 30])).world.history.length) = false ∧
      (sampleLate.slot 0 1).committed = true ∧ (sampleLate.slot 0 1).released = false ∧
      (sampleLate.slot 0 1).disputeId = 0 ∧
      sampleLate.registry.contentIdOf 2 = (sampleLate.slot 0 1).contentId ∧
      trap (sampleLate.jury.openDispute sampleDeployment.escrow sampleLate.timestamp 1 2) = none ∧
      trap (sampleLate.exec sampleDeployment 0xff (.challenge 0 1 2)) =
        some (.err (.windowClosed 0 1)) := by
    decide +kernel
  rcases hlater with
    ⟨hbefore, hnot, hcommitted, hunreleased, hundisputed, hcontent, hopens, hclosed⟩
  unfold sampleLate at hbefore hnot
  have hwindow : WindowOpen sampleDeployment sampleLate 0 1 :=
    h [.call (.elapse 2590990)] hbefore hnot
  exact hwindow.1 0xff 2 ⟨by decide, hcommitted, hunreleased, hundisputed, hcontent,
    exists_ok_of_trap hopens⟩ (eq_error_of_trap hclosed)

/-- Committed on the first second of the next epoch, the same escrow has its full window. -/
theorem full_window_sample :
    FullWindow sampleDeployment (sampleRivals ++ [.call (.elapse 2590990)]) 0 1 30 := by
  have hcommits : Commits sampleDeployment (sampleRivals ++ [.call (.elapse 2590990)]) 0 1 30 :=
    commits_of_trap (by decide +kernel)
  rcases full_window_iff sampleDeployment _ 0 30 1 hcommits with ⟨hfull, -⟩
  exact hfull (by decide +kernel)

end Contracts
end CleanWeb
