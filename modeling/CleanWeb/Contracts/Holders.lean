import CleanWeb.Contracts.CommitOnce
import CleanWeb.Contracts.Solvency

/-!
# Holders of an escrow

A commit checks that the work is registered; a reassignment checks only that the challenger's
content id matches, and an unregistered work has content id zero.  `holders_payable_iff` says that
the registered holders are all that the guarantee needs: a run keeps every holder payable, and
every mature release unobstructed, exactly if no verdict is applied for an unregistered challenger
and no share's product leaves its word.
-/

namespace CleanWeb
namespace Contracts

open Lib Lib.Exec

/-! ## The guarantee and its condition -/

/-- Every committed slot belongs to a registered work with payees and full splits. -/
def HoldersPayable (w : World) : Prop :=
  ∀ epochId workId, (w.slot epochId workId).committed = true →
    w.registry.isRegistered workId = true ∧ CWERegistry.Payable (w.registry.works workId)

/-- At a transaction boundary a release of a mature slot does not start, or a release does not go
on although the payee has accepted. -/
def UnexpectedRevert (d : Deployment) (c : Config World Payment) : Action Input → Prop
  | .call (.tx sender (.release epochId workId)) =>
      c.AtRest ∧ CWEEscrow.Mature c.world.timestamp (c.world.slot epochId workId) ∧
        ∀ out, c.world.input d (.tx sender (.release epochId workId)) ≠ .ok out
  | .returns true =>
      ∃ f fs, c.frames = f :: fs ∧ ∀ out, c.world.resume f.pending ≠ .ok out
  | _ => False

/-- A verdict applied for a challenger finds it registered; a share's product fits its word. -/
def SafeStep (d : Deployment) (c : Config World Payment) : Action Input → Prop
  | .call (.tx sender (.resolveDispute epochId escrowedWork)) =>
      admits d c.pending (.tx sender (.resolveDispute epochId escrowedWork)) = true →
        (c.world.slot epochId escrowedWork).released = false →
        CWEEscrow.ChallengerWins c.world.jury (c.world.slot epochId escrowedWork) →
        c.world.registry.isRegistered (c.world.slot epochId escrowedWork).challenger = true
  | .call (.tx _ (.release epochId workId)) =>
      c.AtRest → CWEEscrow.Mature c.world.timestamp (c.world.slot epochId workId) →
        (CWEEscrow.payment c.world.registry c.world.escrow epochId workId).Fits
  | .returns true =>
      ∀ f fs q, c.frames = f :: fs → f.pending.advance = some q → q.Fits
  | _ => True

/-! ## Holders stay registered -/

def HoldersRegistered (w : World) : Prop :=
  ∀ epochId workId, (w.slot epochId workId).committed = true →
    w.registry.isRegistered workId = true

theorem HoldersRegistered.payable {w : World} (h : HoldersRegistered w)
    (hregistry : w.registry.WellFormed) : HoldersPayable w := by
  intro epochId workId hcommitted
  have hregistered := h epochId workId hcommitted
  exact ⟨hregistered, (hregistry workId).payable hregistered⟩

section Step

variable {w w' : World}

/-- Registered works stay registered, and a newly committed slot belongs to one. -/
theorem HoldersRegistered.keep (h : HoldersRegistered w)
    (hregistry : ∀ workId, w.registry.isRegistered workId = true →
      w'.registry.isRegistered workId = true)
    (hslots : ∀ epochId workId, (w'.slot epochId workId).committed = true →
      (w.slot epochId workId).committed = true ∨ w.registry.isRegistered workId = true) :
    HoldersRegistered w' := by
  intro epochId workId hcommitted
  refine hregistry workId ?_
  rcases hslots epochId workId hcommitted with hold | hregistered
  · exact h epochId workId hold
  · exact hregistered

/-- Writing one slot. -/
theorem committed_of_update {escrows : Nat × Bytes32 → Escrow} {k x : Nat × Bytes32} {e : Escrow}
    {p : Prop} (he : x = k → e.committed = true → (escrows x).committed = true ∨ p)
    (h : (Function.update escrows k e x).committed = true) :
    (escrows x).committed = true ∨ p := by
  by_cases hx : x = k
  · subst hx
    rw [Function.update_self] at h
    exact he rfl h
  · rw [Function.update_of_ne hx] at h
    exact Or.inl h

theorem holdersRegistered_effect {ps : List Payment} {k : Input} {out : World × Option Payment}
    (hw : HoldersRegistered w) (h : Effect w ps k out)
    (hsafe : ∀ sender epochId escrowedWork, k = .tx sender (.resolveDispute epochId escrowedWork) →
      (w.slot epochId escrowedWork).released = false →
      CWEEscrow.ChallengerWins w.jury (w.slot epochId escrowedWork) →
      w.registry.isRegistered (w.slot epochId escrowedWork).challenger = true) :
    HoldersRegistered out.1 := by
  cases h with
  | elapse seconds hrest => exact hw.keep (fun _ => id) fun _ _ => Or.inl
  | receive value => exact hw.keep (fun _ => id) fun _ _ => Or.inl
  | records sender c records heffect =>
      exact hw.keep (fun _ => heffect.isRegistered) fun _ _ => Or.inl
  | jurySettings _ owner escrow => exact hw.keep (fun _ => id) fun _ _ => Or.inl
  | openDispute sender workA workB out hopen => exact hw.keep (fun _ => id) fun _ _ => Or.inl
  | vote juror disputeId forWork d' hvote hopen => exact hw.keep (fun _ => id) fun _ _ => Or.inl
  | finalize sender disputeId hopened hopen => exact hw.keep (fun _ => id) fun _ _ => Or.inl
  | commit sender e x amount hrest hregistered hfresh hfit hfunds =>
      refine hw.keep (fun _ => id) fun epochId workId => committed_of_update ?_
      rintro heq -
      cases heq
      exact Or.inr hregistered
  | challenge sender e escrowedWork challengerWork self out hne hcommitted hreleased hcontent
      hopen =>
      refine hw.keep (fun _ => id) fun epochId workId => committed_of_update ?_
      rintro heq -
      cases heq
      exact Or.inl hcommitted
  | reassign sender e escrowedWork hreleased hwins =>
      have hregistered := hsafe sender e escrowedWork rfl hreleased hwins
      refine hw.keep (fun _ => id) ?_
      intro epochId workId hcommitted
      by_cases hto : (epochId, workId) = (e, (w.escrow.escrows (e, escrowedWork)).challenger)
      · cases hto
        exact Or.inr hregistered
      · -- Any other committed slot is an old one: the deleted slot is not committed.
        simp only [World.slot] at hcommitted
        rw [Function.update_of_ne hto] at hcommitted
        refine committed_of_update ?_ hcommitted
        intro _ hdefault
        cases hdefault
  | keep sender e escrowedWork hreleased =>
      refine hw.keep (fun _ => id) fun epochId workId => committed_of_update ?_
      rintro heq hcommitted
      cases heq
      exact Or.inl hcommitted
  | release sender e x s hstatus hmature hpayees hamount hsend =>
      refine hw.keep (fun _ => id) fun epochId workId => committed_of_update ?_
      rintro heq hcommitted
      cases heq
      exact Or.inl hcommitted

theorem holdersRegistered_resume {p : Payment} {out : World × Option Payment}
    (hw : HoldersRegistered w) (h : w.resume p = .ok out) : HoldersRegistered out.1 := by
  rcases resume_cases h with ⟨-, rfl⟩ | ⟨q, s, -, -, rfl⟩
  · exact hw.keep (fun _ => id) fun _ _ => Or.inl
  · exact hw.keep (fun _ => id) fun _ _ => Or.inl

end Step

theorem holdersRegistered_run (d : Deployment) {acts : List (Action Input)}
    (h : (escrowSystem d).Steps (SafeStep d) (World.init d) acts) :
    HoldersRegistered ((escrowSystem d).run (World.init d) acts).world := by
  refine Machine.run_inv_of_steps (P := fun c => HoldersRegistered c.world) ?_ ?_ ?_ h
  · intro epochId workId hcommitted
    cases hcommitted
  · intro c k out hc hsafe hallowed hout
    rw [Config.world_enter]
    refine holdersRegistered_effect hc (effect_of_call hallowed hout) ?_
    rintro sender epochId escrowedWork rfl
    exact hsafe hallowed
  · intro c f fs out hc _ _ hout
    rw [Config.world_enter]
    exact holdersRegistered_resume hc hout

/-! ## Releases go through -/

section Release

variable {d : Deployment} {c : Config World Payment}

/-- With the guard open and the holder payable, a mature release starts if its product fits. -/
theorem release_starts_iff (hc : Solvent c) (hrest : c.AtRest) (sender : Address)
    {epochId : Nat} {workId : Bytes32}
    (hmature : CWEEscrow.Mature c.world.timestamp (c.world.slot epochId workId))
    (hpayees : c.world.registry.payeesOf workId ≠ []) :
    (∃ out, c.world.input d (.tx sender (.release epochId workId)) = .ok out) ↔
      (CWEEscrow.payment c.world.registry c.world.escrow epochId workId).Fits := by
  rcases hc with ⟨due, hunder, hfunded⟩
  rw [show c.frames = [] from hrest] at hunder
  cases hunder with
  | rest hstatus =>
      have hamount : (c.world.slot epochId workId).amount ≤ c.world.escrow.liability :=
        hfunded.liability.le (epochId, workId)
      have hready : (CWEEscrow.payment c.world.registry c.world.escrow epochId workId).Ready :=
        Payment.start_ready (hfunded.registry.payable_of_payees hpayees) _
      have hcovered := hfunded.covered
      rw [← Payment.exists_send_iff hready (lt_of_le_of_lt hamount hfunded.wide)
        (show (c.world.slot epochId workId).amount - 0 ≤ c.world.escrow.balance by omega)]
      constructor
      · rintro ⟨out, hout⟩
        rcases bind_eq_ok.1 hout with ⟨⟨escrow, s⟩, hrelease, -⟩
        rcases CWEEscrow.release_cases hrelease with ⟨-, -, -, -, hsend, -⟩
        exact ⟨s, hsend⟩
      · rintro ⟨s, hs⟩
        have hstart : c.world.input d (.tx sender (.release epochId workId)) =
            .ok ({ c.world with
              escrow := c.world.escrow.releasing epochId workId s.balance
              history := c.world.history ++
                [.escrowReleased epochId workId (c.world.slot epochId workId).amount,
                  .paid s.payee s.value] }, some s.payment) := by
          simp only [World.input, World.exec]
          rw [CWEEscrow.release_of_mature hstatus hmature hpayees hamount, hs]
          rfl
        exact ⟨_, hstart⟩

/-- A release goes on after a payee's return if the next product, if any, fits. -/
theorem release_continues_iff (hc : Solvent c) {f : Frame World Payment}
    {fs : List (Frame World Payment)} (hframes : c.frames = f :: fs) :
    (∃ out, c.world.resume f.pending = .ok out) ↔
      ∀ q, f.pending.advance = some q → q.Fits := by
  rcases hc with ⟨due, hunder, hfunded⟩
  rw [hframes] at hunder
  cases hunder with
  | paying _ hstatus hsent hwide hslot hpaid =>
      cases hnext : f.pending.advance with
      | none =>
          constructor
          · rintro - q hq
            cases hq
          · intro _
            have hdone : c.world.resume f.pending =
                .ok ({ c.world with escrow := { c.world.escrow with status := .notEntered } },
                  none) := by
              simp only [World.resume, CWEEscrow.payeeReturned, hnext]
              rfl
            exact ⟨_, hdone⟩
      | some q =>
          rcases hsent.advance hnext with ⟨hready, heq, hdue⟩
          have hcovered := hfunded.covered
          have hconserved := hfunded.conserved
          have hwide' : q.amount < 2 ^ 256 := by
            rw [heq]
            exact hwide
          have hiff := Payment.exists_send_iff hready hwide'
            (show q.amount - q.distributed ≤ c.world.escrow.balance by omega)
          constructor
          · rintro ⟨out, hout⟩ q' hq'
            cases hq'
            rcases resume_cases hout with ⟨hlast, -⟩ | ⟨q'', s, hq'', hsend, -⟩
            · rw [hnext] at hlast
              cases hlast
            · rw [hnext] at hq''
              cases hq''
              exact hiff.1 ⟨s, hsend⟩
          · intro hfits
            rcases hiff.2 (hfits q rfl) with ⟨s, hs⟩
            have hturn : c.world.resume f.pending =
                .ok ({ c.world with
                  escrow := { c.world.escrow with balance := s.balance }
                  history := c.world.history ++ [.paid s.payee s.value] }, some s.payment) := by
              simp only [World.resume, CWEEscrow.payeeReturned, hnext, hs]
              rfl
            exact ⟨_, hturn⟩

end Release

/-! ## One action -/

section Action

variable {d : Deployment} {c : Config World Payment} {a : Action Input}

theorem not_unexpectedRevert (hc : Solvent c) (hholders : HoldersRegistered c.world)
    (hsafe : SafeStep d c a) : ¬ UnexpectedRevert d c a := by
  intro hrevert
  unfold UnexpectedRevert at hrevert
  split at hrevert
  · rename_i sender epochId workId
    rcases hrevert with ⟨hrest, hmature, hstuck⟩
    have hc' := hc
    rcases hc' with ⟨due, -, hfunded⟩
    have hpayable := hholders.payable hfunded.registry epochId workId hmature.committed
    rcases (release_starts_iff hc hrest sender hmature hpayable.2.nonempty).2
      (hsafe hrest hmature) with ⟨out, hout⟩
    exact hstuck out hout
  · rcases hrevert with ⟨f, fs, hframes, hstuck⟩
    rcases (release_continues_iff hc hframes).2 (fun q => hsafe f fs q hframes) with ⟨out, hout⟩
    exact hstuck out hout
  · exact hrevert

/-- A verdict for an unregistered challenger would leave an unpayable holder. -/
theorem challenger_registered {sender : Address} {epochId : Nat} {escrowedWork : Bytes32}
    (hc : Solvent c)
    (hallowed : admits d c.pending (.tx sender (.resolveDispute epochId escrowedWork)))
    (hreleased : (c.world.slot epochId escrowedWork).released = false)
    (hwins : CWEEscrow.ChallengerWins c.world.jury (c.world.slot epochId escrowedWork))
    (hnext : HoldersPayable ((escrowSystem d).next c
      (.call (.tx sender (.resolveDispute epochId escrowedWork)))).world) :
    c.world.registry.isRegistered (c.world.slot epochId escrowedWork).challenger = true := by
  rcases hc with ⟨due, -, hfunded⟩
  have hfit := lt_of_le_of_lt (hfunded.merge_le (epochId, escrowedWork)
    (epochId, (c.world.slot epochId escrowedWork).challenger)) hfunded.wide
  rcases CWEEscrow.resolveDispute_of_wins hreleased hwins hfit with ⟨out, hout⟩
  have hcall : ((escrowSystem d).next c
      (.call (.tx sender (.resolveDispute epochId escrowedWork)))).world =
      { c.world with
        escrow := out.1
        history := c.world.history ++ [.disputeResolved epochId escrowedWork out.2
          (c.world.slot epochId escrowedWork).disputeId] } := by
    have hinput :
        (escrowSystem d).call c.world (.tx sender (.resolveDispute epochId escrowedWork)) =
        .ok ({ c.world with
          escrow := out.1
          history := c.world.history ++ [.disputeResolved epochId escrowedWork out.2
            (c.world.slot epochId escrowedWork).disputeId] }, none) := by
      simp only [escrowSystem, World.input, World.exec, hout]
      rfl
    have hallowed' : (escrowSystem d).admits c.world c.pending
        (.tx sender (.resolveDispute epochId escrowedWork)) = true := hallowed
    simp only [Machine.next, hallowed', if_true, hinput, Config.enter_none]
  rw [hcall] at hnext
  rcases CWEEscrow.resolveDispute_cases hout with
    ⟨-, -, ⟨-, -, hescrow⟩ | ⟨hkeeps, -, -⟩⟩
  · refine (hnext epochId _ ?_).1
    simp [World.slot, hescrow, CWEEscrow.merged]
  · exact absurd hwins hkeeps

theorem safeStep_of_payable (hc : Solvent c) (hholders : HoldersPayable c.world)
    (hnext : HoldersPayable ((escrowSystem d).next c a).world)
    (hrevert : ¬ UnexpectedRevert d c a) : SafeStep d c a := by
  unfold SafeStep
  split
  · intro hallowed hreleased hwins
    exact challenger_registered hc hallowed hreleased hwins hnext
  · rename_i sender epochId workId
    intro hrest hmature
    have hpayees := (hholders epochId workId hmature.committed).2.nonempty
    rw [← release_starts_iff (d := d) hc hrest sender hmature hpayees]
    by_contra hnone
    exact hrevert ⟨hrest, hmature, not_exists.1 hnone⟩
  · intro f fs q hframes
    refine (release_continues_iff hc hframes).1 ?_ q
    by_contra hnone
    exact hrevert ⟨f, fs, hframes, not_exists.1 hnone⟩
  · trivial

end Action

/-! ## Every run -/

/-- In every run: every holder of every reached state is payable and no mature release is refused
but by a payee, if and only if every verdict applied for a challenger finds it registered and
every share's product fits its word. -/
theorem holders_payable_iff (d : Deployment) (acts : List (Action Input)) :
    ((∀ pre, pre <+: acts → HoldersPayable ((escrowSystem d).run (World.init d) pre).world) ∧
        (escrowSystem d).Steps (fun c a => ¬ UnexpectedRevert d c a) (World.init d) acts) ↔
      (escrowSystem d).Steps (SafeStep d) (World.init d) acts := by
  induction acts using List.reverseRecOn with
  | nil =>
      refine ⟨fun _ => trivial, fun _ => ⟨?_, trivial⟩⟩
      rintro pre hpre epochId workId hcommitted
      rw [List.prefix_nil.1 hpre] at hcommitted
      cases hcommitted
  | append_singleton acts a ih =>
      have hsolvent := solvent_run d acts
      rw [Machine.steps_append_singleton, Machine.steps_append_singleton]
      constructor
      · rintro ⟨hpayable, hreverts, hrevert⟩
        refine ⟨ih.1 ⟨fun pre hpre => hpayable pre (hpre.trans (List.prefix_append _ _)), hreverts⟩,
          ?_⟩
        have hnext := hpayable (acts ++ [a]) List.prefix_rfl
        rw [Machine.run_append_singleton] at hnext
        exact safeStep_of_payable hsolvent (hpayable acts (List.prefix_append _ _)) hnext hrevert
      · rintro ⟨hsafe, ha⟩
        rcases ih.2 hsafe with ⟨hpayable, hreverts⟩
        refine ⟨?_, hreverts, ?_⟩
        · intro pre hpre
          rcases List.prefix_concat_iff.1 hpre with rfl | hpre
          · rcases solvent_run d (acts ++ [a]) with ⟨due, -, hfunded⟩
            exact (holdersRegistered_run d (Machine.steps_append_singleton.2 ⟨hsafe, ha⟩)).payable
              hfunded.registry
          · exact hpayable pre hpre
        · exact not_unexpectedRevert hsolvent (holdersRegistered_run d hsafe) ha

/-! ## A holder that cannot be paid -/

/-- Work 1 is registered under content id zero and committed; work 9, which nobody registered,
challenges it and wins the jury's vote; the window then passes. -/
def sampleOrphan : List (Action Input) :=
  sampleSetup ++
    [.call (.tx 0xc0 (.records (.registerWork (sampleRegistration 1 0)))),
      .call (.tx 0xe0 (.commit 0 1 30)),
      .call (.tx 0xff (.challenge 0 1 9)),
      .call (.tx 0xd0 (.vote 1 9)),
      .call (.elapse 2592000),
      .call (.tx 0xff (.finalize 1)),
      .call (.tx 0xff (.resolveDispute 0 1))]

/-- Work 9 holds the escrow, is mature, and its release reverts with `WorkNotRegistered`. -/
theorem sampleOrphan_not_payable :
    let c := (escrowSystem sampleDeployment).run (World.init sampleDeployment) sampleOrphan
    ¬ HoldersPayable c.world ∧
      CWEEscrow.Mature c.world.timestamp (c.world.slot 0 9) ∧
      c.world.input sampleDeployment (.tx 0xff (.release 0 9)) =
        .error (.err (.workNotRegistered 9)) := by
  intro c
  -- One evaluation of the run gives everything about the world that it ends in.
  have hrun : c.world.registry.isRegistered 9 = false ∧
      ((c.world.slot 0 9).committed = true ∧ (c.world.slot 0 9).released = false ∧
        (c.world.slot 0 9).disputeId = 0 ∧
        (c.world.slot 0 9).releaseEpoch ≤ CWEEscrow.currentEpoch c.world.timestamp) ∧
      trap (c.world.input sampleDeployment (.tx 0xff (.release 0 9))) =
        some (.err (.workNotRegistered 9)) := by
    decide +kernel
  rcases hrun with ⟨hunregistered, ⟨hcommitted, hunreleased, hundisputed, hdue⟩, hrejected⟩
  refine ⟨?_, ⟨hcommitted, hunreleased, hundisputed, hdue⟩, eq_error_of_trap hrejected⟩
  intro hpayable
  have hregistered := (hpayable 0 9 hcommitted).1
  rw [hunregistered] at hregistered
  cases hregistered

end Contracts
end CleanWeb
