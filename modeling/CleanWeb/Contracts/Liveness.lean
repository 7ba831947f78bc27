import CleanWeb.Contracts.Holders
import CleanWeb.Contracts.Linkage
import CleanWeb.Contracts.PayLoop
import CleanWeb.Lib.Reach

/-!
# No escrow is frozen

Whatever has happened, any account that waits, finalizes, resolves and releases empties the
escrow: a silent jury is decided by its fallback, a chain of challenges is resolved one dispute at
a time, and what is then held is due in time and paid out in full.  `Grounded` is what makes every
holder payable: where no work is registered under content id zero, a challenger is registered.
-/

namespace CleanWeb
namespace Contracts

open Lib Lib.Exec

/-! ## Holders and challengers are registered -/

/-- Nobody has registered a work under content id zero. -/
def Contentful (history : List Entry) : Prop :=
  ∀ workId timestamp, .workRegistered workId 0 timestamp ∉ history

theorem Contentful.of_append {history entries : List Entry} (h : Contentful (history ++ entries)) :
    Contentful history :=
  fun workId timestamp hmem => h workId timestamp (List.mem_append_left _ hmem)

/-- Entries that register nothing. -/
theorem Contentful.append {history entries : List Entry} (h : Contentful history)
    (hquiet : ∀ workId contentId timestamp, .workRegistered workId contentId timestamp ∉ entries) :
    Contentful (history ++ entries) := by
  intro workId timestamp hmem
  rcases List.mem_append.1 hmem with hold | hnew
  · exact h workId timestamp hold
  · exact hquiet workId 0 timestamp hnew

/-- The history only grows. -/
theorem Effect.contentful {w : World} {ps : List Payment} {k : Input} {out : World × Option Payment}
    (h : Effect w ps k out) (hcontent : Contentful out.1.history) : Contentful w.history := by
  cases h with
  | elapse | receive | jurySettings | openDispute | vote => exact hcontent
  | _ => exact hcontent.of_append

/-- Content ids are not zero, so that only a registered work can share one. -/
structure Grounded (w : World) : Prop where
  works : ∀ workId, w.registry.isRegistered workId = true → w.registry.contentIdOf workId ≠ 0
  slots : ∀ k, (w.escrow.escrows k).committed = true → (w.escrow.escrows k).contentId ≠ 0
  challengers : ∀ k, (w.escrow.escrows k).disputeId ≠ 0 →
    w.registry.isRegistered (w.escrow.escrows k).challenger = true
  holders : HoldersRegistered w

section Step

variable {w w' : World}

/-- The slots are as they were. -/
theorem Grounded.unmoved (h : Grounded w) (hregistry : w'.registry = w.registry)
    (hslots : w'.escrow.escrows = w.escrow.escrows) (hholders : HoldersRegistered w') :
    Grounded w' := by
  refine ⟨?_, ?_, ?_, hholders⟩
  · rw [hregistry]
    exact h.works
  · rw [hslots]
    exact h.slots
  · rw [hslots, hregistry]
    exact h.challengers

/-- One slot is written, and the work that it belongs to keeps a content. -/
theorem Grounded.written (h : Grounded w) {k : Nat × Bytes32} {e : Escrow}
    (hregistry : w'.registry = w.registry)
    (hslots : w'.escrow.escrows = Function.update w.escrow.escrows k e)
    (hcontent : e.committed = true → e.contentId ≠ 0)
    (hchallenger : e.disputeId ≠ 0 → w.registry.isRegistered e.challenger = true)
    (hholders : HoldersRegistered w') : Grounded w' := by
  refine ⟨?_, ?_, ?_, hholders⟩
  · rw [hregistry]
    exact h.works
  · intro x hx
    rw [hslots] at hx ⊢
    by_cases hxk : x = k
    · subst hxk
      rw [Function.update_self] at hx ⊢
      exact hcontent hx
    · rw [Function.update_of_ne hxk] at hx ⊢
      exact h.slots x hx
  · intro x hx
    rw [hslots] at hx ⊢
    rw [hregistry]
    by_cases hxk : x = k
    · subst hxk
      rw [Function.update_self] at hx ⊢
      exact hchallenger hx
    · rw [Function.update_of_ne hxk] at hx ⊢
      exact h.challengers x hx

/-- A registration under a content id gives its work that one, and the others keep theirs. -/
theorem works_records {timestamp : Nat} {st st' : Records} {c : RecordCall} {history : List Entry}
    (h : ∀ workId, st.registry.isRegistered workId = true → st.registry.contentIdOf workId ≠ 0)
    (heffect : RecordEffect timestamp st c st')
    (hcontent : Contentful (history ++ World.recordEntries timestamp c)) (workId : Bytes32)
    (hworkId : st'.registry.isRegistered workId = true) :
    st'.registry.contentIdOf workId ≠ 0 := by
  cases heffect with
  | identity _ _ identity => exact h workId hworkId
  | owner _ _ owner => exact h workId hworkId
  | register r work hwork =>
      by_cases hid : workId = r.workId
      · subst hid
        simp only [CWERegistry.contentIdOf, Function.update_self, hwork.contentId]
        intro hzero
        apply hcontent r.workId timestamp
        simp [World.recordEntries, hzero]
      · simp only [CWERegistry.isRegistered, Function.update_of_ne hid] at hworkId
        simp only [CWERegistry.contentIdOf, Function.update_of_ne hid]
        exact h workId hworkId
  | bandwidth x rate =>
      by_cases hid : workId = x
      · subst hid
        simp only [CWERegistry.isRegistered, Function.update_self] at hworkId
        simp only [CWERegistry.contentIdOf, Function.update_self]
        exact h workId hworkId
      · simp only [CWERegistry.isRegistered, Function.update_of_ne hid] at hworkId
        simp only [CWERegistry.contentIdOf, Function.update_of_ne hid]
        exact h workId hworkId

theorem grounded_effect {ps : List Payment} {k : Input} {out : World × Option Payment}
    (hw : Grounded w) (hlinks : Links w) (hregistry : w.registry.WellFormed)
    (h : Effect w ps k out) (hcontent : Contentful out.1.history) : Grounded out.1 := by
  have hholders : HoldersRegistered out.1 := by
    apply holdersRegistered_effect hw.holders h
    intro sender epochId escrowedWork _ _ hwins
    exact hw.challengers (epochId, escrowedWork) hwins.1
  cases h with
  | elapse seconds hrest => exact hw.unmoved rfl rfl hholders
  | receive value => exact hw.unmoved rfl rfl hholders
  | records sender c records heffect =>
      refine ⟨works_records hw.works heffect hcontent, hw.slots, ?_, hholders⟩
      intro x hx
      exact heffect.isRegistered (hw.challengers x hx)
  | jurySettings _ owner escrow => exact hw.unmoved rfl rfl hholders
  | openDispute sender workA workB out hopen => exact hw.unmoved rfl rfl hholders
  | vote juror disputeId forWork d' hvote hopen => exact hw.unmoved rfl rfl hholders
  | finalize sender disputeId hopened hopen => exact hw.unmoved rfl rfl hholders
  | commit sender e x amount hrest hregistered hfresh hfit hfunds =>
      refine hw.written rfl rfl ?_ ?_ hholders
      · intro _
        exact hw.works x hregistered
      · exact hw.challengers (e, x)
  | challenge sender e escrowedWork challengerWork self out hne hcommitted hreleased hsame hopen =>
      have hslot : (w.slot e escrowedWork).contentId ≠ 0 := hw.slots (e, escrowedWork) hcommitted
      refine hw.written rfl rfl (fun _ => hslot) ?_ hholders
      intro _
      -- An unregistered work has content id zero, which no slot has.
      by_contra hunregistered
      have hblank := (hregistry challengerWork).fresh (eq_false_of_ne_true hunregistered)
      rw [← hsame] at hslot
      exact hslot hblank.2.1
  | reassign sender e escrowedWork hreleased hwins =>
      have hcommitted := (hlinks.linked (e, escrowedWork) hwins.1).committed
      have hslot := hw.slots (e, escrowedWork) hcommitted
      -- Deleting the disputed slot leaves a state in which the winner's is written.
      have hcleared : Grounded { w with
          escrow := { w.escrow with
            escrows := Function.update w.escrow.escrows (e, escrowedWork) default } } := by
        refine hw.written rfl rfl ?_ ?_ ?_
        · intro hdefault
          cases hdefault
        · intro hdefault
          exact absurd rfl hdefault
        · refine hw.holders.keep (fun _ => id) fun epochId workId => committed_of_update ?_
          intro _ hdefault
          cases hdefault
      refine hcleared.written rfl rfl (fun _ => hslot) ?_ hholders
      exact hcleared.challengers (e, (w.slot e escrowedWork).challenger)
  | keep sender e escrowedWork hreleased =>
      refine hw.written rfl rfl (hw.slots (e, escrowedWork)) ?_ hholders
      intro hzero
      exact absurd rfl hzero
  | release sender e x s hstatus hmature hpayees hamount hsend =>
      refine hw.written rfl rfl (hw.slots (e, x)) ?_ hholders
      exact hw.challengers (e, x)

/-! ## Every opened dispute can be decided -/

/-- A dispute has an end, and finitely many slots have been committed. -/
structure Bounded (w : World) : Prop where
  ends : ∀ disputeId, disputeId ≠ 0 → disputeId ≤ w.jury.nextDisputeId →
    (w.jury.disputes disputeId).voteEnd ≠ 0
  finite : {k | (w.escrow.escrows k).committed = true}.Finite

theorem Bounded.written (h : Bounded w) {k : Nat × Bytes32} {e : Escrow}
    (hjury : w'.jury = w.jury) (hslots : w'.escrow.escrows = Function.update w.escrow.escrows k e) :
    Bounded w' := by
  refine ⟨hjury ▸ h.ends, (h.finite.insert k).subset ?_⟩
  intro x (hx : (w'.escrow.escrows x).committed = true)
  rw [hslots] at hx
  by_cases hxk : x = k
  · exact Or.inl hxk
  · rw [Function.update_of_ne hxk] at hx
    exact Or.inr hx

/-- Rewriting a dispute that keeps its end. -/
theorem Bounded.decided (h : Bounded w) {disputeId : Nat} {d' : Dispute}
    (hend : d'.voteEnd = (w.jury.disputes disputeId).voteEnd)
    (hjury : w'.jury =
      { w.jury with disputes := Function.update w.jury.disputes disputeId d' })
    (hescrow : w'.escrow = w.escrow) : Bounded w' := by
  refine ⟨?_, hescrow ▸ h.finite⟩
  intro i hi hle
  rw [hjury] at hle ⊢
  dsimp only at hle ⊢
  by_cases hid : i = disputeId
  · subst hid
    rw [Function.update_self, hend]
    exact h.ends i hi hle
  · rw [Function.update_of_ne hid]
    exact h.ends i hi hle

/-- A new dispute ends a voting window from now. -/
theorem ends_open {jury : CWEJury} {sender : Address} {timestamp : Nat} {workA workB : Bytes32}
    {out : CWEJury × Nat}
    (h : ∀ i, i ≠ 0 → i ≤ jury.nextDisputeId → (jury.disputes i).voteEnd ≠ 0)
    (hopen : jury.openDispute sender timestamp workA workB = .ok out) :
    ∀ i, i ≠ 0 → i ≤ out.1.nextDisputeId → (out.1.disputes i).voteEnd ≠ 0 := by
  rcases CWEJury.openDispute_cases hopen with ⟨-, hjury⟩
  intro i hi hle
  rw [hjury] at hle ⊢
  dsimp only at hle ⊢
  by_cases hid : i = jury.nextDisputeId + 1
  · subst hid
    simp [CWEJury.votingWindow]
  · rw [Function.update_of_ne hid]
    exact h i hi (by omega)

theorem bounded_effect {ps : List Payment} {k : Input} {out : World × Option Payment}
    (hw : Bounded w) (h : Effect w ps k out) : Bounded out.1 := by
  cases h with
  | elapse seconds hrest => exact ⟨hw.ends, hw.finite⟩
  | receive value => exact ⟨hw.ends, hw.finite⟩
  | records sender c records heffect => exact ⟨hw.ends, hw.finite⟩
  | jurySettings _ owner escrow => exact ⟨hw.ends, hw.finite⟩
  | openDispute sender workA workB out hopen => exact ⟨ends_open hw.ends hopen, hw.finite⟩
  | vote juror disputeId forWork d' hvote hopen =>
      refine hw.decided ?_ rfl rfl
      rw [CWEJury.castVote_ok hvote]
      rfl
  | finalize sender disputeId hopened hopen =>
      have hend : ({ w.jury.disputes disputeId with
          verdict := CWEJury.tally w.registry (w.jury.disputes disputeId)
          finalized := true } : Dispute).voteEnd = (w.jury.disputes disputeId).voteEnd := rfl
      exact hw.decided hend rfl rfl
  | commit sender e x amount hrest hregistered hfresh hfit hfunds => exact hw.written rfl rfl
  | challenge sender e escrowedWork challengerWork self out hne hcommitted hreleased hsame hopen =>
      have hslots : Bounded { w with
          escrow := { w.escrow with
            escrows := Function.update w.escrow.escrows (e, escrowedWork)
              { w.slot e escrowedWork with
                disputeId := out.2, challenger := challengerWork } } } :=
        hw.written rfl rfl
      exact ⟨ends_open hw.ends hopen, hslots.finite⟩
  | reassign sender e escrowedWork hreleased hwins =>
      have hcleared : Bounded { w with
          escrow := { w.escrow with
            escrows := Function.update w.escrow.escrows (e, escrowedWork) default } } :=
        hw.written rfl rfl
      exact hcleared.written rfl rfl
  | keep sender e escrowedWork hreleased => exact hw.written rfl rfl
  | release sender e x s hstatus hmature hpayees hamount hsend => exact hw.written rfl rfl

end Step

/-! ## What holds of a run so far -/

/-- All that is used of a reachable state. -/
structure Orderly (c : Config World Payment) : Prop where
  solvent : Solvent c
  links : Links c.world
  applied : Applied c.world
  bounded : Bounded c.world
  grounded : Contentful c.world.history → Grounded c.world

theorem orderly_run (d : Deployment) (acts : List (Action Input)) :
    Orderly ((escrowSystem d).run (World.init d) acts) := by
  refine Machine.run_inv (P := Orderly) ?_ ?_ ?_ acts
  · have hlinks := links_run d []
    refine ⟨solvent_init d, hlinks.1, hlinks.2, ⟨?_, ?_⟩, fun _ => ⟨?_, ?_, ?_, ?_⟩⟩
    · intro i hi hle
      exact absurd (Nat.le_zero.1 hle) hi
    · refine Set.finite_empty.subset ?_
      rintro k hcommitted
      cases hcommitted
    · intro workId hregistered
      cases hregistered
    · intro k hcommitted
      cases hcommitted
    · intro k hdispute
      exact absurd rfl hdispute
    · intro epochId workId hcommitted
      cases hcommitted
  · intro c k out hc hallowed hout
    have heffect := effect_of_call hallowed hout
    have hlinks := links_call hc.links hc.applied hallowed hout
    refine ⟨solvent_call hc.solvent heffect, ?_, ?_, ?_, ?_⟩
    · simpa using hlinks.1
    · simpa using hlinks.2
    · simpa using bounded_effect hc.bounded heffect
    · intro hcontent
      rw [Config.world_enter] at hcontent ⊢
      rcases hc.solvent with ⟨due, -, hfunded⟩
      have hbefore : Contentful c.world.history := heffect.contentful hcontent
      exact grounded_effect (hc.grounded hbefore) hc.links hfunded.registry heffect hcontent
  · intro c f fs out hc hframes hout
    have hlinks := links_resume hc.links hc.applied hout
    refine ⟨solvent_resume hc.solvent hframes hout, ?_, ?_, ?_, ?_⟩
    · simpa using hlinks.1
    · simpa using hlinks.2
    · rw [Config.world_enter]
      rcases resume_cases hout with ⟨-, rfl⟩ | ⟨q, s, -, -, rfl⟩
      · exact ⟨hc.bounded.ends, hc.bounded.finite⟩
      · exact ⟨hc.bounded.ends, hc.bounded.finite⟩
    · rw [Config.world_enter]
      intro hcontent
      rcases resume_cases hout with ⟨-, rfl⟩ | ⟨q, s, -, -, rfl⟩
      · have hgrounded := hc.grounded hcontent
        exact hgrounded.unmoved rfl rfl (holdersRegistered_resume hgrounded.holders hout)
      · have hgrounded := hc.grounded hcontent.of_append
        exact hgrounded.unmoved rfl rfl (holdersRegistered_resume hgrounded.holders hout)

/-! ## Deciding and applying one dispute -/

/-- What any account can do without a role: wait, finalize, resolve, release; and payees take what
they are sent. -/
def Anyone (sender : Address) : Action Input → Prop
  | .call (.elapse _) => True
  | .call (.tx s (.finalize _)) => s = sender
  | .call (.tx s (.resolveDispute _ _)) => s = sender
  | .call (.tx s (.release _ _)) => s = sender
  | .returns accepted => accepted = true
  | _ => False

/-- The slots whose credit is committed and not yet released. -/
def held (w : World) : Set (Nat × Bytes32) :=
  {k | (w.escrow.escrows k).committed = true ∧ (w.escrow.escrows k).released = false}

/-- The slots under dispute. -/
def disputed (w : World) : Set (Nat × Bytes32) :=
  {k | (w.escrow.escrows k).disputeId ≠ 0}

/-- From `w` to `w'` nothing is registered, and no debt is added. -/
structure Onward (w w' : World) : Prop where
  content : Contentful w.history → Contentful w'.history
  liability : w'.escrow.liability ≤ w.escrow.liability
  committed : committedIn w'.history = committedIn w.history

theorem Onward.refl (w : World) : Onward w w :=
  ⟨id, le_rfl, rfl⟩

theorem Onward.trans {w w' w'' : World} (h : Onward w w') (h' : Onward w' w'') : Onward w w'' :=
  ⟨h'.content ∘ h.content, h'.liability.trans h.liability, h'.committed.trans h.committed⟩

/-- What adds only entries that neither register nor commit anything. -/
theorem Onward.of_entries {w w' : World} {entries : List Entry}
    (hhistory : w'.history = w.history ++ entries)
    (hquiet : ∀ workId contentId timestamp, .workRegistered workId contentId timestamp ∉ entries)
    (hcommitted : committedIn entries = 0)
    (hliability : w'.escrow.liability ≤ w.escrow.liability) : Onward w w' := by
  refine ⟨?_, hliability, ?_⟩
  · intro hcontent
    rw [hhistory]
    exact hcontent.append hquiet
  · rw [hhistory, committedIn_append, hcommitted, Nat.add_zero]

section Plan

variable {d : Deployment} {anyone : Address} {w : World}

theorem reaches_elapse (seconds : Nat) :
    (escrowSystem d).Reaches (Anyone anyone) ⟨w, []⟩
      ⟨{ w with timestamp := w.timestamp + seconds }, []⟩ :=
  Machine.Reaches.action (a := Action.call (Input.elapse seconds)) trivial

/-- A transaction that goes through from rest. -/
theorem reaches_tx (hanyone : anyone ≠ d.escrow) {c : Call} {out : World × Option Payment}
    (hc : Anyone anyone (.call (.tx anyone c))) (hout : w.exec d anyone c = .ok out) :
    (escrowSystem d).Reaches (Anyone anyone) ⟨w, []⟩ (Config.enter w [] out) := by
  refine Machine.Reaches.call hc ?_ hout
  simp [escrowSystem, admits, Config.pending, hanyone]

/-- A dispute can be decided once its window is over, whoever has voted. -/
theorem reaches_finalized (hanyone : anyone ≠ d.escrow) {disputeId : Nat}
    (hopened : (w.jury.disputes disputeId).voteEnd ≠ 0) :
    ∃ w', (escrowSystem d).Reaches (Anyone anyone) ⟨w, []⟩ ⟨w', []⟩ ∧ Onward w w' ∧
      w'.escrow = w.escrow ∧ (w'.jury.disputes disputeId).finalized = true := by
  by_cases hfinal : (w.jury.disputes disputeId).finalized = true
  · exact ⟨w, Machine.Reaches.refl _, Onward.refl w, rfl, hfinal⟩
  · have hwait : (escrowSystem d).Reaches (Anyone anyone) ⟨w, []⟩ ⟨{ w with
        timestamp := w.timestamp + (w.jury.disputes disputeId).voteEnd }, []⟩ :=
      reaches_elapse _
    have hfinalize : ∃ jury, CWEJury.finalize w.registry w.jury
        (w.timestamp + (w.jury.disputes disputeId).voteEnd) disputeId = .ok jury := by
      unfold CWEJury.finalize
      dsimp only
      rw [if_neg hopened, if_neg hfinal, if_neg (by omega)]
      exact ⟨_, rfl⟩
    rcases hfinalize with ⟨jury, hjury⟩
    have hcall : World.exec d { w with
          timestamp := w.timestamp + (w.jury.disputes disputeId).voteEnd } anyone
        (.finalize disputeId) = .ok ({ w with
          timestamp := w.timestamp + (w.jury.disputes disputeId).voteEnd
          jury := jury
          history := w.history ++ [.disputeFinalized disputeId (jury.disputes disputeId).verdict
            (jury.disputes disputeId).votesA (jury.disputes disputeId).votesB] }, none) := by
      simp only [World.exec, hjury]
      rfl
    have hdecide := reaches_tx hanyone (c := Call.finalize disputeId) rfl hcall
    refine ⟨_, hwait.trans hdecide, Onward.of_entries rfl (by simp) rfl le_rfl, rfl, ?_⟩
    · rcases CWEJury.finalize_ok hjury with ⟨-, -, -, rfl⟩
      simp

/-- A decided dispute can be applied: the merged amount is part of the liability. -/
theorem exists_resolve {due : Nat} (hfunded : Funded w due) {epochId : Nat} {escrowedWork : Bytes32}
    (hslot : Disputed w (epochId, escrowedWork))
    (hdispute : (w.slot epochId escrowedWork).disputeId ≠ 0)
    (hfinal : (w.jury.disputes (w.slot epochId escrowedWork).disputeId).finalized = true) :
    ∃ out, CWEEscrow.resolveDispute w.jury w.escrow epochId escrowedWork = .ok out := by
  have hunreleased : (w.slot epochId escrowedWork).released = false := hslot.unreleased
  by_cases hverdict : (w.jury.disputes (w.slot epochId escrowedWork).disputeId).verdict =
      (w.slot epochId escrowedWork).challenger
  · apply CWEEscrow.resolveDispute_of_wins hunreleased ⟨hdispute, hfinal, hverdict⟩
    exact lt_of_le_of_lt (hfunded.merge_le (epochId, escrowedWork) _) hfunded.wide
  · have hjury : w.jury.verdictOf (w.slot epochId escrowedWork).disputeId =
        .ok (w.jury.disputes (w.slot epochId escrowedWork).disputeId).verdict := by
      rw [CWEJury.verdictOf]
      simp only [hfinal]
      rfl
    simp only [World.slot] at hdispute hfinal hverdict hjury hunreleased
    unfold CWEEscrow.resolveDispute
    dsimp only
    rw [if_neg hdispute, if_neg (by simp [hunreleased]),
      if_neg (by simp [CWEJury.isResolved, hfinal]), hjury, ok_bind, if_neg hverdict]
    exact ⟨_, rfl⟩

/-- Applying a decided dispute closes it, and opens no other. -/
theorem reaches_resolved (hanyone : anyone ≠ d.escrow) {due : Nat} (hfunded : Funded w due)
    (hlinks : Links w) {k : Nat × Bytes32} (hk : k ∈ disputed w)
    (hfinal : (w.jury.disputes (w.escrow.escrows k).disputeId).finalized = true) :
    ∃ w', (escrowSystem d).Reaches (Anyone anyone) ⟨w, []⟩ ⟨w', []⟩ ∧ Onward w w' ∧
      disputed w' ⊆ disputed w \ {k} := by
  rcases k with ⟨epochId, escrowedWork⟩
  rcases exists_resolve hfunded (hlinks.linked _ hk) hk hfinal with ⟨⟨escrow, winner⟩, hresolve⟩
  have hcall : w.exec d anyone (.resolveDispute epochId escrowedWork) = .ok ({ w with
      escrow := escrow
      history := w.history ++ [.disputeResolved epochId escrowedWork winner
        (w.slot epochId escrowedWork).disputeId] }, none) := by
    simp only [World.exec, hresolve]
    rfl
  have happly := reaches_tx hanyone (c := Call.resolveDispute epochId escrowedWork) rfl hcall
  -- Whoever wins, the disputed slot is closed and the others are under the dispute they had.
  have hclosed : escrow.liability = w.escrow.liability ∧
      (escrow.escrows (epochId, escrowedWork)).disputeId = 0 ∧
      ∀ x, (escrow.escrows x).disputeId ≠ 0 →
        SameDispute (w.escrow.escrows x) (escrow.escrows x) := by
    rcases CWEEscrow.resolveDispute_cases hresolve with
      ⟨-, -, ⟨hwins, -, hescrow⟩ | ⟨-, -, hescrow⟩⟩
    · dsimp only at hescrow
      subst hescrow
      exact ⟨rfl, hlinks.reassigned hwins.1⟩
    · dsimp only at hescrow
      subst hescrow
      refine ⟨rfl, by simp, ?_⟩
      apply sameDispute_update
      intro hzero
      exact absurd rfl hzero
  refine ⟨_, happly, Onward.of_entries rfl (by simp) rfl hclosed.1.le, ?_⟩
  · intro x (hx : (escrow.escrows x).disputeId ≠ 0)
    refine ⟨?_, ?_⟩
    · change (w.escrow.escrows x).disputeId ≠ 0
      rw [← (hclosed.2.2 x hx).disputeId]
      exact hx
    · intro heq
      rw [Set.mem_singleton_iff.1 heq] at hx
      exact hx hclosed.2.1

/-- A release that has started goes through all its payees if they take what they are sent. -/
theorem reaches_paid (anyone : Address) {turns : Nat} {c : Config World Payment} (hc : Solvent c)
    {f : Frame World Payment} (hframes : c.frames = [f]) (hfits : f.pending.amount < 2 ^ 236)
    (hturns : f.pending.payees.length ≤ f.pending.i + turns) :
    ∃ w', (escrowSystem d).Reaches (Anyone anyone) c ⟨w', []⟩ ∧ Onward c.world w' ∧
      w'.escrow.escrows = c.world.escrow.escrows := by
  induction turns generalizing c f with
  | zero =>
      rcases hc with ⟨due, hunder, -⟩
      rw [hframes] at hunder
      cases hunder with
      | paying _ hstatus hsent hwide hslot hpaid =>
          have hindex := hsent.index
          omega
  | succ turns ih =>
      have hc' := hc
      rcases hc' with ⟨due, hunder, -⟩
      rw [hframes] at hunder
      cases hunder with
      | paying _ hstatus hsent hwide hslot hpaid =>
          have hcontinues : ∃ out, c.world.resume f.pending = .ok out := by
            rw [release_continues_iff hc hframes]
            intro q hq
            rcases hsent.advance hq with ⟨hready, heq, -⟩
            apply hready.fits
            rw [heq]
            exact hfits
          rcases hcontinues with ⟨out, hout⟩
          have hstep : (escrowSystem d).Reaches (Anyone anyone) c
              (Config.enter f.snapshot [] out) :=
            Machine.Reaches.resume rfl hframes hout
          have hnext := solvent_resume hc hframes hout
          rcases resume_cases hout with ⟨-, rfl⟩ | ⟨q, s, hq, hsend, rfl⟩
          · exact ⟨_, hstep, ⟨id, le_rfl, rfl⟩, rfl⟩
          · -- The next payee runs; the rest is as for the loop one turn shorter.
            rcases hsent.advance hq with ⟨hready, heq, -⟩
            have hkeeps := Payment.send_keeps hready hsend
            have hamount : s.payment.amount < 2 ^ 236 := by
              rw [hkeeps.amount, heq]
              exact hfits
            have hleft : s.payment.payees.length ≤ s.payment.i + turns := by
              rw [hkeeps.payees, hkeeps.i, heq]
              dsimp only
              omega
            rcases ih hnext rfl hamount hleft with ⟨w', hrest, honward, hslots⟩
            refine ⟨w', hstep.trans hrest, Onward.trans ?_ honward, hslots⟩
            exact Onward.of_entries rfl (by simp) rfl le_rfl

/-- Marking a slot as released leaves one slot less to release, and no more disputes. -/
theorem fewer_of_marked {w' : World} {k : Nat × Bytes32} {e : Escrow}
    (hslots : w'.escrow.escrows = Function.update w.escrow.escrows k e)
    (hreleased : e.released = true) (hsame : e.disputeId = (w.escrow.escrows k).disputeId) :
    held w' ⊆ held w \ {k} ∧ disputed w' ⊆ disputed w := by
  constructor
  · rintro x ⟨hcommitted, hunreleased⟩
    rw [hslots] at hcommitted hunreleased
    by_cases hx : x = k
    · subst hx
      rw [Function.update_self, hreleased] at hunreleased
      cases hunreleased
    · rw [Function.update_of_ne hx] at hcommitted hunreleased
      exact ⟨⟨hcommitted, hunreleased⟩, hx⟩
  · intro x (hdispute : (w'.escrow.escrows x).disputeId ≠ 0)
    rw [hslots] at hdispute
    change (w.escrow.escrows x).disputeId ≠ 0
    by_cases hx : x = k
    · subst hx
      rw [Function.update_self, hsame] at hdispute
      exact hdispute
    · rw [Function.update_of_ne hx] at hdispute
      exact hdispute

/-- A slot that is under no dispute is released in full as soon as it is due. -/
theorem reaches_released_after (hanyone : anyone ≠ d.escrow) (ho : Orderly ⟨w, []⟩)
    (hcontent : Contentful w.history) (hfits : w.escrow.liability < 2 ^ 236) {epochId : Nat}
    {workId : Bytes32} (hk : (epochId, workId) ∈ held w)
    (hsettled : (w.slot epochId workId).disputeId = 0) {seconds : Nat}
    (hdue : (w.slot epochId workId).releaseEpoch ≤ CWEEscrow.currentEpoch (w.timestamp + seconds)) :
    ∃ w', (escrowSystem d).Reaches (Anyone anyone) ⟨w, []⟩ ⟨w', []⟩ ∧ Onward w w' ∧
      held w' ⊆ held w \ {(epochId, workId)} ∧ disputed w' ⊆ disputed w := by
  have hwait : (escrowSystem d).Reaches (Anyone anyone) ⟨w, []⟩
      ⟨{ w with timestamp := w.timestamp + seconds }, []⟩ := reaches_elapse seconds
  have hsolvent : Solvent (Config.init { w with timestamp := w.timestamp + seconds }) :=
    solvent_call ho.solvent (.elapse seconds rfl)
  have hmature : CWEEscrow.Mature (w.timestamp + seconds) (w.slot epochId workId) :=
    ⟨hk.1, hk.2, hsettled, hdue⟩
  rcases ho.solvent with ⟨due, -, hfunded⟩
  have hamount : (w.slot epochId workId).amount ≤ w.escrow.liability :=
    hfunded.liability.le (epochId, workId)
  have hpayable := (ho.grounded hcontent).holders.payable hfunded.registry epochId workId hk.1
  have hready : (CWEEscrow.payment w.registry w.escrow epochId workId).Ready :=
    Payment.start_ready hpayable.2 _
  have hstarts := (release_starts_iff (d := d) hsolvent rfl anyone hmature hpayable.2.nonempty).2
    (hready.fits (lt_of_le_of_lt hamount hfits))
  rcases hstarts with ⟨out, hout⟩
  have hstart := reaches_tx hanyone (c := Call.release epochId workId) rfl hout
  have hallowed : admits d [] (.tx anyone (.release epochId workId)) = true := by
    simp [admits, hanyone]
  have hentered := solvent_call hsolvent (effect_of_call hallowed hout)
  rcases bind_eq_ok.1 hout with ⟨⟨escrow, s⟩, hrelease, hpure⟩
  cases hpure
  rcases CWEEscrow.release_cases hrelease with ⟨-, -, -, -, hsend, hescrow⟩
  dsimp only at hsend hescrow
  subst hescrow
  have hkeeps := Payment.send_keeps hready hsend
  have hsmall : s.payment.amount < 2 ^ 236 := by
    rw [hkeeps.amount]
    exact lt_of_le_of_lt hamount hfits
  rcases reaches_paid (d := d) anyone hentered rfl hsmall (Nat.le_add_left _ _) with
    ⟨w', hpay, honward, hsame⟩
  -- The slot is marked as released, and the others are as they were.
  have hslots : w'.escrow.escrows = Function.update w.escrow.escrows (epochId, workId)
      { w.slot epochId workId with released := true, amount := 0 } := hsame
  rcases fewer_of_marked hslots rfl rfl with ⟨hfewer, hquiet⟩
  refine ⟨w', (hwait.trans hstart).trans hpay, Onward.trans ?_ honward, hfewer, hquiet⟩
  exact Onward.of_entries rfl (by simp) rfl (Nat.sub_le _ _)

/-- Every slot that is under no dispute is due in time. -/
theorem reaches_released (hanyone : anyone ≠ d.escrow) (ho : Orderly ⟨w, []⟩)
    (hcontent : Contentful w.history) (hfits : w.escrow.liability < 2 ^ 236)
    {k : Nat × Bytes32} (hk : k ∈ held w) (hsettled : (w.escrow.escrows k).disputeId = 0) :
    ∃ w', (escrowSystem d).Reaches (Anyone anyone) ⟨w, []⟩ ⟨w', []⟩ ∧ Onward w w' ∧
      held w' ⊆ held w \ {k} ∧ disputed w' ⊆ disputed w := by
  have hpositive : 0 < CWEEscrow.epochLength := by decide
  have hdue : (w.slot k.1 k.2).releaseEpoch ≤ CWEEscrow.currentEpoch
      (w.timestamp + (w.slot k.1 k.2).releaseEpoch * CWEEscrow.epochLength) := by
    rw [CWEEscrow.currentEpoch, Nat.le_div_iff_mul_le hpositive]
    exact Nat.le_add_left _ _
  exact reaches_released_after hanyone ho hcontent hfits hk hsettled hdue

end Plan

/-! ## Emptying the escrow -/

/-- A reachable state at rest, with `total` committed so far. -/
structure Standing (d : Deployment) (total : Nat) (c : Config World Payment) : Prop where
  reachable : ∃ acts, c = (escrowSystem d).run (World.init d) acts
  rest : c.AtRest
  content : Contentful c.world.history
  fits : c.world.escrow.liability < 2 ^ 236
  total : committedIn c.world.history = total

section Emptying

variable {d : Deployment} {anyone : Address} {total : Nat} {c : Config World Payment}

theorem Standing.orderly (h : Standing d total c) : Orderly c := by
  rcases h.reachable with ⟨acts, rfl⟩
  exact orderly_run d acts

theorem Standing.onward (h : Standing d total c) {w' : World}
    (hreach : (escrowSystem d).Reaches (Anyone anyone) c ⟨w', []⟩) (honward : Onward c.world w') :
    Standing d total ⟨w', []⟩ := by
  rcases h.reachable with ⟨acts, rfl⟩
  rcases hreach.run with ⟨more, -, hrun⟩
  exact ⟨⟨acts ++ more, hrun.symm⟩, rfl, honward.content h.content,
    lt_of_le_of_lt honward.liability h.fits, honward.committed.trans h.total⟩

theorem Standing.finite_held (h : Standing d total c) : (held c.world).Finite :=
  h.orderly.bounded.finite.subset fun _ hk => hk.1

theorem Standing.finite_disputed (h : Standing d total c) : (disputed c.world).Finite :=
  h.orderly.bounded.finite.subset fun k hk => (h.orderly.links.linked k hk).committed

/-- One dispute at a time, whoever the challengers are. -/
theorem reaches_undisputed (hanyone : anyone ≠ d.escrow) (h : Standing d total c) :
    ∃ c', (escrowSystem d).Reaches (Anyone anyone) c c' ∧ Standing d total c' ∧
      disputed c'.world = ∅ := by
  refine Machine.reaches_empty (P := Standing d total) (fun _ hc => hc.finite_disputed) ?_ h
  rintro ⟨w, frames⟩ k hc hk
  have hframes : frames = [] := hc.rest
  subst hframes
  have horderly := hc.orderly
  have hopened := horderly.bounded.ends _ hk (horderly.links.opened k)
  rcases reaches_finalized hanyone hopened with ⟨w₁, hdecide, honward₁, hescrow, hfinal⟩
  have hc₁ := hc.onward hdecide honward₁
  rcases hc₁.orderly.solvent with ⟨due, -, hfunded⟩
  have hk₁ : k ∈ disputed w₁ := by
    change (w₁.escrow.escrows k).disputeId ≠ 0
    rw [hescrow]
    exact hk
  have hfinal₁ : (w₁.jury.disputes (w₁.escrow.escrows k).disputeId).finalized = true := by
    rw [hescrow]
    exact hfinal
  rcases reaches_resolved hanyone hfunded hc₁.orderly.links hk₁ hfinal₁ with
    ⟨w₂, hresolve, honward₂, hfewer⟩
  refine ⟨⟨w₂, []⟩, hdecide.trans hresolve, hc₁.onward hresolve honward₂, ?_⟩
  have hsame : disputed w₁ = disputed w := by
    unfold disputed
    rw [hescrow]
  rw [← hsame]
  exact hfewer

/-- One release at a time. -/
theorem reaches_none_held (hanyone : anyone ≠ d.escrow) (h : Standing d total c)
    (hundisputed : disputed c.world = ∅) :
    ∃ c', (escrowSystem d).Reaches (Anyone anyone) c c' ∧ Standing d total c' ∧
      held c'.world = ∅ := by
  have hplan : ∃ c', (escrowSystem d).Reaches (Anyone anyone) c c' ∧
      (Standing d total c' ∧ disputed c'.world = ∅) ∧ held c'.world = ∅ := by
    refine Machine.reaches_empty (P := fun c => Standing d total c ∧ disputed c.world = ∅)
      (fun _ hc => hc.1.finite_held) ?_ ⟨h, hundisputed⟩
    rintro ⟨w, frames⟩ k ⟨hc, hnone⟩ hk
    have hframes : frames = [] := hc.rest
    subst hframes
    have hsettled : (w.escrow.escrows k).disputeId = 0 := by
      by_contra hdispute
      exact Set.eq_empty_iff_forall_notMem.1 hnone k hdispute
    rcases reaches_released hanyone hc.orderly hc.content hc.fits hk hsettled with
      ⟨w', hrelease, honward, hfewer, hquiet⟩
    refine ⟨⟨w', []⟩, hrelease, ⟨hc.onward hrelease honward, ?_⟩, hfewer⟩
    exact Set.subset_empty_iff.1 (hnone ▸ hquiet)
  rcases hplan with ⟨c', hreach, ⟨hc', -⟩, hnone⟩
  exact ⟨c', hreach, hc', hnone⟩

/-- With nothing held, nothing is owed, and all that was ever committed has been paid. -/
theorem Standing.emptied (h : Standing d total c) (hnone : held c.world = ∅) :
    c.world.escrow.liability = 0 ∧ paidIn c.world.history = total := by
  rcases h.orderly.solvent with ⟨due, hunder, hfunded⟩
  have hdue : due = 0 := by
    rw [show c.frames = [] from h.rest] at hunder
    cases hunder
    rfl
  have hzero : ∀ k, c.world.escrow.amounts k = 0 := by
    intro k
    by_contra hamount
    have hlive := (hfunded.slots k).live (Nat.pos_of_ne_zero hamount)
    exact Set.eq_empty_iff_forall_notMem.1 hnone k hlive
  have hliability : c.world.escrow.liability = 0 := by
    rw [← hfunded.liability.2]
    apply finsum_eq_zero_of_forall_eq_zero hzero
  have hconserved := hfunded.conserved
  rw [hdue, hliability, h.total] at hconserved
  exact ⟨hliability, hconserved.symm⟩

end Emptying

/-- From every reachable state at rest, in which no work is registered under content id zero and no
share's product leaves its word, any account can empty the escrow by waiting, finalizing, resolving
and releasing: all that was ever committed is then paid out. -/
theorem escrow_never_frozen (d : Deployment) (acts : List (Action Input)) (anyone : Address)
    (hanyone : anyone ≠ d.escrow)
    (hrest : ((escrowSystem d).run (World.init d) acts).AtRest)
    (hcontent : Contentful ((escrowSystem d).run (World.init d) acts).world.history)
    (hfits : ((escrowSystem d).run (World.init d) acts).world.escrow.liability < 2 ^ 236) :
    ∃ more, (∀ a ∈ more, Anyone anyone a) ∧
      let c := (escrowSystem d).run (World.init d) (acts ++ more)
      c.AtRest ∧ (∀ epochId workId, (c.world.slot epochId workId).committed = true →
          (c.world.slot epochId workId).released = true) ∧
        c.world.escrow.liability = 0 ∧
        paidIn c.world.history =
          committedIn ((escrowSystem d).run (World.init d) acts).world.history := by
  have hstanding : Standing d
      (committedIn ((escrowSystem d).run (World.init d) acts).world.history)
      ((escrowSystem d).run (World.init d) acts) :=
    ⟨⟨acts, rfl⟩, hrest, hcontent, hfits, rfl⟩
  rcases reaches_undisputed hanyone hstanding with ⟨c₁, hresolve, hc₁, hundisputed⟩
  rcases reaches_none_held hanyone hc₁ hundisputed with ⟨c₂, hrelease, hc₂, hnone⟩
  rcases (hresolve.trans hrelease).run with ⟨more, hmore, hrun⟩
  have hempty := hc₂.emptied hnone
  refine ⟨more, hmore, ?_⟩
  rw [hrun]
  refine ⟨hc₂.rest, ?_, hempty.1, hempty.2⟩
  intro epochId workId hcommitted
  by_contra hunreleased
  exact Set.eq_empty_iff_forall_notMem.1 hnone (epochId, workId)
    ⟨hcommitted, eq_false_of_ne_true hunreleased⟩

/-- The sample run up to the challenge of work 1's credit. -/
theorem sampleRecommit_challenged :
    ((escrowSystem sampleDeployment).run (World.init sampleDeployment)
        (sampleRecommit.take 10)).world.history =
      [.workRegistered 2 7 1000, .workRegistered 1 7 1010, .escrowCommitted 0 1 30,
        .disputeOpened 0 1 2 1 7] := by
  decide +kernel

/-- Account `0xff` has the 30 wei under dispute paid out. -/
theorem escrow_never_frozen_sample :
    ∃ more, (∀ a ∈ more, Anyone 0xff a) ∧
      paidIn ((escrowSystem sampleDeployment).run (World.init sampleDeployment)
        (sampleRecommit.take 10 ++ more)).world.history = 30 := by
  have hcontent : Contentful ((escrowSystem sampleDeployment).run (World.init sampleDeployment)
      (sampleRecommit.take 10)).world.history := by
    rw [sampleRecommit_challenged]
    intro workId timestamp hmem
    simp at hmem
  rcases escrow_never_frozen sampleDeployment (sampleRecommit.take 10) 0xff (by decide)
    (by decide +kernel) hcontent (by decide +kernel) with ⟨more, hmore, -, -, -, hpaid⟩
  refine ⟨more, hmore, ?_⟩
  rw [hpaid, sampleRecommit_challenged]
  rfl

end Contracts
end CleanWeb
