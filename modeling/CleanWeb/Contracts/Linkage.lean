import CleanWeb.Contracts.EscrowSystem

/-!
# Disputes and the slots they are about

A slot under dispute is committed and unreleased, and the jury's dispute under its id names the
slot's work and the challenger's.  No id is shared, and none comes back once its verdict has been
applied.
-/

namespace CleanWeb
namespace Contracts

open Lib Lib.Exec

/-! ## The invariant -/

/-- The slot's dispute is the jury's dispute over this very slot. -/
structure Disputed (w : World) (k : Nat × Bytes32) : Prop where
  committed : (w.escrow.escrows k).committed = true
  unreleased : (w.escrow.escrows k).released = false
  workA : (w.jury.disputes (w.escrow.escrows k).disputeId).workA = k.2
  workB : (w.jury.disputes (w.escrow.escrows k).disputeId).workB = (w.escrow.escrows k).challenger
  distinct : (w.escrow.escrows k).challenger ≠ k.2

structure Links (w : World) : Prop where
  linked : ∀ k, (w.escrow.escrows k).disputeId ≠ 0 → Disputed w k
  unique : ∀ k k', (w.escrow.escrows k).disputeId ≠ 0 →
    (w.escrow.escrows k).disputeId = (w.escrow.escrows k').disputeId → k = k'
  opened : ∀ k, (w.escrow.escrows k).disputeId ≤ w.jury.nextDisputeId

def Entry.applies (disputeId : Nat) : Entry → Bool
  | .disputeResolved _ _ _ i => i == disputeId
  | _ => false

/-- How often the verdict on the dispute has been applied. -/
def timesApplied (disputeId : Nat) (history : List Entry) : Nat :=
  history.countP (Entry.applies disputeId)

/-- No verdict has been applied twice, that of an open dispute not at all. -/
structure Applied (w : World) : Prop where
  once : ∀ disputeId, timesApplied disputeId w.history ≤ 1
  pending : ∀ k, (w.escrow.escrows k).disputeId ≠ 0 →
    timesApplied (w.escrow.escrows k).disputeId w.history = 0
  future : ∀ disputeId, w.jury.nextDisputeId < disputeId → timesApplied disputeId w.history = 0

/-! ## Frames -/

/-- `e'` is under the same dispute as `e`, and no less committed or more released. -/
structure SameDispute (e e' : Escrow) : Prop where
  disputeId : e'.disputeId = e.disputeId
  challenger : e'.challenger = e.challenger
  committed : e.committed = true → e'.committed = true
  unreleased : e.released = false → e'.released = false

theorem SameDispute.refl (e : Escrow) : SameDispute e e :=
  ⟨rfl, rfl, id, id⟩

section Step

variable {w w' : World}

theorem Disputed.frame {k : Nat × Bytes32} (h : Disputed w k)
    (hjury : SameDisputes w.jury w'.jury)
    (hopened : (w.escrow.escrows k).disputeId ≤ w.jury.nextDisputeId)
    (hsame : SameDispute (w.escrow.escrows k) (w'.escrow.escrows k)) : Disputed w' k := by
  refine ⟨hsame.committed h.committed, hsame.unreleased h.unreleased, ?_, ?_, ?_⟩
  · rw [hsame.disputeId, (hjury.2 _ hopened).1, h.workA]
  · rw [hsame.disputeId, (hjury.2 _ hopened).2, h.workB, hsame.challenger]
  · rw [hsame.challenger]
    exact h.distinct

/-- The slots still under dispute are under the dispute they had. -/
theorem Links.frame (h : Links w) (hjury : SameDisputes w.jury w'.jury)
    (hslots : ∀ k, (w'.escrow.escrows k).disputeId ≠ 0 →
      SameDispute (w.escrow.escrows k) (w'.escrow.escrows k)) : Links w' := by
  refine ⟨?_, ?_, ?_⟩
  · intro k hk
    have hsame := hslots k hk
    have hold := h.linked k (hsame.disputeId ▸ hk)
    exact hold.frame hjury (h.opened k) hsame
  · -- Two slots under one dispute now were under it before.
    intro k k' hk heq
    have hsame := (hslots k hk).disputeId
    have hsame' := (hslots k' (heq ▸ hk)).disputeId
    exact h.unique k k' (hsame ▸ hk) (by rw [← hsame, ← hsame', heq])
  · intro k
    by_cases hk : (w'.escrow.escrows k).disputeId = 0
    · rw [hk]
      exact Nat.zero_le _
    · rw [(hslots k hk).disputeId]
      exact (h.opened k).trans hjury.1

/-- Nothing is applied. -/
theorem Applied.frame (h : Applied w) (hnext : w.jury.nextDisputeId ≤ w'.jury.nextDisputeId)
    (hslots : ∀ k, (w'.escrow.escrows k).disputeId ≠ 0 →
      (w'.escrow.escrows k).disputeId = (w.escrow.escrows k).disputeId)
    (hhistory : ∀ i, timesApplied i w'.history = timesApplied i w.history) : Applied w' := by
  refine ⟨?_, ?_, ?_⟩
  · intro i
    rw [hhistory]
    exact h.once i
  · intro k hk
    have hsame := hslots k hk
    rw [hhistory, hsame]
    exact h.pending k (hsame ▸ hk)
  · intro i hi
    rw [hhistory]
    exact h.future i (by omega)

/-- The slots are as they were. -/
theorem Links.unmoved (h : Links w) (hjury : SameDisputes w.jury w'.jury)
    (hslots : w'.escrow.escrows = w.escrow.escrows) : Links w' := by
  apply h.frame hjury
  intro k _
  rw [hslots]
  exact SameDispute.refl _

theorem Applied.unmoved (h : Applied w) (hnext : w.jury.nextDisputeId ≤ w'.jury.nextDisputeId)
    (hslots : w'.escrow.escrows = w.escrow.escrows)
    (hhistory : ∀ i, timesApplied i w'.history = timesApplied i w.history) : Applied w' := by
  apply h.frame hnext _ hhistory
  intro k _
  rw [hslots]

/-- A slot that is not committed is not under dispute. -/
theorem Links.undisputed (h : Links w) {epochId : Nat} {workId : Bytes32}
    (hfresh : (w.slot epochId workId).committed = false) :
    (w.slot epochId workId).disputeId = 0 := by
  by_contra hk
  have hcommitted : (w.slot epochId workId).committed = true := (h.linked _ hk).committed
  rw [hfresh] at hcommitted
  cases hcommitted

theorem timesApplied_append_of_not {i : Nat} {history entries : List Entry}
    (h : ∀ entry ∈ entries, Entry.applies i entry = false) :
    timesApplied i (history ++ entries) = timesApplied i history := by
  have hzero : entries.countP (Entry.applies i) = 0 := by
    rw [List.countP_eq_zero]
    intro entry hentry
    simp [h entry hentry]
  rw [timesApplied, List.countP_append, hzero]
  rfl

/-- Any other event leaves the count of applied verdicts as it is. -/
theorem timesApplied_quiet {history : List Entry} {entry : Entry}
    (h : ∀ i, Entry.applies i entry = false) (i : Nat) :
    timesApplied i (history ++ [entry]) = timesApplied i history := by
  apply timesApplied_append_of_not
  intro e he
  rw [List.mem_singleton.1 he]
  exact h i

/-- The verdict on the dispute of the slot `k` is applied, and `k` is no longer under dispute. -/
theorem Applied.resolve (h : Applied w) (hw : Links w) {k : Nat × Bytes32} {epochId : Nat}
    {escrowedWork winner : Bytes32} (hk : (w.escrow.escrows k).disputeId ≠ 0)
    (hjury : w'.jury = w.jury) (hclosed : (w'.escrow.escrows k).disputeId = 0)
    (hslots : ∀ x, (w'.escrow.escrows x).disputeId ≠ 0 →
      (w'.escrow.escrows x).disputeId = (w.escrow.escrows x).disputeId)
    (hhistory : w'.history = w.history ++
      [.disputeResolved epochId escrowedWork winner (w.escrow.escrows k).disputeId]) :
    Applied w' := by
  -- One entry is added to the history, and it applies this dispute.
  have hcount : ∀ i, timesApplied i w'.history =
      timesApplied i w.history + if (w.escrow.escrows k).disputeId = i then 1 else 0 := by
    intro i
    rw [hhistory, timesApplied, List.countP_append]
    by_cases hi : (w.escrow.escrows k).disputeId = i
    · simp [timesApplied, Entry.applies, hi]
    · simp [timesApplied, Entry.applies, hi]
  refine ⟨?_, ?_, ?_⟩
  · intro i
    rw [hcount]
    by_cases hi : (w.escrow.escrows k).disputeId = i
    · subst hi
      rw [h.pending k hk]
      simp
    · simpa [hi] using h.once i
  · intro x hx
    have hsame := hslots x hx
    -- Another slot has another dispute.
    have hne : (w.escrow.escrows k).disputeId ≠ (w.escrow.escrows x).disputeId := by
      intro heq
      have hkx := hw.unique k x hk heq
      subst hkx
      exact hx hclosed
    rw [hcount, hsame, if_neg hne, h.pending x (hsame ▸ hx)]
  · intro i hi
    rw [hjury] at hi
    have hle := hw.opened k
    rw [hcount, if_neg (by omega), h.future i hi]

/-! ## One step -/

/-- Registrations and credentials leave no verdict in the history. -/
theorem applies_recordEntries {timestamp i : Nat} (c : RecordCall) :
    ∀ entry ∈ World.recordEntries timestamp c, Entry.applies i entry = false := by
  cases c with
  | registerWork r =>
      intro entry hentry
      rw [List.mem_singleton.1 hentry]
      rfl
  | _ =>
      intro entry hentry
      cases hentry

/-- A verdict can only be applied to a slot under dispute. -/
theorem disputed_of_resolve {d : Deployment} {sender : Address} {epochId : Nat}
    {escrowedWork : Bytes32} {out : World × Option Payment}
    (h : w.input d (.tx sender (.resolveDispute epochId escrowedWork)) = .ok out) :
    (w.slot epochId escrowedWork).disputeId ≠ 0 := by
  rcases bind_eq_ok.1 h with ⟨⟨escrow, winner⟩, hresolve, -⟩
  exact (CWEEscrow.resolveDispute_cases hresolve).1

/-- Rewriting one slot leaves the others under the disputes they had. -/
theorem sameDispute_update {escrows : Nat × Bytes32 → Escrow} {k : Nat × Bytes32} {e : Escrow}
    (he : e.disputeId ≠ 0 → SameDispute (escrows k) e) (x : Nat × Bytes32)
    (hx : (Function.update escrows k e x).disputeId ≠ 0) :
    SameDispute (escrows x) (Function.update escrows k e x) := by
  by_cases hxk : x = k
  · subst hxk
    rw [Function.update_self] at hx ⊢
    exact he hx
  · rw [Function.update_of_ne hxk]
    exact SameDispute.refl _

/-- One slot is rewritten, and no verdict is applied. -/
theorem Links.rewritten (hw : Links w) (ha : Applied w) {k : Nat × Bytes32} {e : Escrow}
    (he : e.disputeId ≠ 0 → SameDispute (w.escrow.escrows k) e) (hjury : w'.jury = w.jury)
    (hslots : w'.escrow.escrows = Function.update w.escrow.escrows k e)
    (hhistory : ∀ i, timesApplied i w'.history = timesApplied i w.history) :
    Links w' ∧ Applied w' := by
  have hsame : ∀ x, (w'.escrow.escrows x).disputeId ≠ 0 →
      SameDispute (w.escrow.escrows x) (w'.escrow.escrows x) := by
    rw [hslots]
    exact sameDispute_update he
  have hkept : SameDisputes w.jury w'.jury := hjury ▸ SameDisputes.refl _
  exact ⟨hw.frame hkept hsame, ha.frame hkept.1 (fun x hx => (hsame x hx).disputeId) hhistory⟩

/-- A challenge puts its slot under a dispute that no other slot has. -/
theorem Links.challenge (h : Links w) {sender : Address} {epochId : Nat}
    {escrowedWork challengerWork : Bytes32} {jury : CWEJury} {disputeId : Nat}
    {escrow : CWEEscrow} {history : List Entry}
    (hne : escrowedWork ≠ challengerWork)
    (hcommitted : (w.slot epochId escrowedWork).committed = true)
    (hreleased : (w.slot epochId escrowedWork).released = false)
    (hopen : w.jury.openDispute sender w.timestamp escrowedWork challengerWork =
      .ok (jury, disputeId))
    (hescrow : escrow.escrows = Function.update w.escrow.escrows (epochId, escrowedWork)
      { w.slot epochId escrowedWork with disputeId := disputeId, challenger := challengerWork }) :
    Links { w with jury := jury, escrow := escrow, history := history } := by
  have hkept := SameDisputes.open hopen
  rcases CWEJury.openDispute_cases hopen with ⟨hid, hjury⟩
  dsimp only at hid hjury hkept
  -- No slot has the new id yet.
  have hfresh : ∀ k, (w.escrow.escrows k).disputeId ≠ disputeId := by
    intro k heq
    have hle := h.opened k
    omega
  have hself : escrow.escrows (epochId, escrowedWork) =
      { w.slot epochId escrowedWork with
        disputeId := disputeId
        challenger := challengerWork } := by
    rw [hescrow, Function.update_self]
  have hother : ∀ k, k ≠ (epochId, escrowedWork) → escrow.escrows k = w.escrow.escrows k := by
    intro k hk
    rw [hescrow, Function.update_of_ne hk]
  have hdispute : (jury.disputes disputeId).workA = escrowedWork ∧
      (jury.disputes disputeId).workB = challengerWork := by
    rw [hjury, hid]
    simp
  refine ⟨?_, ?_, ?_⟩
  · intro k hk
    by_cases hke : k = (epochId, escrowedWork)
    · subst hke
      dsimp only at hk
      refine ⟨?_, ?_, ?_, ?_, ?_⟩
      · simpa [hself] using hcommitted
      · simpa [hself] using hreleased
      · simpa [hself] using hdispute.1
      · simpa [hself] using hdispute.2
      · simpa [hself] using hne.symm
    · dsimp only at hk
      rw [hother k hke] at hk
      apply (h.linked k hk).frame hkept (h.opened k)
      dsimp only
      rw [hother k hke]
      exact SameDispute.refl _
  · intro k k' hk heq
    dsimp only at hk heq
    by_cases hke : k = (epochId, escrowedWork)
    · -- The challenged slot has the fresh id, any other slot an old one.
      by_cases hke' : k' = (epochId, escrowedWork)
      · rw [hke, hke']
      · rw [hke, hself, hother k' hke'] at heq
        exact absurd heq.symm (hfresh k')
    · by_cases hke' : k' = (epochId, escrowedWork)
      · rw [hke', hself, hother k hke] at heq
        exact absurd heq (hfresh k)
      · rw [hother k hke, hother k' hke'] at heq
        rw [hother k hke] at hk
        exact h.unique k k' hk heq
  · intro k
    dsimp only
    by_cases hke : k = (epochId, escrowedWork)
    · rw [hke, hself, hjury, hid]
    · rw [hother k hke]
      exact (h.opened k).trans hkept.1

/-- The dispute that a challenge opens has a fresh id, so its verdict lies in the future. -/
theorem Applied.challenge (h : Applied w) {sender : Address} {epochId : Nat}
    {escrowedWork challengerWork : Bytes32} {jury : CWEJury} {disputeId : Nat}
    {escrow : CWEEscrow} {history : List Entry}
    (hopen : w.jury.openDispute sender w.timestamp escrowedWork challengerWork =
      .ok (jury, disputeId))
    (hescrow : escrow.escrows = Function.update w.escrow.escrows (epochId, escrowedWork)
      { w.slot epochId escrowedWork with disputeId := disputeId, challenger := challengerWork })
    (hhistory : ∀ i, timesApplied i history = timesApplied i w.history) :
    Applied { w with jury := jury, escrow := escrow, history := history } := by
  have hnext := (SameDisputes.open hopen).1
  rcases CWEJury.openDispute_cases hopen with ⟨hid, -⟩
  dsimp only at hid hnext
  refine ⟨?_, ?_, ?_⟩
  · intro i
    rw [hhistory]
    exact h.once i
  · intro x hx
    dsimp only at hx ⊢
    rw [hhistory]
    by_cases hxe : x = (epochId, escrowedWork)
    · rw [hescrow, hxe, Function.update_self]
      exact h.future disputeId (by omega)
    · rw [hescrow, Function.update_of_ne hxe] at hx ⊢
      exact h.pending x hx
  · intro i hi
    rw [hhistory]
    exact h.future i (lt_of_le_of_lt hnext hi)

/-- The slots after a verdict for the challenger: the disputed one is gone, the challenger's keeps
its own dispute. -/
theorem Links.reassigned (h : Links w) {epochId : Nat} {escrowedWork : Bytes32}
    (hk : (w.slot epochId escrowedWork).disputeId ≠ 0) :
    let challenger := (w.slot epochId escrowedWork).challenger
    let escrows := Function.update
      (Function.update w.escrow.escrows (epochId, escrowedWork) default) (epochId, challenger)
      (CWEEscrow.merged (w.slot epochId escrowedWork)
        (Function.update w.escrow.escrows (epochId, escrowedWork) default (epochId, challenger)))
    (escrows (epochId, escrowedWork)).disputeId = 0 ∧
      ∀ x, (escrows x).disputeId ≠ 0 → SameDispute (w.escrow.escrows x) (escrows x) := by
  intro challenger escrows
  have hdistinct : (epochId, challenger) ≠ (epochId, escrowedWork) := by
    intro heq
    exact (h.linked (epochId, escrowedWork) hk).distinct (congrArg Prod.snd heq)
  have hto : Function.update w.escrow.escrows (epochId, escrowedWork) default
      (epochId, challenger) = w.escrow.escrows (epochId, challenger) :=
    Function.update_of_ne hdistinct _ _
  refine ⟨?_, ?_⟩
  · simp [escrows, Function.update_of_ne hdistinct.symm]
  · intro x hx
    by_cases hxc : x = (epochId, challenger)
    · -- The challenger's slot is merged into: amount and flags change, its dispute does not.
      subst hxc
      simp only [escrows, Function.update_self, hto]
      exact ⟨rfl, rfl, fun _ => rfl, fun _ => rfl⟩
    · simp only [escrows, Function.update_of_ne hxc] at hx ⊢
      -- The disputed slot was deleted, so it is under no dispute.
      by_cases hxe : x = (epochId, escrowedWork)
      · subst hxe
        simp at hx
      · rw [Function.update_of_ne hxe]
        exact SameDispute.refl _

theorem links_call {d : Deployment} {ps : List Payment} {k : Input} {out : World × Option Payment}
    (hw : Links w) (ha : Applied w) (hallowed : admits d ps k = true)
    (h : w.input d k = .ok out) : Links out.1 ∧ Applied out.1 := by
  cases effect_of_call hallowed h with
  | elapse seconds hrest =>
      exact ⟨hw.unmoved (SameDisputes.refl _) rfl, ha.unmoved le_rfl rfl fun _ => rfl⟩
  | receive value =>
      exact ⟨hw.unmoved (SameDisputes.refl _) rfl, ha.unmoved le_rfl rfl fun _ => rfl⟩
  | records sender c records heffect =>
      refine ⟨hw.unmoved (SameDisputes.refl _) rfl, ha.unmoved le_rfl rfl fun i => ?_⟩
      exact timesApplied_append_of_not (applies_recordEntries c)
  | jurySettings _ owner escrow =>
      have hkept : SameDisputes w.jury { w.jury with owner := owner, escrow := escrow } :=
        ⟨le_rfl, fun _ _ => ⟨rfl, rfl⟩⟩
      exact ⟨hw.unmoved hkept rfl, ha.unmoved le_rfl rfl fun _ => rfl⟩
  | openDispute sender workA workB out hopen =>
      have hkept := SameDisputes.open hopen
      exact ⟨hw.unmoved hkept rfl, ha.unmoved hkept.1 rfl fun _ => rfl⟩
  | vote juror disputeId forWork d' hvote hopen =>
      rcases CWEJury.castVote_cases hvote with ⟨hA, hB, -⟩
      exact ⟨hw.unmoved (SameDisputes.update hA hB) rfl, ha.unmoved le_rfl rfl fun _ => rfl⟩
  | finalize sender disputeId hopened hopen =>
      refine ⟨hw.unmoved (SameDisputes.update rfl rfl) rfl, ha.unmoved le_rfl rfl ?_⟩
      exact timesApplied_quiet fun _ => rfl
  | commit sender epochId workId amount hrest hregistered hfresh hfit hfunds =>
      refine hw.rewritten ha ?_ rfl rfl (timesApplied_quiet fun _ => rfl)
      exact fun hk => absurd (hw.undisputed hfresh) hk
  | challenge sender epochId escrowedWork challengerWork self out hne hcommitted hreleased
      hcontent hopen =>
      refine ⟨hw.challenge hne hcommitted hreleased hopen rfl, ?_⟩
      exact ha.challenge hopen rfl (timesApplied_quiet fun _ => rfl)
  | reassign sender epochId escrowedWork hreleased hwins =>
      rcases hw.reassigned hwins.1 with ⟨hclosed, hslots⟩
      refine ⟨hw.frame (SameDisputes.refl _) hslots, ?_⟩
      exact ha.resolve hw hwins.1 rfl hclosed (fun x hx => (hslots x hx).disputeId) rfl
  | keep sender epochId escrowedWork hreleased =>
      -- The verdict is for the escrowed work: its slot keeps everything but the dispute.
      have hk := disputed_of_resolve h
      have hslots := @sameDispute_update w.escrow.escrows (epochId, escrowedWork)
        { w.slot epochId escrowedWork with disputeId := 0, challenger := 0 }
        fun hzero => absurd rfl hzero
      refine ⟨hw.frame (SameDisputes.refl _) hslots, ?_⟩
      refine ha.resolve hw hk rfl ?_ (fun x hx => (hslots x hx).disputeId) rfl
      dsimp only
      rw [Function.update_self]
  | release sender epochId workId s hstatus hmature hpayees hamount hsend =>
      refine hw.rewritten ha ?_ rfl rfl fun i => ?_
      · -- A mature slot is not under dispute.
        exact fun hk => absurd hmature.undisputed hk
      · exact timesApplied_append_of_not (by simp [Entry.applies])

theorem links_resume {p : Payment} {out : World × Option Payment} (hw : Links w) (ha : Applied w)
    (h : w.resume p = .ok out) : Links out.1 ∧ Applied out.1 := by
  rcases resume_cases h with ⟨-, rfl⟩ | ⟨q, s, -, -, rfl⟩
  · exact ⟨hw.unmoved (SameDisputes.refl _) rfl, ha.unmoved le_rfl rfl fun _ => rfl⟩
  · refine ⟨hw.unmoved (SameDisputes.refl _) rfl, ha.unmoved le_rfl rfl ?_⟩
    exact timesApplied_quiet fun _ => rfl

end Step

/-! ## What applying a verdict moves -/

/-- From `st` to `st'` the amount of `from_` moves to `to_` whole, and nothing else changes. -/
structure Moves (st st' : CWEEscrow) (from_ to_ : Nat × Bytes32) : Prop where
  source : (st'.escrows from_).amount = 0
  target : (st'.escrows to_).amount = (st.escrows to_).amount + (st.escrows from_).amount
  others : ∀ k, k ≠ from_ → k ≠ to_ → st'.escrows k = st.escrows k
  balance : st'.balance = st.balance
  liability : st'.liability = st.liability

/-- Every amount stays where it is. -/
structure Stays (st st' : CWEEscrow) : Prop where
  amounts : ∀ k, (st'.escrows k).amount = (st.escrows k).amount
  balance : st'.balance = st.balance
  liability : st'.liability = st.liability

/-- A verdict applied in `w` is the one of the dispute over the slot: for `workB` it moves the
slot's amount to the slot of `workB` of the same epoch, else the amounts stay. -/
def AppliesVerdict (w : World) (epochId : Nat) (escrowedWork : Bytes32)
    (out : CWEEscrow × Bytes32) : Prop :=
  let dispute := w.jury.disputes (w.slot epochId escrowedWork).disputeId
  dispute.finalized = true ∧ dispute.workA = escrowedWork ∧
    (dispute.verdict = dispute.workB ∧ out.2 = dispute.workB ∧
        Moves w.escrow out.1 (epochId, dispute.workA) (epochId, dispute.workB) ∨
      dispute.verdict ≠ dispute.workB ∧ out.2 = dispute.workA ∧ Stays w.escrow out.1)

theorem finalized_of_resolve {jury : CWEJury} {st : CWEEscrow} {epochId : Nat}
    {escrowedWork : Bytes32} {out : CWEEscrow × Bytes32}
    (h : CWEEscrow.resolveDispute jury st epochId escrowedWork = .ok out) :
    (jury.disputes (st.escrows (epochId, escrowedWork)).disputeId).finalized = true := by
  unfold CWEEscrow.resolveDispute at h
  dsimp only at h
  split at h
  · cases h
  split at h
  · cases h
  split at h
  · cases h
  · rename_i hresolved
    simpa [CWEJury.isResolved] using hresolved

theorem appliesVerdict {w : World} (hw : Links w) {epochId : Nat} {escrowedWork : Bytes32}
    {out : CWEEscrow × Bytes32}
    (h : CWEEscrow.resolveDispute w.jury w.escrow epochId escrowedWork = .ok out) :
    AppliesVerdict w epochId escrowedWork out := by
  have hfinal := finalized_of_resolve h
  rcases CWEEscrow.resolveDispute_cases h with ⟨hk, -, hcases⟩
  have hlink := hw.linked (epochId, escrowedWork) hk
  have hA : (w.jury.disputes (w.slot epochId escrowedWork).disputeId).workA = escrowedWork :=
    hlink.workA
  have hB : (w.jury.disputes (w.slot epochId escrowedWork).disputeId).workB =
      (w.slot epochId escrowedWork).challenger := hlink.workB
  have hdistinct : (epochId, (w.escrow.escrows (epochId, escrowedWork)).challenger) ≠
      (epochId, escrowedWork) := by
    intro heq
    exact hlink.distinct (congrArg Prod.snd heq)
  refine ⟨hfinal, hA, ?_⟩
  rw [hA, hB]
  simp only [World.slot]
  rcases hcases with ⟨hwins, hwinner, hout⟩ | ⟨hkeeps, hwinner, hout⟩
  · -- For the challenger: the slot is deleted, and its amount merged into the other's.
    refine Or.inl ⟨hwins.2.2, hwinner, ?_⟩
    rw [hout]
    refine ⟨?_, ?_, ?_, rfl, rfl⟩
    · dsimp only
      rw [Function.update_of_ne hdistinct.symm, Function.update_self]
      rfl
    · dsimp only
      rw [Function.update_self, CWEEscrow.merged, Function.update_of_ne hdistinct]
    · intro k hfrom hto
      dsimp only
      rw [Function.update_of_ne hto, Function.update_of_ne hfrom]
  · -- For the escrowed work: only the dispute is cleared.
    refine Or.inr ⟨fun hverdict => hkeeps ⟨hk, hfinal, hverdict⟩, hwinner, ?_⟩
    rw [hout]
    refine ⟨?_, rfl, rfl⟩
    intro x
    by_cases hx : x = (epochId, escrowedWork)
    · subst hx
      simp
    · simp [hx]

/-- A slot under dispute is never released, so the guard for it never fires. -/
theorem resolve_ne_alreadyReleased {w : World} (hw : Links w) (epochId : Nat)
    (escrowedWork : Bytes32) :
    CWEEscrow.resolveDispute w.jury w.escrow epochId escrowedWork ≠
      fail (.alreadyReleased epochId escrowedWork) := by
  intro h
  unfold CWEEscrow.resolveDispute at h
  dsimp only at h
  split at h
  · cases h
  rename_i hk
  have hlink := hw.linked (epochId, escrowedWork) hk
  rw [if_neg (by simp [hlink.unreleased])] at h
  split at h
  · cases h
  rename_i hresolved
  -- What is left can stop on the merged amount, by a panic.
  have hfinal : (w.jury.disputes (w.escrow.escrows (epochId, escrowedWork)).disputeId).finalized =
      true := by
    simpa [CWEJury.isResolved] using hresolved
  simp only [CWEJury.verdictOf, hfinal, Bool.not_true, Bool.false_eq_true, if_false] at h
  change (if _ then _ else _) = _ at h
  split at h
  · unfold CWEEscrow.merge addU at h
    split at h
    · cases h
    · cases h
  · cases h

/-! ## Every reachable state -/

theorem links_run (d : Deployment) (acts : List (Action Input)) :
    Links ((escrowSystem d).run (World.init d) acts).world ∧
      Applied ((escrowSystem d).run (World.init d) acts).world := by
  refine @Machine.run_inv _ _ _ _ (escrowSystem d) (World.init d)
    (fun c => Links c.world ∧ Applied c.world) ?_ ?_ ?_ acts
  · refine ⟨⟨fun k hk => absurd rfl hk, fun k k' hk => absurd rfl hk, fun k => le_rfl⟩,
      ⟨fun i => Nat.zero_le _, fun k hk => absurd rfl hk, fun i _ => rfl⟩⟩
  · rintro c k out ⟨hw, ha⟩ hallowed hout
    rw [Config.world_enter]
    exact links_call hw ha hallowed hout
  · rintro c f fs out ⟨hw, ha⟩ - hout
    rw [Config.world_enter]
    exact links_resume hw ha hout

/-- In every reachable state, payees' calls under way included: a slot under dispute is linked to
its own dispute in the jury and no other slot is; no verdict has been applied twice; applying one
moves the slot's amount to the challenger's slot of the epoch or moves nothing; and it never stops
because the slot was released. -/
theorem dispute_linkage (d : Deployment) (acts : List (Action Input)) :
    let w := ((escrowSystem d).run (World.init d) acts).world
    Links w ∧ Applied w ∧
      (∀ epochId escrowedWork out,
        CWEEscrow.resolveDispute w.jury w.escrow epochId escrowedWork = .ok out →
          AppliesVerdict w epochId escrowedWork out) ∧
      ∀ epochId escrowedWork, CWEEscrow.resolveDispute w.jury w.escrow epochId escrowedWork ≠
        fail (.alreadyReleased epochId escrowedWork) := by
  intro w
  have hinv : Links w ∧ Applied w := links_run d acts
  exact ⟨hinv.1, hinv.2, fun _ _ _ h => appliesVerdict hinv.1 h,
    resolve_ne_alreadyReleased hinv.1⟩

end Contracts
end CleanWeb
