import CleanWeb.Lib.History
import CleanWeb.Contracts.Priority

/-!
# Backdated priority

The arbiter compares first registrations, while the content check of a challenge reads the
challenger's current content id.  The two fit together unless the challenger took the content id
over after the holder had registered.  `InTime` is what a challenge must find in the history for
that not to be so; `not_backdated` is the guarantee of the runs whose challenges all do.
-/

namespace CleanWeb
namespace Contracts

open Lib Lib.Exec

/-- In the fallback a challenger wins only if it had been registered under the slot's content id
before the holder was registered at all. -/
def Prioritized (history : List Entry) : Prop :=
  ∀ past future epochId workA workB disputeId contentId votes,
    history = past ++ .disputeFinalized disputeId workB votes votes :: future →
      .disputeOpened epochId workA workB disputeId contentId ∈ past →
        RegisteredUnder past workB workA contentId

/-- The holder was registered no later than the challenger; or the challenger was under the content
id in the block of its first registration, or before the holder's first registration, before now
if the holder has none. -/
def InTime (now : Nat) (past : List Entry) (challenger incumbent contentId : Bytes32) : Prop :=
  (∃ t', firstRegistration past incumbent = some t' ∧
      ∀ t, firstRegistration past challenger = some t → t' ≤ t) ∨
    ∃ s, .workRegistered challenger contentId s ∈ past ∧
      (firstRegistration past challenger = some s ∨
        s < (firstRegistration past incumbent).getD now)

/-- What `challenge` asks of the slot and of the challenger's content id. -/
def Challengeable (w : World) (epochId : Nat) (escrowedWork challengerWork : Bytes32) : Prop :=
  (w.slot epochId escrowedWork).committed = true ∧
    (w.slot epochId escrowedWork).released = false ∧
    CWEEscrow.currentEpoch w.timestamp < (w.slot epochId escrowedWork).releaseEpoch ∧
    (w.slot epochId escrowedWork).disputeId = 0 ∧
    w.registry.contentIdOf challengerWork = (w.slot epochId escrowedWork).contentId

/-- A challenge that the escrow does not turn down is in time. -/
def ChallengesInTime (c : Config World Payment) : Action Input → Prop
  | .call (.tx _ (.challenge epochId escrowedWork challengerWork)) =>
      Challengeable c.world epochId escrowedWork challengerWork →
        InTime c.world.timestamp c.world.history challengerWork escrowedWork
          (c.world.slot epochId escrowedWork).contentId
  | _ => True

section Deciding

variable {now : Nat} {past : List Entry} {challenger incumbent contentId : Bytes32}

theorem registration_eq_some {e : Entry} {r : Bytes32 × Nat} :
    e.registration challenger = some r ↔ e = .workRegistered challenger r.1 r.2 := by
  cases e with
  | workRegistered x c t =>
      simp only [Entry.registration, Option.ite_none_right_eq_some, Option.some.injEq,
        Entry.workRegistered.injEq]
      constructor
      · rintro ⟨rfl, rfl⟩
        exact ⟨rfl, rfl, rfl⟩
      · rintro ⟨rfl, rfl, rfl⟩
        exact ⟨rfl, rfl⟩
  | _ => simp [Entry.registration]

theorem exists_workRegistered_iff {p : Nat → Prop} :
    (∃ r ∈ past.filterMap (Entry.registration challenger), r.1 = contentId ∧ p r.2) ↔
      ∃ s, .workRegistered challenger contentId s ∈ past ∧ p s := by
  simp only [List.mem_filterMap, registration_eq_some]
  constructor
  · rintro ⟨r, ⟨e, he, rfl⟩, rfl, hp⟩
    exact ⟨r.2, he, hp⟩
  · rintro ⟨s, hs, hp⟩
    exact ⟨(contentId, s), ⟨_, hs, rfl⟩, rfl, hp⟩

instance : Decidable (InTime now past challenger incumbent contentId) :=
  have : Decidable (∃ t', firstRegistration past incumbent = some t' ∧
      ∀ t, firstRegistration past challenger = some t → t' ≤ t) :=
    inferInstanceAs (Decidable (∃ t' ∈ firstRegistration past incumbent,
      ∀ t ∈ firstRegistration past challenger, t' ≤ t))
  have : Decidable (∃ s, .workRegistered challenger contentId s ∈ past ∧
      (firstRegistration past challenger = some s ∨
        s < (firstRegistration past incumbent).getD now)) :=
    decidable_of_iff _ exists_workRegistered_iff
  inferInstanceAs (Decidable (_ ∨ _))

instance (w : World) (epochId : Nat) (escrowedWork challengerWork : Bytes32) :
    Decidable (Challengeable w epochId escrowedWork challengerWork) :=
  inferInstanceAs (Decidable (_ ∧ _ ∧ _ ∧ _ ∧ _))

instance (c : Config World Payment) (a : Action Input) : Decidable (ChallengesInTime c a) := by
  unfold ChallengesInTime
  split <;> infer_instance

end Deciding

/-! ## The order of the registrations -/

def Entry.registrationTime : Entry → Option Nat
  | .workRegistered _ _ timestamp => some timestamp
  | _ => none

/-- The registrations happened in order, and by now. -/
structure Chronological (now : Nat) (history : List Entry) : Prop where
  ordered : (history.filterMap Entry.registrationTime).Pairwise (· ≤ ·)
  by_now : ∀ workId contentId t, .workRegistered workId contentId t ∈ history → t ≤ now

section Order

variable {now now' : Nat} {history entries : List Entry} {workId : Bytes32}

theorem mem_registrationTimes {t : Nat} :
    t ∈ history.filterMap Entry.registrationTime ↔
      ∃ workId contentId, .workRegistered workId contentId t ∈ history := by
  rw [List.mem_filterMap]
  constructor
  · rintro ⟨e, he, htime⟩
    cases e with
    | workRegistered workId contentId s =>
        cases htime
        exact ⟨workId, contentId, he⟩
    | _ => cases htime
  · rintro ⟨workId, contentId, h⟩
    exact ⟨_, h, rfl⟩

theorem Chronological.append (h : Chronological now history) (hnow : now ≤ now')
    (hentries : ∀ workId contentId t, .workRegistered workId contentId t ∈ entries → t = now) :
    Chronological now' (history ++ entries) := by
  refine ⟨?_, ?_⟩
  · rw [List.filterMap_append, List.pairwise_append]
    refine ⟨h.ordered, List.pairwise_of_forall_mem_list ?_, ?_⟩
    · intro t ht t' ht'
      rcases mem_registrationTimes.1 ht with ⟨x, c, hmem⟩
      rcases mem_registrationTimes.1 ht' with ⟨x', c', hmem'⟩
      rw [hentries x c t hmem, hentries x' c' t' hmem']
    · intro t ht t' ht'
      rcases mem_registrationTimes.1 ht with ⟨x, c, hmem⟩
      rcases mem_registrationTimes.1 ht' with ⟨x', c', hmem'⟩
      rw [hentries x' c' t' hmem']
      exact h.by_now x c t hmem
  · intro x c t hmem
    rcases List.mem_append.1 hmem with hmem | hmem
    · exact (h.by_now x c t hmem).trans hnow
    · exact (hentries x c t hmem).le.trans hnow

theorem Chronological.of_append (h : Chronological now (history ++ entries)) :
    Chronological now history := by
  refine ⟨?_, ?_⟩
  · have hordered := h.ordered
    rw [List.filterMap_append, List.pairwise_append] at hordered
    exact hordered.1
  · intro x c t hmem
    exact h.by_now x c t (List.mem_append_left entries hmem)

/-- What is registered later has a later time. -/
theorem Chronological.le (h : Chronological now (history ++ entries)) {x y c c' : Bytes32}
    {t t' : Nat} (hmem : .workRegistered x c t ∈ history)
    (hmem' : .workRegistered y c' t' ∈ entries) : t ≤ t' := by
  have hordered := h.ordered
  rw [List.filterMap_append, List.pairwise_append] at hordered
  exact hordered.2.2 t (mem_registrationTimes.2 ⟨x, c, hmem⟩) t'
    (mem_registrationTimes.2 ⟨y, c', hmem'⟩)

theorem firstRegistration_append :
    firstRegistration (history ++ entries) workId =
      (firstRegistration history workId).or (firstRegistration entries workId) := by
  rw [firstRegistration, List.findSome?_append, Option.map_or]
  rfl

/-- A later first registration is one of the entries that have been added. -/
theorem firstRegistration_append_cases {t : Nat}
    (h : firstRegistration (history ++ entries) workId = some t) :
    firstRegistration history workId = some t ∨
      firstRegistration history workId = none ∧
        ∃ contentId, .workRegistered workId contentId t ∈ entries := by
  rw [firstRegistration_append] at h
  rcases Option.or_eq_some_iff.1 h with h | ⟨hnone, h⟩
  · exact Or.inl h
  · exact Or.inr ⟨hnone, exists_registered_of_first h⟩

theorem firstRegistration_append_some {t : Nat} (h : firstRegistration history workId = some t) :
    firstRegistration (history ++ entries) workId = some t := by
  rw [firstRegistration_append, h, Option.some_or]

end Order

/-! ## A challenge that was in time -/

section InTime

variable {now now' : Nat} {past entries : List Entry} {challenger incumbent contentId : Bytes32}

/-- Later registrations do not change it. -/
theorem InTime.later (h : InTime now past challenger incumbent contentId)
    (hpast : Chronological now past) (hnow : now ≤ now')
    (hentries : ∀ workId contentId t, .workRegistered workId contentId t ∈ entries → t = now) :
    InTime now' (past ++ entries) challenger incumbent contentId := by
  rcases h with ⟨t', hincumbent, hlater⟩ | ⟨s, hmem, hs⟩
  · refine Or.inl ⟨t', firstRegistration_append_some hincumbent, ?_⟩
    intro t ht
    -- A challenger that registers only now does so after the holder.
    rcases firstRegistration_append_cases ht with ht | ⟨-, c, hmem⟩
    · exact hlater t ht
    · rcases exists_registered_of_first hincumbent with ⟨c', hmem'⟩
      rw [hentries _ c t hmem]
      exact hpast.by_now _ c' t' hmem'
  · refine Or.inr ⟨s, List.mem_append_left entries hmem, ?_⟩
    rcases hs with hs | hs
    · exact Or.inl (firstRegistration_append_some hs)
    · refine Or.inr ?_
      -- The holder has no registration, has had one, or registers now.
      cases hfirst : firstRegistration (past ++ entries) incumbent with
      | none =>
          have hnone := @firstRegistration_append past entries incumbent
          rw [hfirst] at hnone
          rw [(Option.or_eq_none_iff.1 hnone.symm).1] at hs
          exact hs.trans_le hnow
      | some t =>
          rcases firstRegistration_append_cases hfirst with ht | ⟨hnone, c, hmem'⟩
          · rw [ht] at hs
            exact hs
          · rw [hnone] at hs
            rw [Option.getD_some, hentries _ c t hmem']
            exact hs

/-- Then an earlier registration is one under the content id. -/
theorem InTime.registeredUnder (h : InTime now past challenger incumbent contentId)
    (hearlier : RegisteredEarlier past challenger incumbent) :
    RegisteredUnder past challenger incumbent contentId := by
  rcases hearlier with ⟨t, hfirst, hbefore⟩
  rcases h with ⟨t', hincumbent, hlater⟩ | ⟨s, hmem, hs⟩
  · -- A holder that is no later than the challenger does not lose the fallback.
    exact absurd (hbefore t' hincumbent) (Nat.not_lt.2 (hlater t hfirst))
  · refine ⟨s, hmem, ?_⟩
    intro t' ht'
    rcases hs with hs | hs
    · rw [hfirst] at hs
      cases hs
      exact hbefore t' ht'
    · rw [ht'] at hs
      exact hs

/-- For a holder that was registered at the challenge, being in time then is what decides. -/
theorem registeredUnder_iff_inTime (hchron : Chronological now' (past ++ entries))
    (hincumbent : (firstRegistration past incumbent).isSome)
    (hearlier : RegisteredEarlier (past ++ entries) challenger incumbent) :
    RegisteredUnder (past ++ entries) challenger incumbent contentId ↔
      InTime now past challenger incumbent contentId := by
  rcases Option.isSome_iff_exists.1 hincumbent with ⟨t', ht'⟩
  rcases exists_registered_of_first ht' with ⟨c', hmem'⟩
  rcases hearlier with ⟨t, hfirst, hbefore⟩
  have hlt : t < t' := hbefore t' (firstRegistration_append_some ht')
  -- The challenger's first registration is older than the challenge.
  have hfirst' : firstRegistration past challenger = some t := by
    rcases firstRegistration_append_cases hfirst with ht | ⟨-, c, hmem⟩
    · exact ht
    · exact absurd (hchron.le hmem' hmem) (Nat.not_le.2 hlt)
  constructor
  · rintro ⟨s, hmem, hs⟩
    have hst : s < t' := hs t' (firstRegistration_append_some ht')
    rcases List.mem_append.1 hmem with hmem | hmem
    · refine Or.inr ⟨s, hmem, Or.inr ?_⟩
      rw [ht']
      exact hst
    · exact absurd (hchron.le hmem' hmem) (Nat.not_le.2 hst)
  · rintro (⟨t'', ht'', hlater⟩ | ⟨s, hmem, hs⟩)
    · rw [ht'] at ht''
      cases ht''
      exact absurd (hlater t hfirst') (Nat.not_le.2 hlt)
    · have hst : s < t' := by
        rcases hs with hs | hs
        · rw [hfirst'] at hs
          cases hs
          exact hlt
        · rw [ht'] at hs
          exact hs
      refine ⟨s, List.mem_append_left entries hmem, ?_⟩
      intro t'' ht''
      rw [firstRegistration_append_some ht'] at ht''
      cases ht''
      exact hst

end InTime

/-! ## Every run -/

/-- What a successful input adds to the history: registrations of now, and a dispute only by a
challenge that the slot allowed. -/
def Entry.Added (w : World) (k : Input) : Entry → Prop
  | .workRegistered _ _ timestamp => timestamp = w.timestamp
  | .disputeOpened epochId escrowedWork challengerWork _ contentId =>
      ∃ sender, k = .tx sender (.challenge epochId escrowedWork challengerWork) ∧
        Challengeable w epochId escrowedWork challengerWork ∧
        contentId = (w.slot epochId escrowedWork).contentId
  | _ => True

/-- Each dispute was opened by a challenge that was in time. -/
structure OpenedInTime (now : Nat) (history : List Entry) : Prop where
  chronological : Chronological now history
  opened : ∀ epochId workA workB disputeId contentId,
    .disputeOpened epochId workA workB disputeId contentId ∈ history →
      InTime now history workB workA contentId

section Step

variable {w : World} {c : Config World Payment} {k : Input} {entries : List Entry}

theorem added_of_input {d : Deployment} {ps : List Payment} {out : World × Option Payment}
    (hallowed : admits d ps k = true) (h : w.input d k = .ok out) :
    w.timestamp ≤ out.1.timestamp ∧
      ∃ entries, out.1.history = w.history ++ entries ∧ ∀ e ∈ entries, e.Added w k := by
  cases effect_of_call hallowed h with
  | elapse seconds hrest =>
      exact ⟨Nat.le_add_right _ _, [], (List.append_nil _).symm, by simp⟩
  | receive value => exact ⟨Nat.le_refl _, [], (List.append_nil _).symm, by simp⟩
  | records sender c records heffect =>
      refine ⟨Nat.le_refl _, _, rfl, ?_⟩
      cases c <;> simp [World.recordEntries, Entry.Added]
  | jurySettings _ owner escrow => exact ⟨Nat.le_refl _, [], (List.append_nil _).symm, by simp⟩
  | openDispute sender workA workB out hopen =>
      exact ⟨Nat.le_refl _, [], (List.append_nil _).symm, by simp⟩
  | vote juror disputeId forWork d' hvote hopen =>
      exact ⟨Nat.le_refl _, [], (List.append_nil _).symm, by simp⟩
  | finalize sender disputeId hopened hopen =>
      exact ⟨Nat.le_refl _, _, rfl, by simp [Entry.Added]⟩
  | commit sender e x amount hrest hregistered hfresh hfit hfunds =>
      exact ⟨Nat.le_refl _, _, rfl, by simp [Entry.Added]⟩
  | challenge sender e escrowedWork challengerWork self out hne hcommitted hreleased hcontent
      hopen =>
      refine ⟨Nat.le_refl _, _, rfl, ?_⟩
      intro entry hentry
      cases List.mem_singleton.1 hentry
      rcases bind_eq_ok.1 h with ⟨_, hchallenge, -⟩
      rcases CWEEscrow.challenge_open hchallenge with ⟨hwindow, hdispute⟩
      exact ⟨sender, rfl, ⟨hcommitted, hreleased, hwindow, hdispute, hcontent⟩, rfl⟩
  | reassign sender e escrowedWork hreleased hwins =>
      exact ⟨Nat.le_refl _, _, rfl, by simp [Entry.Added]⟩
  | keep sender e escrowedWork hreleased =>
      exact ⟨Nat.le_refl _, _, rfl, by simp [Entry.Added]⟩
  | release sender e x s hstatus hmature hpayees hamount hsend =>
      exact ⟨Nat.le_refl _, _, rfl, by simp [Entry.Added]⟩

theorem registrations_of_added (hadded : ∀ e ∈ entries, e.Added w k) :
    ∀ workId contentId t, .workRegistered workId contentId t ∈ entries → t = w.timestamp :=
  fun _ _ _ hmem => hadded _ hmem

theorem OpenedInTime.append {now' : Nat} (h : OpenedInTime c.world.timestamp c.world.history)
    (hnow : c.world.timestamp ≤ now') (hadded : ∀ e ∈ entries, e.Added c.world k)
    (hstep : ChallengesInTime c (.call k)) : OpenedInTime now' (c.world.history ++ entries) := by
  have hentries := registrations_of_added hadded
  refine ⟨h.chronological.append hnow hentries, ?_⟩
  intro epochId workA workB disputeId contentId hmem
  refine InTime.later ?_ h.chronological hnow hentries
  rcases List.mem_append.1 hmem with hmem | hmem
  · exact h.opened epochId workA workB disputeId contentId hmem
  · rcases hadded _ hmem with ⟨sender, rfl, hguards, rfl⟩
    exact hstep hguards

end Step

/-- At each point of the history, the disputes before it had been opened in time. -/
def AlwaysInTime (history : List Entry) : Prop :=
  Ordered (fun past _ => ∃ now, OpenedInTime now past) history

theorem inTime_run {d : Deployment} {acts : List (Action Input)}
    (h : (escrowSystem d).Steps ChallengesInTime (World.init d) acts) :
    OpenedInTime ((escrowSystem d).run (World.init d) acts).world.timestamp
        ((escrowSystem d).run (World.init d) acts).world.history ∧
      AlwaysInTime ((escrowSystem d).run (World.init d) acts).world.history := by
  refine Machine.run_inv_of_steps
    (P := fun c : Config World Payment =>
      OpenedInTime c.world.timestamp c.world.history ∧ AlwaysInTime c.world.history)
    ⟨⟨⟨List.Pairwise.nil, ?_⟩, ?_⟩, Ordered.nil⟩ ?_ ?_ h
  · intro workId contentId t hmem
    cases hmem
  · intro epochId workA workB disputeId contentId hmem
    cases hmem
  · rintro c k out ⟨hopened, halways⟩ hstep hallowed hout
    rw [Config.world_enter]
    rcases added_of_input hallowed hout with ⟨hnow, entries, hhistory, hadded⟩
    rw [hhistory]
    refine ⟨hopened.append hnow hadded hstep, Ordered.append halways ?_⟩
    -- The entries of one input are all of one time, so each stretch of them is in time as well.
    rintro pre e post rfl
    exact ⟨_, hopened.append hnow (fun x hx => hadded x (by simp [hx])) hstep⟩
  · rintro c f fs out ⟨hopened, halways⟩ - - hout
    rw [Config.world_enter]
    rcases resume_cases hout with ⟨-, rfl⟩ | ⟨q, s, -, -, rfl⟩
    · exact ⟨hopened, halways⟩
    · refine ⟨?_, Ordered.append_singleton halways ⟨_, hopened⟩⟩
      -- A payment is neither a registration nor a challenge.
      exact hopened.append (k := .elapse 0) (Nat.le_refl _) (by simp [Entry.Added]) trivial

theorem chronological_run (d : Deployment) (acts : List (Action Input)) :
    Chronological ((escrowSystem d).run (World.init d) acts).world.timestamp
      ((escrowSystem d).run (World.init d) acts).world.history := by
  refine Machine.run_inv
    (P := fun c : Config World Payment => Chronological c.world.timestamp c.world.history)
    ⟨List.Pairwise.nil, ?_⟩ ?_ ?_ acts
  · intro workId contentId t hmem
    cases hmem
  · intro c k out hc hallowed hout
    rw [Config.world_enter]
    rcases added_of_input hallowed hout with ⟨hnow, entries, hhistory, hadded⟩
    rw [hhistory]
    exact hc.append hnow (registrations_of_added hadded)
  · intro c f fs out hc _ hout
    rw [Config.world_enter]
    rcases resume_cases hout with ⟨-, rfl⟩ | ⟨q, s, -, -, rfl⟩
    · exact hc
    · exact hc.append (Nat.le_refl _) (by simp)

/-- In every run whose challenges are in time, a challenger wins the fallback only if it had been
registered under the slot's content id before the holder was registered.  In every run, a dispute
that the fallback gives to the challenger meets this exactly if its challenge was in time, for a
holder registered when it was challenged. -/
theorem not_backdated (d : Deployment) (acts : List (Action Input)) :
    ((escrowSystem d).Steps ChallengesInTime (World.init d) acts →
        Prioritized ((escrowSystem d).run (World.init d) acts).world.history) ∧
      ∀ before between future now epochId workA workB disputeId contentId votes,
        ((escrowSystem d).run (World.init d) acts).world.history =
            before ++ .disputeOpened epochId workA workB disputeId contentId :: between ++
              .disputeFinalized disputeId workB votes votes :: future →
          (firstRegistration before workA).isSome →
            (RegisteredUnder
                (before ++ .disputeOpened epochId workA workB disputeId contentId :: between)
                workB workA contentId ↔
              InTime now before workB workA contentId) := by
  constructor
  · intro hsteps past future epochId workA workB disputeId contentId votes hsplit hmem
    -- The history before the verdict is one in which every dispute was opened in time.
    rcases (inTime_run hsteps).2 past _ future hsplit with ⟨now, hopened⟩
    refine (hopened.opened _ _ _ _ _ hmem).registeredUnder ?_
    exact (fallback_priority d acts past future epochId workA workB disputeId contentId votes
      hsplit hmem).1
  · intro before between future now epochId workA workB disputeId contentId votes hsplit hincumbent
    have hchron := chronological_run d acts
    rw [hsplit] at hchron
    refine registeredUnder_iff_inTime (hchron.of_append) hincumbent ?_
    exact (fallback_priority d acts _ future epochId workA workB disputeId contentId votes
      hsplit (by simp)).1

/-- The history of the sample run up to the verdict: work 2 wins in silence. -/
theorem sampleRecommit_history :
    ((escrowSystem sampleDeployment).run (World.init sampleDeployment)
        (sampleRecommit.take 12)).world.history =
      [.workRegistered 2 7 1000, .workRegistered 1 7 1010, .escrowCommitted 0 1 30,
        .disputeOpened 0 1 2 1 7] ++ [.disputeFinalized 1 2 0 0] := by
  decide +kernel

/-- The rule at that verdict. -/
theorem not_backdated_sample :
    RegisteredUnder [.workRegistered 2 7 1000, .workRegistered 1 7 1010,
      .escrowCommitted 0 1 30, .disputeOpened 0 1 2 1 7] 2 1 7 :=
  (not_backdated sampleDeployment (sampleRecommit.take 12)).1 (by decide +kernel) _ [] 0 1 2 1 7 0
    sampleRecommit_history (by simp)

/-! ## A challenger that changes its content id -/

/-- Work 2 registers under content id 5, work 1 under 7; work 2 then moves to 7, challenges work
1's credit, and wins in silence. -/
def sampleBackdated : List (Action Input) :=
  sampleSetup ++
    [.call (.tx 0xc0 (.records (.registerWork (sampleRegistration 2 5)))),
      .call (.elapse 10),
      .call (.tx 0xc0 (.records (.registerWork (sampleRegistration 1 7)))),
      .call (.elapse 10),
      .call (.tx 0xc0 (.records (.registerWork (sampleRegistration 2 7)))),
      .call (.tx 0xe0 (.commit 0 1 30)),
      .call (.tx 0xff (.challenge 0 1 2)),
      .call (.elapse 1814400),
      .call (.tx 0xff (.finalize 1))]

theorem sampleBackdated_history :
    ((escrowSystem sampleDeployment).run (World.init sampleDeployment)
        sampleBackdated).world.history =
      [.workRegistered 2 5 1000, .workRegistered 1 7 1010, .workRegistered 2 7 1020,
        .escrowCommitted 0 1 30, .disputeOpened 0 1 2 1 7] ++ [.disputeFinalized 1 2 0 0] := by
  decide +kernel

/-- Work 2 wins the dispute without a vote, and was registered under 7 only after work 1. -/
theorem sampleBackdated_not_prioritized :
    ¬ Prioritized ((escrowSystem sampleDeployment).run (World.init sampleDeployment)
      sampleBackdated).world.history := by
  intro hclaim
  rcases hclaim _ [] 0 1 2 1 7 0 sampleBackdated_history (by simp) with ⟨t, hmem, hbefore⟩
  have ht : t = 1020 := by simpa using hmem
  have hlt := hbefore 1010 (by decide +kernel)
  omega

end Contracts
end CleanWeb
