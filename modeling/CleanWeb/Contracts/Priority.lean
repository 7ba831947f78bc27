import CleanWeb.Contracts.CommitOnce

/-!
# Priority in the fallback

The registry, the jury and the history are tied together by `Recorded`: registration times and
content ids are those of the history, and a dispute keeps the works it was opened with.  Over it,
`Fair` says what each entry of the history implies about the entries before it; its clause for a
finalized dispute is the priority rule.
-/

namespace CleanWeb
namespace Contracts

open Lib Lib.Exec

/-! ## Reading the history -/

def Entry.registration (workId : Bytes32) : Entry → Option (Bytes32 × Nat)
  | .workRegistered x contentId timestamp =>
      if x = workId then some (contentId, timestamp) else none
  | _ => none

/-- The block timestamp at which a work was first registered. -/
def firstRegistration (history : List Entry) (workId : Bytes32) : Option Nat :=
  (history.findSome? (Entry.registration workId)).map Prod.snd

/-- The content id that the last registration of a work has left, zero before the first. -/
def lastContent (history : List Entry) (workId : Bytes32) : Bytes32 :=
  history.foldl (fun contentId e => ((e.registration workId).map Prod.fst).getD contentId) 0

section Reading

variable {history : List Entry} {entry : Entry} {workId : Bytes32}

theorem firstRegistration_append_of_none (h : entry.registration workId = none) :
    firstRegistration (history ++ [entry]) workId = firstRegistration history workId := by
  simp [firstRegistration, List.findSome?_append, h]

theorem lastContent_append_of_none (h : entry.registration workId = none) :
    lastContent (history ++ [entry]) workId = lastContent history workId := by
  simp [lastContent, List.foldl_append, h]

theorem firstRegistration_append_registered (contentId : Bytes32) (timestamp : Nat) :
    firstRegistration (history ++ [.workRegistered workId contentId timestamp]) workId =
      some ((firstRegistration history workId).getD timestamp) := by
  cases hfirst : history.findSome? (Entry.registration workId) with
  | none => simp [firstRegistration, List.findSome?_append, hfirst, Entry.registration]
  | some r => simp [firstRegistration, List.findSome?_append, hfirst]

theorem lastContent_append_registered (contentId : Bytes32) (timestamp : Nat) :
    lastContent (history ++ [.workRegistered workId contentId timestamp]) workId = contentId := by
  simp [lastContent, List.foldl_append, Entry.registration]

/-- A first registration is one of the registrations. -/
theorem exists_registered_of_first {t : Nat} (h : firstRegistration history workId = some t) :
    ∃ contentId, .workRegistered workId contentId t ∈ history := by
  rcases Option.map_eq_some_iff.1 h with ⟨⟨contentId, t'⟩, hfind, rfl⟩
  rcases List.exists_of_findSome?_eq_some hfind with ⟨e, he, hreg⟩
  refine ⟨contentId, ?_⟩
  cases e with
  | workRegistered x c s =>
      simp only [Entry.registration] at hreg
      split at hreg
      · rename_i hx
        cases hreg
        exact hx ▸ he
      · cases hreg
  | _ => cases hreg

end Reading

/-! ## The history records the contracts -/

structure Recorded (w : World) : Prop where
  clock : 0 < w.timestamp
  positive : ∀ workId t, firstRegistration w.history workId = some t → 0 < t
  exists_ : ∀ workId,
    w.registry.isRegistered workId = (firstRegistration w.history workId).isSome
  times : ∀ workId,
    w.registry.registeredAtOf workId = (firstRegistration w.history workId).getD 0
  contents : ∀ workId, w.registry.contentIdOf workId = lastContent w.history workId
  disputes : ∀ epochId workA workB disputeId contentId,
    .disputeOpened epochId workA workB disputeId contentId ∈ w.history →
      disputeId ≤ w.jury.nextDisputeId ∧ (w.jury.disputes disputeId).workA = workA ∧
        (w.jury.disputes disputeId).workB = workB

/-- An entry that neither registers a work nor opens a dispute. -/
def Entry.Plain (e : Entry) : Prop :=
  (∀ workId, e.registration workId = none) ∧
    ∀ epochId workA workB disputeId contentId,
      e ≠ .disputeOpened epochId workA workB disputeId contentId

/-- What the registry says about each work is unchanged. -/
def SameRegistrations (r r' : CWERegistry) : Prop :=
  ∀ workId, r'.isRegistered workId = r.isRegistered workId ∧
    r'.registeredAtOf workId = r.registeredAtOf workId ∧
      r'.contentIdOf workId = r.contentIdOf workId

theorem SameRegistrations.refl (r : CWERegistry) : SameRegistrations r r :=
  fun _ => ⟨rfl, rfl, rfl⟩

namespace Recorded

variable {w w' : World}

/-- No registration and no dispute opened. -/
theorem keep (h : Recorded w) (hclock : w.timestamp ≤ w'.timestamp)
    (hregistry : SameRegistrations w.registry w'.registry) (hjury : SameDisputes w.jury w'.jury)
    {entries : List Entry} (hhistory : w'.history = w.history ++ entries)
    (hplain : ∀ e ∈ entries, e.Plain) : Recorded w' := by
  have hfirst : ∀ workId, firstRegistration w'.history workId =
      firstRegistration w.history workId := by
    intro workId
    have hnone : entries.findSome? (Entry.registration workId) = none :=
      List.findSome?_eq_none_iff.2 fun e he => (hplain e he).1 workId
    rw [hhistory, firstRegistration, List.findSome?_append, hnone, Option.or_none]
    rfl
  have hlast : ∀ workId, lastContent w'.history workId = lastContent w.history workId := by
    intro workId
    rw [hhistory]
    clear hhistory hfirst
    induction entries using List.reverseRecOn with
    | nil => rw [List.append_nil]
    | append_singleton entries e ih =>
        rw [← List.append_assoc, lastContent_append_of_none ((hplain e (by simp)).1 workId)]
        exact ih fun x hx => hplain x (by simp [hx])
  refine ⟨Nat.lt_of_lt_of_le h.clock hclock, ?_, ?_, ?_, ?_, ?_⟩
  · intro workId t ht
    rw [hfirst] at ht
    exact h.positive workId t ht
  · intro workId
    rw [(hregistry workId).1, hfirst]
    exact h.exists_ workId
  · intro workId
    rw [(hregistry workId).2.1, hfirst]
    exact h.times workId
  · intro workId
    rw [(hregistry workId).2.2, hlast]
    exact h.contents workId
  · intro epochId workA workB disputeId contentId hmem
    rw [hhistory] at hmem
    rcases List.mem_append.1 hmem with hmem | hmem
    · rcases h.disputes epochId workA workB disputeId contentId hmem with ⟨hle, hA, hB⟩
      rcases hjury.2 disputeId hle with ⟨hA', hB'⟩
      exact ⟨hle.trans hjury.1, hA'.trans hA, hB'.trans hB⟩
    · exact absurd rfl ((hplain _ hmem).2 epochId workA workB disputeId contentId)

theorem register (h : Recorded w) {r : Registration} {work : Work}
    (hwork : CWERegistry.Registered w.timestamp r (w.registry.works r.workId) work) :
    Recorded { w with
      registry := { w.registry with works := Function.update w.registry.works r.workId work }
      history := w.history ++ [.workRegistered r.workId r.contentId w.timestamp] } := by
  have hother : ∀ workId, workId ≠ r.workId →
      (Entry.workRegistered r.workId r.contentId w.timestamp).registration workId = none := by
    intro workId hid
    simp [Entry.registration, Ne.symm hid]
  refine ⟨h.clock, ?_, ?_, ?_, ?_, ?_⟩
  · intro workId t ht
    by_cases hid : workId = r.workId
    · subst hid
      rw [firstRegistration_append_registered] at ht
      cases hfirst : firstRegistration w.history r.workId with
      | none =>
          rw [hfirst] at ht
          cases ht
          exact h.clock
      | some t' =>
          rw [hfirst] at ht
          cases ht
          exact h.positive _ _ hfirst
    · rw [firstRegistration_append_of_none (hother workId hid)] at ht
      exact h.positive workId t ht
  · intro workId
    by_cases hid : workId = r.workId
    · subst hid
      rw [firstRegistration_append_registered]
      simp [CWERegistry.isRegistered, hwork.exists_]
    · rw [firstRegistration_append_of_none (hother workId hid), ← h.exists_ workId]
      simp [CWERegistry.isRegistered, hid]
  · intro workId
    by_cases hid : workId = r.workId
    · -- Only a first registration sets the time.
      subst hid
      have hexists := h.exists_ r.workId
      have htimes := h.times r.workId
      simp only [CWERegistry.isRegistered, CWERegistry.registeredAtOf] at hexists htimes
      rw [firstRegistration_append_registered]
      simp only [CWERegistry.registeredAtOf, Function.update_self, hwork.registeredAt, hexists,
        htimes]
      cases firstRegistration w.history r.workId with
      | none => rfl
      | some t => rfl
    · rw [firstRegistration_append_of_none (hother workId hid), ← h.times workId]
      simp [CWERegistry.registeredAtOf, hid]
  · intro workId
    by_cases hid : workId = r.workId
    · subst hid
      rw [lastContent_append_registered]
      simp [CWERegistry.contentIdOf, hwork.contentId]
    · rw [lastContent_append_of_none (hother workId hid), ← h.contents workId]
      simp [CWERegistry.contentIdOf, hid]
  · intro epochId workA workB disputeId contentId hmem
    refine h.disputes epochId workA workB disputeId contentId ?_
    simpa using hmem

theorem challenge (h : Recorded w) {self : Address} {epochId : Nat}
    {escrowedWork challengerWork contentId : Bytes32} {out : CWEJury × Nat} {escrow : CWEEscrow}
    (hopen : w.jury.openDispute self w.timestamp escrowedWork challengerWork = .ok out) :
    Recorded { w with
      jury := out.1
      escrow := escrow
      history := w.history ++
        [.disputeOpened epochId escrowedWork challengerWork out.2 contentId] } := by
  have hjury := SameDisputes.open hopen
  rcases CWEJury.openDispute_cases hopen with ⟨hid, hout⟩
  refine ⟨h.clock, ?_, ?_, ?_, ?_, ?_⟩
  · intro workId t ht
    rw [firstRegistration_append_of_none rfl] at ht
    exact h.positive workId t ht
  · intro workId
    rw [firstRegistration_append_of_none rfl]
    exact h.exists_ workId
  · intro workId
    rw [firstRegistration_append_of_none rfl]
    exact h.times workId
  · intro workId
    rw [lastContent_append_of_none rfl]
    exact h.contents workId
  · intro e workA workB disputeId c hmem
    rcases List.mem_append.1 hmem with hmem | hmem
    · rcases h.disputes e workA workB disputeId c hmem with ⟨hle, hA, hB⟩
      rcases hjury.2 disputeId hle with ⟨hA', hB'⟩
      exact ⟨hle.trans hjury.1, hA'.trans hA, hB'.trans hB⟩
    · cases List.mem_singleton.1 hmem
      rw [hid, hout]
      simp

end Recorded

/-! ## What each entry implies about the past -/

/-- The challenger was first registered strictly before the incumbent was, if that ever was. -/
def RegisteredEarlier (past : List Entry) (challenger incumbent : Bytes32) : Prop :=
  ∃ t, firstRegistration past challenger = some t ∧
    ∀ t', firstRegistration past incumbent = some t' → t < t'

/-- A challenge is over two works under one content id; a challenger that wins without a majority
was registered earlier. -/
def EntryFair (past : List Entry) : Entry → Prop
  | .disputeOpened _ escrowedWork challengerWork _ contentId =>
      escrowedWork ≠ challengerWork ∧ lastContent past challengerWork = contentId
  | .disputeFinalized disputeId verdict votesA votesB =>
      votesA = votesB → ∀ epochId workA contentId,
        .disputeOpened epochId workA verdict disputeId contentId ∈ past →
          RegisteredEarlier past verdict workA
  | _ => True

/-- Every entry is fair to the entries before it. -/
def Fair (history : List Entry) : Prop :=
  ∀ past e future, history = past ++ e :: future → EntryFair past e

theorem fair_append_singleton {history : List Entry} {e : Entry} :
    Fair (history ++ [e]) ↔ Fair history ∧ EntryFair history e := by
  constructor
  · intro h
    refine ⟨?_, h history e [] rfl⟩
    intro past x future hsplit
    exact h past x (future ++ [e]) (by simp [hsplit])
  · rintro ⟨hhistory, he⟩ past x future hsplit
    rcases List.eq_nil_or_concat future with rfl | ⟨future', y, rfl⟩
    · have hlast := List.append_inj' hsplit rfl
      rw [← hlast.1, ← List.singleton_inj.1 hlast.2]
      exact he
    · rw [List.concat_eq_append, ← List.cons_append, ← List.append_assoc] at hsplit
      have hlast := List.append_inj' hsplit rfl
      exact hhistory past x future' hlast.1

theorem Fair.opened {history : List Entry} (h : Fair history) {epochId disputeId : Nat}
    {workA workB contentId : Bytes32}
    (hmem : .disputeOpened epochId workA workB disputeId contentId ∈ history) : workA ≠ workB := by
  rcases List.append_of_mem hmem with ⟨past, future, hsplit⟩
  exact (h past _ future hsplit).1

/-- The arbiter prefers the challenger only on an earlier registration. -/
theorem registeredEarlier_of_resolve {w : World} (h : Recorded w) {workA workB : Bytes32}
    (hne : workA ≠ workB)
    (hresolve : EarliestRegistrationArbiter.resolve w.registry workA workB = workB) :
    RegisteredEarlier w.history workB workA := by
  rcases (EarliestRegistrationArbiter.resolve_eq_iff w.registry hne).1 hresolve with
    ⟨hregistered, hearlier⟩
  rw [h.times] at hregistered
  rw [h.times, h.times] at hearlier
  cases hB : firstRegistration w.history workB with
  | none =>
      rw [hB] at hregistered
      exact absurd rfl hregistered
  | some t =>
      refine ⟨t, hB, ?_⟩
      intro t' ht'
      rw [hB, ht'] at hearlier
      rcases hearlier with hzero | hlt
      · -- A registered work has a positive time.
        have hpos := h.positive workA t' ht'
        have hzero' : t' = 0 := hzero
        omega
      · exact hlt

/-! ## Every run -/

section Step

variable {w : World}

theorem fair_append_of_trivial {history entries : List Entry} (h : Fair history)
    (hentries : ∀ e ∈ entries, ∀ past, EntryFair past e) : Fair (history ++ entries) := by
  induction entries using List.reverseRecOn with
  | nil => rwa [List.append_nil]
  | append_singleton entries e ih =>
      rw [← List.append_assoc, fair_append_singleton]
      exact ⟨ih fun x hx => hentries x (by simp [hx]), hentries e (by simp) _⟩

/-- The finalization of a dispute that the history has opened. -/
theorem fair_finalize (hrec : Recorded w) (hfair : Fair w.history) (disputeId : Nat) :
    EntryFair w.history (.disputeFinalized disputeId
      (CWEJury.tally w.registry (w.jury.disputes disputeId))
      (w.jury.disputes disputeId).votesA (w.jury.disputes disputeId).votesB) := by
  intro hvotes epochId workA contentId hmem
  rcases hrec.disputes _ _ _ _ _ hmem with ⟨-, hA, hB⟩
  have hne := hfair.opened hmem
  -- Equal votes leave the decision to the arbiter.
  have htally : CWEJury.tally w.registry (w.jury.disputes disputeId) =
      EarliestRegistrationArbiter.resolve w.registry (w.jury.disputes disputeId).workA
        (w.jury.disputes disputeId).workB := by
    rw [CWEJury.tally, if_neg (by omega), if_neg (by omega)]
  refine registeredEarlier_of_resolve hrec hne ?_
  rw [hA] at htally
  rw [← hB, ← htally]
  exact hB.symm

theorem recorded_records {c : RecordCall} {records : Records} (hrec : Recorded w)
    (hfair : Fair w.history) (h : RecordEffect w.timestamp w.toRecords c records) :
    Recorded { w with
        toRecords := records
        history := w.history ++ World.recordEntries w.timestamp c } ∧
      Fair (w.history ++ World.recordEntries w.timestamp c) := by
  have hjury := SameDisputes.refl w.jury
  have hentries : ∀ c : RecordCall, (∀ r, c ≠ .registerWork r) →
      World.recordEntries w.timestamp c = [] := by
    intro c hc
    cases c with
    | registerWork r => exact absurd rfl (hc r)
    | _ => rfl
  cases h with
  | identity c hc identity =>
      rw [hentries c hc, List.append_nil]
      exact ⟨hrec.keep (Nat.le_refl _) (.refl _) hjury (List.append_nil _).symm (by simp), hfair⟩
  | owner c hc owner =>
      rw [hentries c hc, List.append_nil]
      refine ⟨hrec.keep (Nat.le_refl _) ?_ hjury (List.append_nil _).symm (by simp), hfair⟩
      exact fun _ => ⟨rfl, rfl, rfl⟩
  | register r work hwork =>
      exact ⟨hrec.register hwork, fair_append_singleton.2 ⟨hfair, trivial⟩⟩
  | bandwidth x rate =>
      rw [hentries _ (by simp), List.append_nil]
      refine ⟨hrec.keep (Nat.le_refl _) ?_ hjury (List.append_nil _).symm (by simp), hfair⟩
      intro workId
      by_cases hid : workId = x
      · subst hid
        simp [CWERegistry.isRegistered, CWERegistry.registeredAtOf, CWERegistry.contentIdOf]
      · simp [CWERegistry.isRegistered, CWERegistry.registeredAtOf, CWERegistry.contentIdOf, hid]

theorem recorded_effect {ps : List Payment} {k : Input} {out : World × Option Payment}
    (hw : Recorded w ∧ Fair w.history) (h : Effect w ps k out) :
    Recorded out.1 ∧ Fair out.1.history := by
  rcases hw with ⟨hrec, hfair⟩
  have hsame := SameRegistrations.refl w.registry
  have hjury := SameDisputes.refl w.jury
  cases h with
  | elapse seconds hrest =>
      exact ⟨hrec.keep (Nat.le_add_right _ _) hsame hjury (List.append_nil _).symm (by simp), hfair⟩
  | receive value =>
      exact ⟨hrec.keep (Nat.le_refl _) hsame hjury (List.append_nil _).symm (by simp), hfair⟩
  | records sender c records heffect =>
      exact recorded_records hrec hfair heffect
  | jurySettings _ owner escrow =>
      refine ⟨hrec.keep (Nat.le_refl _) hsame ?_ (List.append_nil _).symm (by simp), hfair⟩
      exact ⟨Nat.le_refl _, fun _ _ => ⟨rfl, rfl⟩⟩
  | openDispute sender workA workB out hopen =>
      exact ⟨hrec.keep (Nat.le_refl _) hsame (.open hopen) (List.append_nil _).symm (by simp),
        hfair⟩
  | vote juror disputeId forWork d' hvote hopen =>
      rcases CWEJury.castVote_cases hvote with ⟨hA, hB, -⟩
      exact ⟨hrec.keep (Nat.le_refl _) hsame (.update hA hB) (List.append_nil _).symm (by simp),
        hfair⟩
  | finalize sender disputeId hopened hopen =>
      refine ⟨hrec.keep (Nat.le_refl _) hsame (.update rfl rfl) rfl ?_,
        fair_append_singleton.2 ⟨hfair, fair_finalize hrec hfair disputeId⟩⟩
      simp [Entry.Plain, Entry.registration]
  | commit sender e x amount hrest hregistered hfresh hfit hfunds =>
      refine ⟨hrec.keep (Nat.le_refl _) hsame hjury rfl ?_,
        fair_append_singleton.2 ⟨hfair, trivial⟩⟩
      simp [Entry.Plain, Entry.registration]
  | challenge sender e escrowedWork challengerWork self out hne hcommitted hreleased hcontent
      hopen =>
      refine ⟨hrec.challenge hopen, fair_append_singleton.2 ⟨hfair, hne, ?_⟩⟩
      rw [← hrec.contents]
      exact hcontent
  | reassign sender e escrowedWork hreleased hwins =>
      refine ⟨hrec.keep (Nat.le_refl _) hsame hjury rfl ?_,
        fair_append_singleton.2 ⟨hfair, trivial⟩⟩
      simp [Entry.Plain, Entry.registration]
  | keep sender e escrowedWork hreleased =>
      refine ⟨hrec.keep (Nat.le_refl _) hsame hjury rfl ?_,
        fair_append_singleton.2 ⟨hfair, trivial⟩⟩
      simp [Entry.Plain, Entry.registration]
  | release sender e x s hstatus hmature hpayees hamount hsend =>
      refine ⟨hrec.keep (Nat.le_refl _) hsame hjury rfl ?_, fair_append_of_trivial hfair ?_⟩
      · simp [Entry.Plain, Entry.registration]
      · simp [EntryFair]

theorem recorded_resume {p : Payment} {out : World × Option Payment}
    (hw : Recorded w ∧ Fair w.history) (h : w.resume p = .ok out) :
    Recorded out.1 ∧ Fair out.1.history := by
  rcases hw with ⟨hrec, hfair⟩
  have hsame := SameRegistrations.refl w.registry
  have hjury := SameDisputes.refl w.jury
  rcases resume_cases h with ⟨-, rfl⟩ | ⟨q, s, -, -, rfl⟩
  · exact ⟨hrec.keep (Nat.le_refl _) hsame hjury (List.append_nil _).symm (by simp), hfair⟩
  · refine ⟨hrec.keep (Nat.le_refl _) hsame hjury rfl ?_,
      fair_append_singleton.2 ⟨hfair, trivial⟩⟩
    simp [Entry.Plain, Entry.registration]

end Step

theorem recorded_init (d : Deployment) : Recorded (World.init d) := by
  refine ⟨d.timestamp_pos, ?_, fun _ => rfl, fun _ => rfl, fun _ => rfl, ?_⟩
  · intro workId t ht
    cases ht
  · intro epochId workA workB disputeId contentId hmem
    cases hmem

theorem recorded_run (d : Deployment) (acts : List (Action Input)) :
    Recorded ((escrowSystem d).run (World.init d) acts).world ∧
      Fair ((escrowSystem d).run (World.init d) acts).world.history := by
  refine Machine.run_inv (P := fun c => Recorded c.world ∧ Fair c.world.history)
    ⟨recorded_init d, ?_⟩ ?_ ?_ acts
  · intro past e future hsplit
    exact absurd hsplit.symm (List.append_ne_nil_of_right_ne_nil _ (List.cons_ne_nil _ _))
  · intro c k out hc hallowed hout
    rw [Config.world_enter]
    exact recorded_effect hc (effect_of_call hallowed hout)
  · intro c f fs out hc _ hout
    rw [Config.world_enter]
    exact recorded_resume hc hout

/-- The challenger had been registered under the content id strictly before the incumbent's first
registration. -/
def RegisteredUnder (past : List Entry) (challenger incumbent contentId : Bytes32) : Prop :=
  ∃ t, .workRegistered challenger contentId t ∈ past ∧
    ∀ t', firstRegistration past incumbent = some t' → t < t'

/-- In every run, a challenger that wins without a majority was first registered strictly before
the incumbent, and at the challenge the registry had it under the slot's content id; if it has
never been registered under another one, it had been registered under that one so early. -/
theorem fallback_priority (d : Deployment) (acts : List (Action Input)) :
    ∀ past future epochId workA workB disputeId contentId votes,
      ((escrowSystem d).run (World.init d) acts).world.history =
          past ++ .disputeFinalized disputeId workB votes votes :: future →
        .disputeOpened epochId workA workB disputeId contentId ∈ past →
          RegisteredEarlier past workB workA ∧
            (∀ before after,
              past = before ++ .disputeOpened epochId workA workB disputeId contentId :: after →
                lastContent before workB = contentId) ∧
            ((∀ c t, .workRegistered workB c t ∈ past → c = contentId) →
              RegisteredUnder past workB workA contentId) := by
  intro past future epochId workA workB disputeId contentId votes hsplit hopened
  have hfair := (recorded_run d acts).2
  have hearlier : RegisteredEarlier past workB workA :=
    hfair past _ future hsplit rfl epochId workA contentId hopened
  refine ⟨hearlier, ?_, ?_⟩
  · intro before after hpast
    have hentry := hfair before (.disputeOpened epochId workA workB disputeId contentId)
      (after ++ .disputeFinalized disputeId workB votes votes :: future) (by simp [hsplit, hpast])
    exact hentry.2
  · intro hsingle
    rcases hearlier with ⟨t, hfirst, hbefore⟩
    rcases exists_registered_of_first hfirst with ⟨c, hmem⟩
    exact ⟨t, hsingle c t hmem ▸ hmem, hbefore⟩

end Contracts
end CleanWeb
