import CleanWeb.Player.Agent

/-!
# What the commands of the agent do

One lemma for each command: `play` records a play or leaves the state as it is; `settle` drains the
state or leaves it as it is, and whatever event it has logged is for openings that report the plays
of the state and that its disclosure has.
-/

namespace CleanWeb
namespace Player

open Lib Lib.Exec Hub Wallet Zk Contracts
open Settle (Disclosure toAsciiLowercase)

/-! ## Files -/

/-- The state file accounts for the plays. -/
def StateHolds (f : File PlayerState) (plays : List Play) : Prop :=
  match f with
  | .absent => plays = []
  | .damaged => False
  | .holds st => Holds ⟨st.session, st.escrowWorks⟩ plays

theorem load_holds {files : StateFiles} {plays : List Play} (h : StateHolds files.state plays)
    {readable : Bool} {nowSecs : Nat} {s : Session}
    (hload : Session.load files readable nowSecs = .ok s) : Holds s plays := by
  unfold Session.load at hload
  cases hstate : files.state with
  | absent =>
      rw [hstate] at hload h
      cases hload
      rw [show plays = [] from h]
      exact holds_fresh nowSecs
  | damaged =>
      rw [hstate] at h
      exact h.elim
  | holds st =>
      rw [hstate] at hload h
      dsimp only at hload
      split at hload
      · cases hload
        exact h
      · cases hload

/-- A save replaces the state, or fails and leaves it. -/
theorem save_cases (s : Session) (files : StateFiles) (o : SaveOutcome) :
    ((s.save files o).1 = .ok () ∧
      (s.save files o).2.state = .holds ⟨s.store, s.escrowWorks⟩) ∨
    ((s.save files o).1 = fail .io ∧ (s.save files o).2.state = files.state) := by
  unfold Session.save
  cases o.write with
  | written =>
      cases o.renamed with
      | true => exact Or.inl ⟨rfl, rfl⟩
      | false => exact Or.inr ⟨rfl, rfl⟩
  | refused => exact Or.inr ⟨rfl, rfl⟩
  | torn => exact Or.inr ⟨rfl, rfl⟩

section

variable {Sample : Type} {tools : Tools Sample} {cfg : PlayerConfig}

/-! ## `play` -/

/-- A play is recorded, or the state is as it was; nothing else of the world changes. -/
structure PlayEffect (w : World) (plays : List Play) (out : Exec CommandError PlayOutcome × World) :
    Prop where
  state : (∃ p, out.1 = .ok (.accrued p) ∧ StateHolds out.2.files.state (plays ++ [p])) ∨
    (∀ p, out.1 ≠ .ok (.accrued p)) ∧ StateHolds out.2.files.state plays
  disclosure : out.2.disclosure = w.disclosure
  chain : out.2.chain = w.chain
  now : out.2.now = w.now

theorem record_effect {w : World} {plays : List Play} (h : StateHolds w.files.state plays)
    (p : Play) (readable : Bool) (o : SaveOutcome) :
    PlayEffect w plays (record tools w p readable o) := by
  unfold record
  cases hload : Session.load w.files readable w.now with
  | error t =>
      refine ⟨Or.inr ⟨?_, h⟩, rfl, rfl, rfl⟩
      intro q
      cases t <;> simp [mapErr]
  | ok session =>
      refine ⟨?_, rfl, rfl, rfl⟩
      have hsession := (load_holds h hload).accrue tools.hex p
      dsimp only
      rcases save_cases (session.accrue tools.hex p.workId p.secs p.fingerprint) w.files o with
        ⟨hok, hstate⟩ | ⟨hfail, hstate⟩
      · refine Or.inl ⟨p, ?_, ?_⟩
        · rw [hok]
          rfl
        · rw [hstate]
          exact hsession
      · refine Or.inr ⟨?_, ?_⟩
        · intro q
          rw [hfail]
          simp [fail, mapErr, Except.map]
        · rw [hstate]
          exact h

theorem cmdPlay_effect (tools : Tools Sample) (cfg : PlayerConfig) {w : World} {plays : List Play}
    (h : StateHolds w.files.state plays) (e : PlayEnv Sample) :
    PlayEffect w plays (cmdPlay tools cfg w e) := by
  unfold cmdPlay
  cases hchoice : choose tools cfg e with
  | error t =>
      exact ⟨Or.inr ⟨by simp, h⟩, rfl, rfl, rfl⟩
  | ok d =>
      cases d with
      | accrue p =>
          exact record_effect h p e.readable e.save
      | skip o =>
          -- Only `record` reports a play as accrued.
          have hskip : ∀ p, o ≠ .accrued p := by
            rintro p rfl
            unfold choose at hchoice
            rcases bind_eq_ok.1 hchoice with ⟨audio, -, hrest⟩
            split at hrest
            · cases hrest
            · split at hrest
              · rcases bind_eq_ok.1 hrest with ⟨workId, -, hpure⟩
                cases hpure
              · cases hrest
          refine ⟨Or.inr ⟨?_, h⟩, rfl, rfl, rfl⟩
          intro p heq
          exact hskip p (by simpa using heq)

/-! ## What `settle` has in hand -/

/-- The openings report the plays: one for each work with a minute or more, with the full minutes
and the number of plays. -/
structure Discloses (plays : List Play) (openings : List Opening) : Prop where
  distinct : (openings.map Opening.workId).Nodup
  exact : ∀ o ∈ openings, 60 ≤ secondsOf plays o.workId ∧
    o.minutes = secondsOf plays o.workId / 60 ∧ o.plays = playsOf plays o.workId
  complete : ∀ w, 60 ≤ secondsOf plays w → ∃ o ∈ openings, o.workId = w

/-- The signer of the configured key. -/
def SignsAs (tools : Tools Sample) (cfg : PlayerConfig) (user : Address) : Prop :=
  ∃ key, cfg.privateKey = some key ∧ tools.signerFromStr key = some user

structure Correct (tools : Tools Sample) (cfg : PlayerConfig) (plays : List Play) (p : Prepared) :
    Prop where
  openings : Discloses plays p.openings
  nonempty : p.openings ≠ []
  escrow : ∀ w, w ∈ p.escrowWorks ↔ HeardUnsigned plays w
  drained : Holds p.session []
  user : ∃ user, SignsAs tools cfg user ∧ p.userAddr = Address.display tools.hex user

theorem map_workId_buildOpenings (usage : List UsageEntry) (salts : Nat → Bytes32) :
    (buildOpenings usage salts).map Opening.workId = usage.map UsageEntry.workId := by
  refine List.ext_getElem (by simp [buildOpenings]) ?_
  intro i _ _
  simp [buildOpenings]

theorem mem_buildOpenings {usage : List UsageEntry} {salts : Nat → Bytes32} {o : Opening}
    (h : o ∈ buildOpenings usage salts) :
    ∃ e ∈ usage, e.workId = o.workId ∧ e.minutes = o.minutes ∧ e.plays = o.plays := by
  rcases List.mem_mapIdx.1 h with ⟨i, hi, rfl⟩
  exact ⟨usage[i], List.getElem_mem hi, rfl, rfl, rfl⟩

theorem discloses_buildOpenings {s : Session} {plays : List Play} (h : Holds s plays)
    (salts : Nat → Bytes32) : Discloses plays (buildOpenings s.flushUsage.1 salts) := by
  refine ⟨?_, ?_, ?_⟩
  · rw [map_workId_buildOpenings]
    exact SessionStore.nodup_flush s.store
  · intro o ho
    rcases mem_buildOpenings ho with ⟨e, he, hwork, hminutes, hplays⟩
    rcases h.mem_flushUsage.1 he with ⟨hlong, hexact, hcount⟩
    rw [← hwork, ← hminutes, ← hplays]
    exact ⟨hlong, hexact, hcount⟩
  · intro w hlong
    have hentry : (⟨w, secondsOf plays w / 60, playsOf plays w⟩ : UsageEntry) ∈ s.flushUsage.1 :=
      h.mem_flushUsage.2 ⟨hlong, rfl, rfl⟩
    have hwork : w ∈ (buildOpenings s.flushUsage.1 salts).map Opening.workId := by
      rw [map_workId_buildOpenings]
      exact List.mem_map_of_mem hentry
    rcases List.mem_map.1 hwork with ⟨o, ho, heq⟩
    exact ⟨o, ho, heq⟩

theorem requireChain_eq_ok {keys : String × String × String} (h : cfg.requireChain = .ok keys) :
    cfg.privateKey = some keys.1 := by
  rcases bind_eq_ok.1 h with ⟨privateKey, hkey, h⟩
  rcases bind_eq_ok.1 h with ⟨consumption, -, h⟩
  rcases bind_eq_ok.1 h with ⟨tierId, -, h⟩
  cases h
  exact okOr_eq_ok.1 hkey

theorem prepare_correct {w : World} {plays : List Play} (h : StateHolds w.files.state plays)
    {readable : Bool} {salts : Nat → Bytes32} {p : Prepared}
    (hp : prepare tools cfg w readable salts = .ok p) : Correct tools cfg plays p := by
  rcases bind_eq_ok.1 hp with ⟨s, hload, hp⟩
  have hs := load_holds h (mapErr_eq_ok.1 hload)
  dsimp only at hp
  split at hp
  · cases hp
  rename_i hnonempty
  rcases bind_eq_ok.1 hp with ⟨keys, hkeys, hp⟩
  rcases bind_eq_ok.1 hp with ⟨userAddr, haddr, hp⟩
  cases hp
  rcases bind_eq_ok.1 (mapErr_eq_ok.1 haddr) with ⟨user, huser, hdisplay⟩
  cases hdisplay
  refine ⟨discloses_buildOpenings hs salts, ?_, ?_, hs.drained, user, ⟨keys.1, ?_, ?_⟩, rfl⟩
  · intro hnil
    have hlength := congrArg List.length hnil
    rw [buildOpenings, List.length_mapIdx, List.length_nil, List.length_eq_zero_iff] at hlength
    rw [hlength] at hnonempty
    exact hnonempty rfl
  · intro w'
    rw [← hs.escrow]
    exact Std.ExtTreeSet.mem_toList
  · exact requireChain_eq_ok (mapErr_eq_ok.1 hkeys)
  · exact okOr_eq_ok.1 huser

/-! ## Submissions -/

/-- The event of a submission of the openings. -/
structure EventOf (tools : Tools Sample) (user : Address) (openings : List Opening)
    (event : ConsumptionSubmitted) : Prop where
  user : event.user = user
  pseudonyms : event.pseudonyms = openings.map (Opening.commit tools.poseidonHash)
  workIds : event.workIds = openings.map (Opening.commit tools.poseidonHash)
  weights : event.weights = openings.map fun _ => 1

theorem eventOf_callOf {st st' : CWEConsumption} {user : Address} {tier : Bytes32}
    {openings : List Opening} {t : Nat} {event : ConsumptionSubmitted}
    (h : CWEConsumption.submitConsumption st (callOf tools user tier openings t) =
      .ok (st', event)) : EventOf tools user openings event := by
  unfold CWEConsumption.submitConsumption at h
  dsimp only at h
  iterate 4
    split at h
    · cases h
  cases h
  exact ⟨rfl, rfl, rfl, List.map_map⟩

/-- The log keeps what it has. -/
theorem prefix_next (chain : CWEConsumption × List ConsumptionSubmitted) (c : Submission) :
    chain.2 <+: (CWEConsumption.next chain c).2 := by
  unfold CWEConsumption.next
  split
  · exact List.prefix_append _ _
  · exact List.prefix_rfl

theorem elsewhere_inv {chain : CWEConsumption × List ConsumptionSubmitted}
    (h : CWEConsumption.LogInv chain) (now : Nat) (others : List (Nat × Submission)) :
    CWEConsumption.LogInv (elsewhere chain now others).1 := by
  induction others generalizing chain now with
  | nil => exact h
  | cons other others ih => exact ih (CWEConsumption.next_inv h _) _

theorem prefix_elsewhere (chain : CWEConsumption × List ConsumptionSubmitted) (now : Nat)
    (others : List (Nat × Submission)) : chain.2 <+: (elsewhere chain now others).1.2 := by
  induction others generalizing chain now with
  | nil => exact List.prefix_rfl
  | cons other others ih => exact (prefix_next chain _).trans (ih _ _)

/-- A transaction that does not revert is a call that the contract has taken. -/
theorem mine_cases (chain : CWEConsumption × List ConsumptionSubmitted) (c : Submission)
    (gas : Bool) :
    mine chain c gas = (chain, none) ∨ ∃ st event,
      CWEConsumption.submitConsumption chain.1 c = .ok (st, event) ∧
        mine chain c gas = (CWEConsumption.next chain c, some event) ∧
          (CWEConsumption.next chain c).2 = chain.2 ++ [event] := by
  unfold mine CWEConsumption.next
  cases gas with
  | false => exact Or.inl rfl
  | true =>
      cases hcall : CWEConsumption.submitConsumption chain.1 c with
      | error t => exact Or.inl rfl
      | ok out =>
          rcases out with ⟨st, event⟩
          exact Or.inr ⟨st, event, rfl, rfl, rfl⟩

/-- The log stays well formed and grows, by the event of the openings last if one was logged. -/
structure Submits (tools : Tools Sample) (user : Address) (openings : List Opening)
    (chain : CWEConsumption × List ConsumptionSubmitted) (s : Submitted) : Prop where
  log : CWEConsumption.LogInv chain → CWEConsumption.LogInv s.chain
  grows : (chain.2 ++ s.logged.toList).Sublist s.chain.2
  event : ∀ event, s.logged = some event → EventOf tools user openings event

theorem Submits.unlogged {user : Address} {openings : List Opening}
    {chain chain' : CWEConsumption × List ConsumptionSubmitted} {now : Nat}
    {answer : Exec SettleError Unit}
    (hlog : CWEConsumption.LogInv chain → CWEConsumption.LogInv chain')
    (hgrows : chain.2 <+: chain'.2) :
    Submits tools user openings chain ⟨answer, none, chain', now⟩ where
  log := hlog
  grows := by simpa using hgrows.sublist
  event := by simp

theorem target_signs {user : Address} {tier : Bytes32} (h : target tools cfg = .ok (user, tier)) :
    SignsAs tools cfg user := by
  rcases bind_eq_ok.1 h with ⟨keys, hkeys, h⟩
  rcases bind_eq_ok.1 h with ⟨signer, hsigner, h⟩
  split at h
  · rcases bind_eq_ok.1 h with ⟨_, -, h⟩
    rcases bind_eq_ok.1 h with ⟨_, -, h⟩
    cases h
    exact ⟨keys.1, requireChain_eq_ok (mapErr_eq_ok.1 hkeys), okOr_eq_ok.1 hsigner⟩
  · cases h

theorem SignsAs.unique {user user' : Address} (h : SignsAs tools cfg user)
    (h' : SignsAs tools cfg user') : user = user' := by
  rcases h with ⟨key, hkey, hsigner⟩
  rcases h' with ⟨key', hkey', hsigner'⟩
  rw [hkey] at hkey'
  cases hkey'
  exact Option.some.inj (hsigner.symm.trans hsigner')

theorem submitConsumption_submits {user : Address} (huser : SignsAs tools cfg user)
    (openings : List Opening) (chain : CWEConsumption × List ConsumptionSubmitted) (now : Nat)
    (net : Network) :
    Submits tools user openings chain (submitConsumption tools cfg openings chain now net) := by
  unfold submitConsumption
  cases htarget : target tools cfg with
  | error t =>
      exact .unlogged id List.prefix_rfl
  | ok aim =>
      rcases aim with ⟨signer, tier⟩
      have hsigner := (target_signs htarget).unique huser
      subst hsigner
      dsimp only
      split
      · have hlater := prefix_elsewhere chain now net.meanwhile
        split
        · rcases mine_cases (elsewhere chain now net.meanwhile).1
            (callOf tools signer tier openings ((elsewhere chain now net.meanwhile).2 + net.delay))
            net.gas with hmine | ⟨st, event, hcall, hmine, hlog⟩
          · rw [hmine]
            exact .unlogged (fun h => elsewhere_inv h now net.meanwhile) hlater
          · rw [hmine]
            refine ⟨fun h => CWEConsumption.next_inv (elsewhere_inv h now net.meanwhile) _, ?_, ?_⟩
            · dsimp only
              rw [hlog]
              exact hlater.sublist.append (List.Sublist.refl _)
            · rintro _ ⟨⟩
              exact eventOf_callOf hcall
        · exact .unlogged (fun h => elsewhere_inv h now net.meanwhile) hlater
      · exact .unlogged id List.prefix_rfl

/-! ## `settle` -/

/-- What a settlement does: the state is drained exactly if the command succeeds, and an event is
logged only for openings that report the plays of the state and that the disclosure has. -/
structure SettleEffect (tools : Tools Sample) (cfg : PlayerConfig) (w : World) (plays : List Play)
    (out : SettleOutcome) : Prop where
  state : out.answer = .ok () ∧ StateHolds out.world.files.state [] ∨
    (∃ t, out.answer = .error t) ∧ out.world.files.state = w.files.state
  log : CWEConsumption.LogInv w.chain → CWEConsumption.LogInv out.world.chain
  grows : (w.chain.2 ++ out.logged.toList).Sublist out.world.chain.2
  reported : ∀ event, out.logged = some event → ∃ p user, Correct tools cfg plays p ∧
    SignsAs tools cfg user ∧ EventOf tools user p.openings event ∧
      out.world.disclosure = .holds (disclosureOf p)
  played : out.answer = .ok () → plays ≠ []

theorem mapErr_error {ε ε' α : Type} (g : ε → ε') (t : Trap ε) :
    ∃ t' : Trap ε', mapErr g (.error t : Exec ε α) = .error t' := by
  cases t with
  | err e => exact ⟨.err (g e), rfl⟩
  | panic => exact ⟨.panic, rfl⟩

/-- A settlement that stops before it submits. -/
theorem SettleEffect.stopped {w : World} {plays : List Play} {answer : Exec CommandError Unit}
    {d : File Disclosure} (h : ∃ t, answer = .error t) :
    SettleEffect tools cfg w plays ⟨answer, none, { w with disclosure := d }⟩ where
  state := Or.inr ⟨h, rfl⟩
  log := id
  grows := by simp
  reported := by simp
  played := by
    rcases h with ⟨t, rfl⟩
    simp

/-- An opening stands for a minute of something. -/
theorem Correct.played {plays : List Play} {p : Prepared} (h : Correct tools cfg plays p) :
    plays ≠ [] := by
  rintro rfl
  rcases List.exists_mem_of_ne_nil _ h.nonempty with ⟨o, ho⟩
  have hlong := (h.openings.exact o ho).1
  simp [secondsOf, playedOf, Played.secondsOf] at hlong

theorem finish_effect {w : World} {plays : List Play} {p : Prepared}
    (hp : Correct tools cfg plays p) (e : SettleEnv) :
    SettleEffect tools cfg w plays (finish tools cfg w p e) := by
  rcases hp.user with ⟨user, huser, -⟩
  unfold finish
  dsimp only
  split
  · rename_i hwritten
    rw [hwritten]
    have hsubmits := submitConsumption_submits huser p.openings w.chain w.now e.network
    generalize submitConsumption tools cfg p.openings w.chain w.now e.network = s at hsubmits
    have hreported : ∀ event, s.logged = some event → ∃ p' user, Correct tools cfg plays p' ∧
        SignsAs tools cfg user ∧ EventOf tools user p'.openings event ∧
          w.disclosure.write (disclosureOf p) .written = .holds (disclosureOf p') :=
      fun event h => ⟨p, user, hp, huser, hsubmits.event event h, rfl⟩
    cases s.answer with
    | error t =>
        rcases mapErr_error (α := Unit) CommandError.settle t with ⟨t', ht'⟩
        dsimp only
        rw [ht']
        exact ⟨Or.inr ⟨⟨t', rfl⟩, rfl⟩, hsubmits.log, hsubmits.grows, hreported, by simp⟩
    | ok _ =>
        refine ⟨?_, hsubmits.log, hsubmits.grows, hreported, fun _ => hp.played⟩
        -- The drained session is saved whether or not an event was logged.
        rcases save_cases p.session w.files e.save with ⟨hok, hstate⟩ | ⟨hfail, hstate⟩
        · refine Or.inl ⟨?_, ?_⟩
          · dsimp only
            rw [hok]
            rfl
          · dsimp only
            rw [hstate]
            exact hp.drained
        · refine Or.inr ⟨?_, hstate⟩
          dsimp only
          rw [hfail]
          exact mapErr_error _ _
  · exact .stopped ⟨_, rfl⟩

theorem cmdSettle_effect (tools : Tools Sample) (cfg : PlayerConfig) {w : World} {plays : List Play}
    (h : StateHolds w.files.state plays) (e : SettleEnv) :
    SettleEffect tools cfg w plays (cmdSettle tools cfg w e) := by
  unfold cmdSettle
  cases hp : prepare tools cfg w e.readable e.salts with
  | error t => exact .stopped ⟨t, rfl⟩
  | ok p => exact finish_effect (prepare_correct h hp) e

end

end Player
end CleanWeb
