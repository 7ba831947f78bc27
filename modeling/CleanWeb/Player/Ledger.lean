import CleanWeb.Lib.Outbox
import CleanWeb.Player.Accounting

/-!
# What becomes of a play

The runs of the agent are those of an outbox: the plays are the items, the settlements whose event
is logged are the batches that are received, those that succeed the batches that are cleared.  A
settlement succeeds on any receipt, so neither implies the other: the plays of one that reverts are
drained unreported, those of one that cannot save are reported again.  `settlement_accounting` is
what holds all the same.
-/

namespace CleanWeb
namespace Player

open Lib Lib.Exec Hub Wallet Zk Contracts
open Settle (Disclosure)

section

variable {Sample : Type} (tools : Tools Sample) (cfg : PlayerConfig)

/-! ## Runs with their history -/

/-- The events that a settlement of the agent adds to the log. -/
def emitted (w : World) : Action Sample → List ConsumptionSubmitted
  | .settle e => (cmdSettle tools cfg w e).logged.toList
  | _ => []

/-- The plays that a command reports as accrued. -/
def accruedBy (w : World) : Action Sample → List Play
  | .play e =>
      match (cmdPlay tools cfg w e).1 with
      | .ok (.accrued p) => [p]
      | _ => []
  | _ => []

/-- A step as the outbox sees it. -/
def noted (w : World) : Action Sample → List (Outbox.Event Play)
  | .settle e =>
      [.handOn (cmdSettle tools cfg w e).logged.isSome (cmdSettle tools cfg w e).answer.toBool]
  | a => (accruedBy tools cfg w a).map .add

/-- A run, with what the outbox sees of it and the agent's own events. -/
structure Trace where
  world : World
  events : List (Outbox.Event Play)
  own : List ConsumptionSubmitted

def follow (t : Trace) (a : Action Sample) : Trace :=
  { world := step tools cfg t.world a
    events := t.events ++ noted tools cfg t.world a
    own := t.own ++ emitted tools cfg t.world a }

def trace (as : List (Action Sample)) : Trace :=
  as.foldl (follow tools cfg) ⟨World.init, [], []⟩

/-- The plays that were reported as accrued over a run. -/
def accrued (as : List (Action Sample)) : List Play :=
  Outbox.items (trace tools cfg as).events

theorem trace_append_singleton (as : List (Action Sample)) (a : Action Sample) :
    trace tools cfg (as ++ [a]) = follow tools cfg (trace tools cfg as) a := by
  simp [trace]

theorem trace_world (as : List (Action Sample)) :
    (trace tools cfg as).world = run tools cfg as := by
  induction as using List.reverseRecOn with
  | nil => rfl
  | append_singleton as a ih =>
      rw [trace_append_singleton, run_append_singleton, ← ih]
      rfl

/-! ## The invariant -/

/-- The event was submitted by the agent, for openings that report the batch. -/
def Reported (batch : List Play) (event : ConsumptionSubmitted) : Prop :=
  ∃ user openings, SignsAs tools cfg user ∧ Discloses batch openings ∧
    EventOf tools user openings event

structure Inv (t : Trace) : Prop where
  state : StateHolds t.world.files.state (Outbox.run t.events).waiting
  own : List.Forall₂ (Reported tools cfg) (Outbox.run t.events).received t.own
  logged : t.own.Sublist t.world.chain.2
  log : CWEConsumption.LogInv t.world.chain

end

section

variable {Sample : Type} {tools : Tools Sample} {cfg : PlayerConfig} {t : Trace}

theorem inv_init : Inv tools cfg ⟨World.init, [], []⟩ where
  state := rfl
  own := .nil
  logged := List.Sublist.refl []
  log := CWEConsumption.log_inv []

theorem inv_wait (h : Inv tools cfg t) (seconds : Nat) :
    Inv tools cfg (follow tools cfg t (.wait seconds)) := by
  have hinv : Inv tools cfg { t with world := { t.world with now := t.world.now + seconds } } :=
    ⟨h.state, h.own, h.logged, h.log⟩
  simpa [follow, step, noted, accruedBy, emitted] using hinv

theorem inv_other (h : Inv tools cfg t) (c : Submission) :
    Inv tools cfg (follow tools cfg t (.other c)) := by
  let call : Submission := { c with timestamp := t.world.now }
  have hinv : Inv tools cfg { t with
      world := { t.world with chain := CWEConsumption.next t.world.chain call } } :=
    ⟨h.state, h.own, h.logged.trans (prefix_next _ _).sublist, CWEConsumption.next_inv h.log call⟩
  simpa [follow, step, noted, accruedBy, emitted, call] using hinv

theorem inv_play (h : Inv tools cfg t) (e : PlayEnv Sample) :
    Inv tools cfg (follow tools cfg t (.play e)) := by
  have heffect := cmdPlay_effect tools cfg h.state e
  have hlogged : t.own.Sublist (cmdPlay tools cfg t.world e).2.chain.2 := by
    rw [heffect.chain]
    exact h.logged
  have hlog : CWEConsumption.LogInv (cmdPlay tools cfg t.world e).2.chain := by
    rw [heffect.chain]
    exact h.log
  rcases heffect.state with ⟨p, hok, hstate⟩ | ⟨hnot, hstate⟩
  · have hnoted : noted tools cfg t.world (.play e) = [.add p] := by
      simp [noted, accruedBy, hok]
    refine ⟨?_, ?_, ?_, hlog⟩
    · simp only [follow, step, hnoted, Outbox.run_append_singleton]
      exact hstate
    · simp only [follow, hnoted, Outbox.run_append_singleton, emitted, List.append_nil]
      exact h.own
    · simpa [follow, step, emitted] using hlogged
  · have hnoted : noted tools cfg t.world (.play e) = [] := by
      simp only [noted, accruedBy, List.map_nil]
    refine ⟨?_, ?_, ?_, hlog⟩
    · simpa [follow, step, hnoted] using hstate
    · simpa [follow, hnoted, emitted] using h.own
    · simpa [follow, step, emitted] using hlogged

/-- A settlement hands the waiting plays on if its event is logged, and clears them if it
succeeds. -/
theorem inv_settle (h : Inv tools cfg t) (e : SettleEnv) :
    Inv tools cfg (follow tools cfg t (.settle e)) := by
  have heffect := cmdSettle_effect tools cfg h.state e
  unfold follow
  simp only [step, noted, emitted]
  generalize cmdSettle tools cfg t.world e = out at heffect
  refine ⟨?_, ?_, ?_, heffect.log h.log⟩
  · rw [Outbox.run_append_singleton]
    -- What waits depends on the answer of the command only, not on the log.
    rcases heffect.state with ⟨hok, hdrained⟩ | ⟨⟨trap, herror⟩, hsame⟩
    · rw [hok]
      exact hdrained
    · rw [herror, hsame]
      exact h.state
  · rw [Outbox.run_append_singleton]
    cases hlogged : out.logged with
    | none => simpa [Outbox.next] using h.own
    | some event =>
        rcases heffect.reported event hlogged with ⟨p, user, hp, huser, hevent, -⟩
        have hreported : Reported tools cfg (Outbox.run t.events).waiting event :=
          ⟨user, p.openings, huser, hp.openings, hevent⟩
        simpa [Outbox.next] using List.rel_append h.own (.cons hreported .nil)
  · exact (h.logged.append (List.Sublist.refl _)).trans heffect.grows

theorem inv_follow (h : Inv tools cfg t) (a : Action Sample) :
    Inv tools cfg (follow tools cfg t a) := by
  cases a with
  | wait seconds => exact inv_wait h seconds
  | other c => exact inv_other h c
  | play e => exact inv_play h e
  | settle e => exact inv_settle h e

theorem inv_trace (tools : Tools Sample) (cfg : PlayerConfig) (as : List (Action Sample)) :
    Inv tools cfg (trace tools cfg as) := by
  induction as using List.reverseRecOn with
  | nil =>
      exact inv_init
  | append_singleton as a ih =>
      rw [trace_append_singleton]
      exact inv_follow ih a

/-! ## Every run -/

/-- The plays that the state file accounts for. -/
def waitingPlays (tools : Tools Sample) (cfg : PlayerConfig) (as : List (Action Sample)) :
    List Play :=
  (Outbox.run (trace tools cfg as).events).waiting

/-- The batches that the agent's events report. -/
def reportedPlays (tools : Tools Sample) (cfg : PlayerConfig) (as : List (Action Sample)) :
    List (List Play) :=
  (Outbox.run (trace tools cfg as).events).received

/-- The batches of the settlements that succeeded, each with whether its event was logged. -/
def settledPlays (tools : Tools Sample) (cfg : PlayerConfig) (as : List (Action Sample)) :
    List (Bool × List Play) :=
  (Outbox.run (trace tools cfg as).events).cleared

/-- `P` holds of every settlement of the run, at the state that it meets. -/
def EverySettlement (tools : Tools Sample) (cfg : PlayerConfig) (P : SettleOutcome → Prop)
    (as : List (Action Sample)) : Prop :=
  ∀ before e, before ++ [.settle e] <+: as → P (cmdSettle tools cfg (run tools cfg before) e)

theorem everySettlement_append_singleton {P : SettleOutcome → Prop} {as : List (Action Sample)}
    {a : Action Sample} : EverySettlement tools cfg P (as ++ [a]) ↔
      EverySettlement tools cfg P as ∧
        ∀ e, a = .settle e → P (cmdSettle tools cfg (run tools cfg as) e) := by
  constructor
  · intro hall
    refine ⟨fun before e hpre => hall before e (hpre.trans (List.prefix_append _ _)), ?_⟩
    rintro e rfl
    exact hall as e List.prefix_rfl
  · rintro ⟨hbefore, hlast⟩ before e hpre
    rcases List.prefix_concat_iff.1 hpre with heq | hpre
    · rcases List.append_inj' heq rfl with ⟨rfl, hsame⟩
      exact hlast e (by simpa using hsame.symm)
    · exact hbefore before e hpre

/-- The settlements that succeed have logged their event, exactly if the settled batches say so. -/
theorem settledPlays_logged_iff (as : List (Action Sample)) :
    (∀ b ∈ settledPlays tools cfg as, b.1 = true) ↔
      EverySettlement tools cfg (fun out => out.answer = .ok () → out.logged.isSome) as := by
  induction as using List.reverseRecOn with
  | nil =>
      refine iff_of_true ?_ ?_
      · intro b hb
        cases hb
      · intro before e hpre
        simp at hpre
  | append_singleton as a ih =>
      rw [everySettlement_append_singleton, ← ih]
      unfold settledPlays
      rw [trace_append_singleton, follow, trace_world]
      cases a with
      | wait seconds => simp [noted, accruedBy]
      | other c => simp [noted, accruedBy]
      | play e =>
          -- A play clears nothing.
          simp only [noted, accruedBy]
          split
          · simp [Outbox.run_append_singleton, Outbox.next]
          · simp
      | settle e =>
          simp only [noted, Outbox.run_append_singleton, Outbox.next, Action.settle.injEq,
            forall_eq']
          cases hanswer : (cmdSettle tools cfg (run tools cfg as) e).answer with
          | error t => simp [Except.toBool]
          | ok _ => simp [Except.toBool, or_imp, forall_and]

/-- A step keeps the plays delivered exactly if it is no settlement that succeeds without its event
or fails with it. -/
theorem delivered_follow_iff {as : List (Action Sample)}
    (h : Outbox.Delivered (trace tools cfg as).events) (a : Action Sample) :
    Outbox.Delivered (trace tools cfg (as ++ [a])).events ↔
      ∀ e, a = .settle e → ((cmdSettle tools cfg (run tools cfg as) e).answer = .ok () ↔
        (cmdSettle tools cfg (run tools cfg as) e).logged.isSome) := by
  rw [trace_append_singleton, follow, trace_world]
  cases a with
  | wait seconds => simpa [noted, accruedBy] using h
  | other c => simpa [noted, accruedBy] using h
  | play e =>
      simp only [noted, accruedBy]
      split
      · simpa [Outbox.Balanced] using (Outbox.delivered_next_iff h (.add _)).2 trivial
      · simpa using h
  | settle e =>
      have hstate := (inv_trace tools cfg as).state
      rw [trace_world] at hstate
      have heffect := cmdSettle_effect tools cfg hstate e
      simp only [noted, Outbox.delivered_next_iff h, Outbox.Balanced, Action.settle.injEq,
        forall_eq']
      generalize cmdSettle tools cfg (run tools cfg as) e = out at heffect
      -- A settlement that succeeds, or logs an event, has plays to hand on.
      cases hlogged : out.logged with
      | none =>
          cases hanswer : out.answer with
          | error t => simp [Except.toBool]
          | ok _ => simpa [Except.toBool] using heffect.played hanswer
      | some event =>
          rcases heffect.reported event hlogged with ⟨p, user, hp, -⟩
          have hplayed := hp.played
          cases hanswer : out.answer with
          | error t => simpa [Except.toBool] using hplayed
          | ok _ => simp [Except.toBool]

theorem delivered_iff (as : List (Action Sample)) :
    (∀ pre, pre <+: as → Outbox.Delivered (trace tools cfg pre).events) ↔
      EverySettlement tools cfg (fun out => out.answer = .ok () ↔ out.logged.isSome) as := by
  induction as using List.reverseRecOn with
  | nil =>
      refine iff_of_true ?_ ?_
      · intro pre hpre
        rw [List.prefix_nil.1 hpre]
        exact Outbox.delivered_nil
      · intro before e hpre
        simp at hpre
  | append_singleton as a ih =>
      rw [everySettlement_append_singleton, ← ih]
      constructor
      · intro hall
        -- Up to the last step first: `delivered_follow_iff` needs it there.
        have hbefore : ∀ pre, pre <+: as → Outbox.Delivered (trace tools cfg pre).events :=
          fun pre hpre => hall pre (hpre.trans (List.prefix_append as [a]))
        exact ⟨hbefore, (delivered_follow_iff (hbefore as List.prefix_rfl) a).1
          (hall _ List.prefix_rfl)⟩
      · rintro ⟨hbefore, hlast⟩ pre hpre
        rcases List.prefix_concat_iff.1 hpre with rfl | hpre
        · exact (delivered_follow_iff (hbefore as List.prefix_rfl) a).2 hlast
        · exact hbefore pre hpre

/-- In every run of the agent, whatever fails in it: the accrued plays are the batches of the
settlements that succeeded and then the plays that the state file accounts for.  Each event of the
agent in the log reports a batch of accrued plays, and the batches of the settlements that succeeded
are among these except where the transaction was mined but reverted.  None is so excepted exactly if
every settlement that succeeded has logged its event; and all along the run the reported batches and
the state file are exactly the accrued plays just if every settlement succeeds exactly when its
event is logged. -/
theorem settlement_accounting (tools : Tools Sample) (cfg : PlayerConfig)
    (as : List (Action Sample)) :
    StateHolds (run tools cfg as).files.state (waitingPlays tools cfg as) ∧
      ((settledPlays tools cfg as).map Prod.snd).flatten ++ waitingPlays tools cfg as =
        accrued tools cfg as ∧
      List.Forall₂ (Reported tools cfg) (reportedPlays tools cfg as) (trace tools cfg as).own ∧
      (trace tools cfg as).own.Sublist (run tools cfg as).chain.2 ∧
      (∀ batch ∈ reportedPlays tools cfg as, batch <:+: accrued tools cfg as) ∧
      (((settledPlays tools cfg as).filter Prod.fst).map Prod.snd).Sublist
        (reportedPlays tools cfg as) ∧
      ((∀ b ∈ settledPlays tools cfg as, b.1 = true) ↔
        EverySettlement tools cfg (fun out => out.answer = .ok () → out.logged.isSome) as) ∧
      ((∀ pre, pre <+: as → (reportedPlays tools cfg pre).flatten ++ waitingPlays tools cfg pre =
          accrued tools cfg pre) ↔
        EverySettlement tools cfg (fun out => out.answer = .ok () ↔ out.logged.isSome) as) := by
  have hinv := inv_trace tools cfg as
  have hstate := hinv.state
  have hlogged := hinv.logged
  rw [trace_world] at hstate hlogged
  exact ⟨hstate, Outbox.accounted _, hinv.own, hlogged, Outbox.received_infix _,
    Outbox.cleared_sublist_received _, settledPlays_logged_iff as, delivered_iff as⟩

end

/-! ## A settlement that reverts -/

def mixedTools : Tools Unit :=
  { analysis := ⟨Keccak.ofTable [], fun _ _ => ⟨fun _ => 0⟩⟩
    hex := Hex.codec
    poseidonHash := List.sum
    signerFromStr := fun _ => some 7
    parsesUrl := fun _ => true
    verdict := true }

def mixedConfig : PlayerConfig :=
  { hubUrl := "http://hub"
    rpcUrl := "http://rpc"
    privateKey := some "key"
    consumption := some (Address.display Hex.codec 5)
    tierId := some (Bytes32.display Hex.codec 1)
    threshold := none }

def mixedPlay (secs : Nat) (answer : Json) : Action Unit :=
  .play
    { audio := some ⟨[], List.replicate secs (), 1⟩
      transport := fun _ => some answer
      readable := true
      save := ⟨.written, true⟩ }

def mixedWork (workId : Bytes32) : Json :=
  .object [("work_id", .string (Bytes32.display Hex.codec workId)), ("price_per_min", .unsigned 10)]

/-- Ten minutes of a signed work, five of one known by its fingerprint, half a minute of a third. -/
def mixedPlays : List (Action Unit) :=
  [mixedPlay 600 (mixedWork 0xaa), mixedPlay 300 (.object [("candidate", mixedWork 0xbb)]),
    mixedPlay 30 (mixedWork 0xcc)]

def mixedSettle : SettleEnv :=
  { readable := true
    salts := fun _ => 9
    disclosureWrite := .written
    network := ⟨true, [], 12, true, true, true⟩
    save := ⟨.written, true⟩ }

/-- Before the transaction, another one of the same signer is mined. -/
def mixedOvertaken : SettleEnv :=
  { mixedSettle with
    network := { mixedSettle.network with
      meanwhile := [(3, callOf mixedTools 7 1 [⟨0xdd, 1, 1, 9⟩] 0)] } }

/-- The settlement succeeds, nothing is logged, and the plays are gone. -/
example :
    (cmdSettle mixedTools mixedConfig (run mixedTools mixedConfig mixedPlays)
        mixedOvertaken).answer =
        .ok () ∧
      (trace mixedTools mixedConfig (mixedPlays ++ [.settle mixedOvertaken])).own = [] ∧
      waitingPlays mixedTools mixedConfig (mixedPlays ++ [.settle mixedOvertaken]) = [] := by
  decide +kernel

end Player
end CleanWeb
