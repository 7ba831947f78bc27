import CleanWeb.Player.Ledger
import CleanWeb.Settle.DecodeHex
import CleanWeb.Settle.Disclosed

/-!
# From the player to the settlement

A settlement of the agent leaves a disclosure that opens its event.  When the aggregator settles the
epoch from that file, it pays for what was played: nothing for a work below a minute, nothing
directly for a work that was heard unsigned, and no more than the tier fee.
-/

namespace CleanWeb
namespace Player

open Lib Lib.Exec Dapr Wallet Zk Contracts Settle

section

variable {Sample : Type} {tools : Tools Sample} {cfg : PlayerConfig}

/-- What `Disclosure::load` reads. -/
def File.read {α : Type} : File α → Option α
  | .holds content => some content
  | _ => none

/-- A settlement whose event is logged has left a disclosure of it. -/
structure Left (tools : Tools Sample) (cfg : PlayerConfig) (w w' : World)
    (event : ConsumptionSubmitted) (plays : List Play) (p : Prepared) (user : Address) : Prop where
  waiting : StateHolds w.files.state plays
  correct : Correct tools cfg plays p
  signs : SignsAs tools cfg user
  opens : EventOf tools user p.openings event
  disclosure : w'.disclosure = .holds (disclosureOf p)
  log : CWEConsumption.LogInv w'.chain
  logged : event ∈ w'.chain.2

theorem left_of_emitted {as : List (Action Sample)} {e : SettleEnv} {event : ConsumptionSubmitted}
    (h : event ∈ emitted tools cfg (run tools cfg as) (.settle e)) :
    ∃ p user, Left tools cfg (run tools cfg as) (run tools cfg (as ++ [.settle e])) event
      (waitingPlays tools cfg as) p user := by
  have hstate := (inv_trace tools cfg as).state
  have hlog := (inv_trace tools cfg (as ++ [.settle e])).log
  rw [trace_world] at hstate hlog
  have heffect := cmdSettle_effect tools cfg hstate e
  rw [run_append_singleton] at hlog ⊢
  have hlogged : (cmdSettle tools cfg (run tools cfg as) e).logged = some event := by
    simpa [emitted] using h
  rcases heffect.reported event hlogged with ⟨p, user, hp, huser, hevent, hdisclosure⟩
  have hgrows := heffect.grows
  rw [hlogged] at hgrows
  exact ⟨p, user, hstate, hp, huser, hevent, hdisclosure, hlog, hgrows.subset (by simp)⟩

/-- Until the agent settles again, its disclosure and its event stay. -/
theorem left_later {w : World} {as rest : List (Action Sample)} {event : ConsumptionSubmitted}
    {plays : List Play} {p : Prepared} {user : Address}
    (h : Left tools cfg w (run tools cfg as) event plays p user)
    (hrest : ∀ a ∈ rest, ∀ e, a ≠ .settle e) :
    Left tools cfg w (run tools cfg (as ++ rest)) event plays p user := by
  induction rest using List.reverseRecOn with
  | nil =>
      rw [List.append_nil]
      exact h
  | append_singleton rest a ih =>
      have hleft := ih fun a' ha' => hrest a' (List.mem_append_left _ ha')
      have hlog := (inv_trace tools cfg (as ++ rest ++ [a])).log
      have hstate := (inv_trace tools cfg (as ++ rest)).state
      rw [trace_world, run_append_singleton] at hlog
      rw [trace_world] at hstate
      rw [← List.append_assoc, run_append_singleton]
      cases a with
      | wait seconds =>
          exact { hleft with log := hlog }
      | other c =>
          exact { hleft with log := hlog, logged := (prefix_next _ _).subset hleft.logged }
      | play e =>
          have heffect := cmdPlay_effect tools cfg hstate e
          refine { hleft with disclosure := ?_, log := hlog, logged := ?_ }
          · exact heffect.disclosure.trans hleft.disclosure
          · change event ∈ (cmdPlay tools cfg _ e).2.chain.2
            rw [heffect.chain]
            exact hleft.logged
      | settle e =>
          exact absurd rfl (hrest (.settle e) (by simp) e)

end

/-! ## The aggregator's side -/

section

variable {Sample : Type} {tools : Tools Sample} {cfg : PlayerConfig} {w w' : World}
variable {event : ConsumptionSubmitted} {plays : List Play} {p : Prepared} {user : Address}

theorem forUser_disclosureOf (p : Prepared) (other : Address)
    (h : p.userAddr = Address.display tools.hex user) :
    (disclosureOf p).forUser (Address.display tools.hex other) =
      if other = user then some p.openings else none := by
  rw [Disclosure.forUser, disclosureOf, h, toAsciiLowercase_display, toAsciiLowercase_display]
  by_cases hother : other = user
  · subst hother
    simp
  · have hne : Address.display tools.hex user ≠ Address.display tools.hex other :=
      fun heq => hother (Address.display_injective tools.hex heq).symm
    simp [hne, hother]

/-- The settlement pays for the plays: for works of a minute or more, to escrow exactly where the
work was heard unsigned, and no more than the fee. -/
structure PaysFor (plays : List Play) (fee : Nat) (s : Settlement) : Prop where
  direct : ∀ c ∈ s.directCredits, 60 ≤ secondsOf plays c.1 ∧ ¬ HeardUnsigned plays c.1
  escrow : ∀ c ∈ s.escrowCredits, 60 ≤ secondsOf plays c.1 ∧ HeardUnsigned plays c.1
  fee : s.totalCredits + s.escrowTotal ≤ fee

/-- Every disclosed row is an opening of the agent's user. -/
theorem Left.disclosedBy (h : Left tools cfg w w' event plays p user) {x : Externals}
    (hhex : x.hex = tools.hex) {logs : List ConsumptionSubmitted} {rowUser : String}
    {work : String} (hrow : DisclosedBy x (disclosureOf p) logs rowUser work) :
    rowUser = Address.display tools.hex user ∧
      ∃ o ∈ p.openings, work = Bytes32.display tools.hex o.workId := by
  rcases h.correct.user with ⟨signer, hsigner, haddr⟩
  have hsame := hsigner.unique h.signs
  subst hsame
  rcases hrow with ⟨logged, -, rfl, openings, hopenings, o, ho, rfl⟩
  rw [hhex, forUser_disclosureOf p logged.user haddr] at hopenings
  split at hopenings
  · rename_i huser
    rw [hhex, huser]
    rw [Option.some.injEq] at hopenings
    rw [← hopenings] at ho
    exact ⟨rfl, o, ho, rfl⟩
  · cases hopenings

/-- A credit of the settlement is for a work of a minute or more. -/
theorem Left.played (h : Left tools cfg w w' event plays p user) {x : Externals}
    (hhex : x.hex = tools.hex) {logs : List ConsumptionSubmitted} {rowUser : String} {b : Bytes32}
    (hrow : DisclosedBy x (disclosureOf p) logs rowUser (Bytes32.display x.hex b)) :
    60 ≤ secondsOf plays b := by
  rcases (h.disclosedBy hhex hrow).2 with ⟨o, ho, hdisplay⟩
  rw [hhex] at hdisplay
  rw [Bytes32.display_injective tools.hex hdisplay]
  exact (h.correct.openings.exact o ho).1

theorem Left.mem_escrowSet_iff (h : Left tools cfg w w' event plays p user) {x : Externals}
    (b : Bytes32) :
    (escrowSet x (disclosureOf p)).contains (Bytes32.display x.hex b) = true ↔
      HeardUnsigned plays b := by
  rw [← h.correct.escrow, Std.ExtTreeSet.contains_iff_mem, mem_escrowSet]
  constructor
  · rintro ⟨w, hw, hdisplay⟩
    rw [← Bytes32.display_injective x.hex hdisplay]
    exact hw
  · intro hb
    exact ⟨b, hb, rfl⟩

/-- The fee of the agent's user in the epoch is that of the one event. -/
theorem Left.feeOf (h : Left tools cfg w w' event plays p user) {x : Externals}
    (hhex : x.hex = tools.hex) {chain : ChainReads} {fee : Nat}
    (hfee : FeeOf x chain (w'.chain.2.filter fun e => e.epoch = event.epoch)
      (Address.display tools.hex user) fee) : chain.feeOf event.tierId = some fee := by
  rcases hfee with ⟨other, hother, hdisplay, hread⟩
  rcases List.mem_filter.1 hother with ⟨hlogged, hepoch⟩
  rw [hhex] at hdisplay
  have huser : event.user = other.user := by
    rw [h.opens.user, Address.display_injective tools.hex hdisplay]
  -- The contract takes one submission of a user in an epoch.
  have hsame : event = other := by
    refine List.inj_on_of_nodup_map h.log.once h.logged hlogged ?_
    have hsame : other.epoch = event.epoch := by
      simpa using hepoch
    simp [huser, hsame]
  rw [hsame]
  exact hread

theorem Left.paysFor (h : Left tools cfg w w' event plays p user) {x : Externals}
    (hhex : x.hex = tools.hex) {chain : ChainReads} {s : Settlement} {fees : BTreeMap UserId Nat}
    {rows : List RawRow} {ppm : List Nat} {payouts : Payouts} {fee : Nat}
    (hfee : chain.feeOf event.tierId = some fee)
    (hmade : MadeFrom x chain (disclosureOf p)
      (w'.chain.2.filter fun logged => logged.epoch = event.epoch) s fees rows ppm payouts) :
    PaysFor plays fee s := by
  have hfinal := hmade.finalized
  refine ⟨?_, ?_, ?_⟩
  · intro c hc
    rw [Settlement.directCredits, hfinal.direct] at hc
    rcases hmade.disclosed hc with ⟨hkeep, rowUser, hrow⟩
    refine ⟨h.played hhex hrow, ?_⟩
    intro hheard
    rw [(h.mem_escrowSet_iff c.1).2 hheard] at hkeep
    cases hkeep
  · intro c hc
    rw [Settlement.escrowCredits, hfinal.escrow] at hc
    rcases hmade.disclosed hc with ⟨hkeep, rowUser, hrow⟩
    exact ⟨h.played hhex hrow, (h.mem_escrowSet_iff c.1).1 hkeep⟩
  · have honly : ∀ r ∈ rows, r.user = Address.display tools.hex user :=
      fun r hr => (h.disclosedBy hhex (hmade.played r hr)).1
    have hsum := hmade.sum_perWork_le honly
    have hparts := sum_directOf_add_sum_escrowedOf (escrowSet x (disclosureOf p))
      payouts.perWork.toList
    have htotal : s.totalCredits =
        ((directOf (escrowSet x (disclosureOf p)) payouts.perWork.toList).map Prod.snd).sum := by
      rw [hfinal.committed.total]
      have hsnd := congrArg (fun l => (l.map Prod.snd).sum) hfinal.direct
      simpa [Function.comp_def, Settle.creditOf] using hsnd
    have hescrowTotal : s.escrowTotal =
        ((escrowedOf (escrowSet x (disclosureOf p)) payouts.perWork.toList).map Prod.snd).sum := by
      rw [hfinal.escrowTotal]
      have hsnd := congrArg (fun l => (l.map Prod.snd).sum) hfinal.escrow
      simpa [Function.comp_def, Settle.creditOf] using hsnd
    -- The only map entry that matters is the fee of the agent's user.
    have hpaid : fees.getD (Address.display tools.hex user) 0 ≤ fee := by
      rw [Std.ExtTreeMap.getD_eq_getD_getElem?]
      cases hget : fees[Address.display tools.hex user]? with
      | none =>
          exact Nat.zero_le _
      | some paid =>
          have hsame := h.feeOf hhex (hmade.paid _ _ hget)
          rw [hfee, Option.some.injEq] at hsame
          exact hsame.ge
    rw [htotal, hescrowTotal, hparts]
    exact hsum.trans hpaid

end

section

variable {Sample : Type} {tools : Tools Sample} {cfg : PlayerConfig}

/-- Once a settlement of the agent is on the chain, the aggregator that settles its epoch from the
disclosure file, at any time before the agent settles again, pays for the plays that were
waiting. -/
theorem settled_plays {before rest : List (Action Sample)} {e : SettleEnv}
    {event : ConsumptionSubmitted}
    (hmined : event ∈ emitted tools cfg (run tools cfg before) (.settle e))
    (hrest : ∀ a ∈ rest, ∀ e', a ≠ .settle e') (keccak256 : Keccak) (poseidonHash : PoseidonHash)
    (recoverSigner : RecoverSigner) (chain : ChainReads) (pricePerMinOf : Bytes32 → Option Nat)
    {s : Settlement}
    (hrun : runDisclosure ⟨tools.hex, keccak256, poseidonHash, recoverSigner⟩ chain pricePerMinOf
      event.epoch (run tools cfg (before ++ [.settle e] ++ rest)).disclosure.read
      ((run tools cfg (before ++ [.settle e] ++ rest)).chain.2.filter
        fun logged => logged.epoch = event.epoch) = .ok s) :
    StateHolds (run tools cfg before).files.state (waitingPlays tools cfg before) ∧
      ∃ fee, chain.feeOf event.tierId = some fee ∧
        PaysFor (waitingPlays tools cfg before) fee s := by
  rcases left_of_emitted hmined with ⟨p, user, hleft⟩
  have hlater := left_later hleft hrest
  rw [hlater.disclosure] at hrun
  refine ⟨hleft.waiting, ?_⟩
  rcases runDisclosure_madeFrom hrun with ⟨fees, rows, ppm, payouts, hmade⟩
  have hlogged : event ∈ (run tools cfg (before ++ [.settle e] ++ rest)).chain.2.filter
      fun logged => logged.epoch = event.epoch :=
    List.mem_filter.2 ⟨hlater.logged, by simp⟩
  rcases hmade.priced event hlogged with ⟨fee, hfee⟩
  exact ⟨fee, hfee, hlater.paysFor rfl hfee hmade⟩

end

/-! ## Three plays -/

/-- The event has two entries: the third work is below a minute. -/
def mixedEvent : ConsumptionSubmitted :=
  { user := 7
    epoch := 0
    tierId := 1
    digest := 0
    pseudonyms := [0xbe, 0xca]
    workIds := [0xbe, 0xca]
    weights := [1, 1] }

def mixedReads : ChainReads :=
  ⟨fun _ => none, fun _ => some 750000, fun _ _ => none, fun _ => none⟩

/-- The settlement of these plays, after the player has waited a little longer. -/
theorem settled_plays_mixed :
    ∃ fee, mixedReads.feeOf 1 = some fee ∧
      PaysFor (waitingPlays mixedTools mixedConfig mixedPlays) fee
        ⟨0, 0xa1e27af617b11ae6997e6909dfc500c4ddc3bce0db7c77eed9971128d2cf469b, 500000, 0,
          [⟨0xaa, 500000, []⟩], [⟨0xbb, 250000⟩], 250000⟩ := by
  have hmined : mixedEvent ∈ emitted mixedTools mixedConfig
      (run mixedTools mixedConfig mixedPlays) (.settle mixedSettle) := by
    have hone : emitted mixedTools mixedConfig (run mixedTools mixedConfig mixedPlays)
        (.settle mixedSettle) = [mixedEvent] := by
      decide +kernel
    rw [hone]
    exact List.mem_singleton.2 rfl
  have hrest : ∀ a ∈ ([.wait 5] : List (Action Unit)), ∀ e, a ≠ .settle e := by
    simp
  have hpays := settled_plays hmined hrest
    (Keccak.ofTable [(leafBuf 0xaa 500000,
      0xa1e27af617b11ae6997e6909dfc500c4ddc3bce0db7c77eed9971128d2cf469b)])
    List.sum (fun _ _ => none) mixedReads (fun _ => some 10)
    (s := ⟨0, 0xa1e27af617b11ae6997e6909dfc500c4ddc3bce0db7c77eed9971128d2cf469b, 500000, 0,
      [⟨0xaa, 500000, []⟩], [⟨0xbb, 250000⟩], 250000⟩) (by decide +kernel)
  exact hpays.2

end Player
end CleanWeb
