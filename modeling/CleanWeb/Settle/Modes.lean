import CleanWeb.Lib.Agree
import CleanWeb.Settle.DecodeHex
import CleanWeb.Settle.Disclosure
import CleanWeb.Settle.ProvenWeights
import CleanWeb.Settle.Submit

/-!
# The two modes of the settlement job

Listeners prove their usage and submit it, and disclose the same usage in a file.  `modes_agree`:
every submission is logged, and the job settles that log from the proven weights as it settles it
from the file.
-/

namespace CleanWeb
namespace Settle

open Lib Lib.Exec Dapr Zk Contracts CWEConsumption Wallet

/-! ## All listeners submit -/

/-- A listener's submission: when the epoch is read, and when the transaction is mined. -/
structure Attempt where
  submitter : Submitter
  readAt : Nat
  minedAt : Nat

/-- The submissions of an epoch, one after the other. -/
def submitAll (x : Externals) (ps : ProofSystem) (checks : Bool) (chain : ChainReads) :
    CWEConsumption → List Attempt → Exec SubmitError (CWEConsumption × List ConsumptionSubmitted)
  | st, [] => pure (st, [])
  | st, a :: rest => do
      let out ← runHonest x ps checks chain st a.submitter a.readAt a.minedAt
      let more ← submitAll x ps checks chain out.1 rest
      pure (more.1, out.2 :: more.2)

/-- The listener can prove its usage, and submits within the epoch. -/
structure Attempt.Honest (a : Attempt) (epoch : Nat) : Prop where
  submitter : a.submitter.Honest
  read : currentEpoch a.readAt = epoch
  mined : currentEpoch a.minedAt = epoch

/-- What is disclosed of an input. -/
def openingOf (input : UsageRowInput) : Opening :=
  ⟨input.workId, input.minutes, input.plays, input.salt⟩

/-- The file has the listener's openings, and they are proven at the registry's price and in the
neutral region. -/
structure Submitter.Discloses (x : Externals) (pricePerMinOf : Bytes32 → Option Nat)
    (disclosure : Disclosure) (s : Submitter) : Prop where
  openings : disclosure.forUser (Address.display x.hex s.address) = some (s.inputs.map openingOf)
  price : ∀ input ∈ s.inputs, pricePerMinOf input.workId = some input.pricePpm
  region : ∀ input ∈ s.inputs, input.regionPpm = 1000000

section

variable {x : Externals} {ps : ProofSystem} {checks : Bool} {chain : ChainReads} {cfg : Config}
variable {kEpoch : Bytes32} {pricePerMinOf : Bytes32 → Option Nat} {disclosure : Disclosure}

theorem submitAll_ok (checks : Bool) {epoch : Nat} (hcomplete : ps.Complete x.poseidonHash)
    (hkey : chain.keyFor epoch = some kEpoch) (hepoch : epoch < 2 ^ 64) {attempts : List Attempt}
    {st : CWEConsumption} (hhonest : ∀ a ∈ attempts, a.Honest epoch)
    (hdistinct : (attempts.map fun a => a.submitter.address).Nodup)
    (hfresh : ∀ a ∈ attempts, st.submitted epoch a.submitter.address = false) :
    ∃ st' log, submitAll x ps checks chain st attempts = .ok (st', log) ∧
      List.Forall₂ (fun a e => EventOf x checks epoch kEpoch a.submitter e) attempts log := by
  induction attempts generalizing st with
  | nil => exact ⟨st, [], rfl, .nil⟩
  | cons a rest ih =>
      rw [List.map_cons, List.nodup_cons] at hdistinct
      have ha := hhonest a List.mem_cons_self
      rcases honest_submission checks hcomplete ha.submitter hkey hepoch ha.read ha.mined
        (hfresh a List.mem_cons_self) with ⟨e, hrun, he⟩
      -- The others are other listeners, so they have still not submitted.
      have hstill : ∀ b ∈ rest, (Function.update st.submitted epoch
          (Function.update (st.submitted epoch) a.submitter.address true)) epoch
            b.submitter.address = false := by
        intro b hb
        have hne : b.submitter.address ≠ a.submitter.address := by
          intro heq
          exact hdistinct.1 (heq ▸ List.mem_map_of_mem hb)
        rw [Function.update_self, Function.update_of_ne hne]
        exact hfresh b (List.mem_cons_of_mem a hb)
      rcases @ih ⟨Function.update st.submitted epoch
          (Function.update (st.submitted epoch) a.submitter.address true)⟩
        (fun b hb => hhonest b (List.mem_cons_of_mem a hb)) hdistinct.2 hstill with
        ⟨st', log, hrest, hlog⟩
      refine ⟨st', e :: log, ?_, .cons he hlog⟩
      rw [submitAll, hrun]
      simp only [ok_bind, hrest]
      rfl

/-! ## One submission in either mode -/

/-- The usage row of a disclosed input. -/
def usageOf (x : Externals) (user : UserId) (input : UsageRowInput) : UsageRow :=
  { user := user
    work := Bytes32.display x.hex input.workId
    minutes := input.minutes
    pricePpm := input.pricePpm
    regionPpm := 1000000
    plays := input.plays }

/-- The two passes have collected the same: one has the weights of the other's usage. -/
structure Same (st : EventPass) (st' : DisclosurePass) : Prop where
  fees : st'.tierFees = st.tierFees
  rows : st'.usage.mapM (rawRowOf 1000000) = .ok st.rows

theorem openingRow_openingOf {user : UserId} {input : UsageRowInput} (hrange : input.InRange)
    (hprice : pricePerMinOf input.workId = some input.pricePpm) :
    openingRow x pricePerMinOf user (openingOf input) = .ok (usageOf x user input) := by
  have hnarrow : input.pricePpm < 2 ^ 64 := hrange.price.trans (by decide)
  unfold openingRow
  simp only [openingOf, hprice, rpc, okOr, ok_bind, tryU64, if_pos hnarrow]
  rfl

/-- The weight that is proven of an input is the one that is computed of its usage row. -/
theorem rawRowOf_usageOf {user : UserId} {input : UsageRowInput} {row : PublicRow}
    (hrange : input.InRange) (hprovable : input.Provable) (hregion : input.regionPpm = 1000000)
    (hrow : RowOf checks input row) :
    rawRowOf 1000000 (usageOf x user input) = .ok (paidRow x user row) := by
  have hin : InRange (usageOf x user input) :=
    ⟨hrange.minutes, ⟨hprovable.1, hprovable.2.1⟩, hrange.price,
      show (1000000 : Nat) < 2 ^ 40 by decide⟩
  have hfits : ProductFits (usageOf x user input) := by
    intro d hd
    have hproduct := hprovable.2.2 d hd
    rw [hregion] at hproduct
    exact hproduct
  rcases (@provenRow_eq_iff checks _ hin).2 hfits with ⟨raw, hproven, hraw⟩
  rcases bind_eq_ok.1 hproven with ⟨weight, hweight, hpure⟩
  have hsame := hrow.2.2
  rw [hregion] at hsame
  have heq : weight = row.weight := Except.ok.inj (hweight.symm.trans hsame)
  rw [hraw]
  rw [← Except.ok.inj hpure, heq, paidRow, hrow.1]
  rfl

theorem mapM_rawRowOf_usageOf {s : Submitter} {e : ConsumptionSubmitted} {epoch : Nat}
    (hhonest : s.Honest) (hdiscloses : s.Discloses x pricePerMinOf disclosure)
    (he : EventOf x checks epoch kEpoch s e) (user : UserId) :
    (s.inputs.map (usageOf x user)).mapM (rawRowOf 1000000) =
      .ok ((publicRows e).map (paidRow x user)) := by
  have hrows := he.rows
  have hinRange := hhonest.inRange
  have hprovable := hhonest.provable
  have hregion := hdiscloses.region
  clear he hhonest hdiscloses
  generalize s.inputs = inputs at hrows hinRange hprovable hregion ⊢
  generalize publicRows e = rows at hrows ⊢
  induction hrows with
  | nil => rfl
  | cons hrow _ ih =>
      rw [List.map_cons, List.mapM_cons, List.map_cons,
        rawRowOf_usageOf (hinRange _ List.mem_cons_self) (hprovable _ List.mem_cons_self)
          (hregion _ List.mem_cons_self) hrow]
      rw [ih (fun i hi => hinRange i (List.mem_cons_of_mem _ hi))
        (fun i hi => hprovable i (List.mem_cons_of_mem _ hi))
        (fun i hi => hregion i (List.mem_cons_of_mem _ hi))]
      rfl

/-- The openings of a listener become the usage rows of its inputs. -/
theorem mapM_openingRow {inputs : List UsageRowInput} (hrange : ∀ input ∈ inputs, input.InRange)
    (hprice : ∀ input ∈ inputs, pricePerMinOf input.workId = some input.pricePpm)
    (user : UserId) :
    (inputs.map openingOf).mapM (openingRow x pricePerMinOf user) =
      .ok (inputs.map (usageOf x user)) := by
  induction inputs with
  | nil => rfl
  | cons input rest ih =>
      rw [List.map_cons, List.mapM_cons,
        openingRow_openingOf (hrange input List.mem_cons_self) (hprice input List.mem_cons_self)]
      rw [ih (fun i hi => hrange i (List.mem_cons_of_mem input hi))
        (fun i hi => hprice i (List.mem_cons_of_mem input hi))]
      rfl

/-- One log entry: both modes record the same fee and the same weights, or both stop. -/
theorem steps_agree {s : Submitter} {e : ConsumptionSubmitted} (hhonest : s.Honest)
    (hdiscloses : s.Discloses x pricePerMinOf disclosure)
    (he : EventOf x checks cfg.epoch kEpoch s e) {st : EventPass} {st' : DisclosurePass}
    (h : Same st st') :
    Agree Same (eventStep x chain cfg kEpoch st e)
      (disclosureStep x chain pricePerMinOf disclosure st' e) := by
  have hdigest := he.accepted.2.2.2
  have hopenings : ((disclosure.forUser (Address.display x.hex e.user)).getD []).mapM
      (openingRow x pricePerMinOf (Address.display x.hex e.user)) =
        .ok (s.inputs.map (usageOf x (Address.display x.hex e.user))) := by
    rw [he.user, hdiscloses.openings, Option.getD_some]
    exact mapM_openingRow hhonest.inRange hdiscloses.price _
  rw [eventStep_of_fits he.wellFormed he.accepted.fits, hdigest, disclosureStep]
  simp only [mapErr, ok_bind, ne_eq, not_true, if_false]
  refine (Agree.self _).bind ?_
  rintro fee _ rfl
  refine (Agree.self _).bind ?_
  rintro paid _ rfl
  rw [hopenings, ok_bind, agree_pure]
  refine ⟨by rw [h.fees], ?_⟩
  rw [List.mapM_append, h.rows, ok_bind, mapM_rawRowOf_usageOf hhonest hdiscloses he]
  rfl

/-! ## The run -/

theorem escrowSet_of_nil (h : disclosure.escrowWorks = []) : escrowSet x disclosure = ∅ := by
  rw [escrowSet, h, List.foldl_nil]

/-- Over a log of submissions that are proven and disclosed, the two modes agree. -/
theorem runs_agree {attempts : List Attempt} {log : List ConsumptionSubmitted}
    (hkey : chain.keyFor cfg.epoch = some kEpoch) (hreceipts : cfg.receipts = none)
    (hescrow : disclosure.escrowWorks = [])
    (hhonest : ∀ a ∈ attempts, a.Honest cfg.epoch)
    (hdiscloses : ∀ a ∈ attempts, a.submitter.Discloses x pricePerMinOf disclosure)
    (hlog : List.Forall₂ (fun a e => EventOf x checks cfg.epoch kEpoch a.submitter e)
      attempts log) :
    Agree Eq (runEvents x chain cfg log)
      (runDisclosure x chain pricePerMinOf cfg.epoch (some disclosure) log) := by
  have hpass : Agree Same (log.foldlM (eventStep x chain cfg kEpoch) ⟨∅, []⟩)
      (log.foldlM (disclosureStep x chain pricePerMinOf disclosure) ⟨∅, []⟩) := by
    refine Agree.foldlM ⟨rfl, rfl⟩ ?_
    intro e he st st' hsame
    rcases exists_left_of_forall₂ hlog he with ⟨a, ha, hevent⟩
    exact steps_agree (hhonest a ha).submitter (hdiscloses a ha) hevent hsame
  rw [runEvents, runDisclosure, hkey]
  refine hpass.mapErr_right.bind ?_
  intro pass pass' hsame
  -- What remains is one settlement, from the weights or from the usage they are the weights of.
  have hsettle := @settle_eq_settleRaw x.hex x.keccak256 ⟨pass'.tierFees, pass'.usage, ∅⟩
    pass.rows hsame.rows cfg.epoch ∅
  rw [payAccepted, hreceipts, escrowSet_of_nil hescrow, hsettle, ← hsame.fees]
  exact (Agree.self _).mapErr_left.mapErr_right

end

/-- Listeners prove and submit their usage of an epoch, and the disclosure file has the same usage:
every submission is logged, and of that log both modes of the job compute the same settlement, or
neither computes one. -/
theorem modes_agree (x : Externals) (ps : ProofSystem) (checks : Bool) (chain : ChainReads)
    (cfg : Config) (pricePerMinOf : Bytes32 → Option Nat) (disclosure : Disclosure)
    (kEpoch : Bytes32) (st : CWEConsumption) (attempts : List Attempt)
    (hcomplete : ps.Complete x.poseidonHash) (hkey : chain.keyFor cfg.epoch = some kEpoch)
    (hepoch : cfg.epoch < 2 ^ 64) (hreceipts : cfg.receipts = none)
    (hescrow : disclosure.escrowWorks = [])
    (hhonest : ∀ a ∈ attempts, a.Honest cfg.epoch)
    (hdistinct : (attempts.map fun a => a.submitter.address).Nodup)
    (hfresh : ∀ a ∈ attempts, st.submitted cfg.epoch a.submitter.address = false)
    (hdiscloses : ∀ a ∈ attempts, a.submitter.Discloses x pricePerMinOf disclosure) :
    ∃ st' log, submitAll x ps checks chain st attempts = .ok (st', log) ∧
      log.map ConsumptionSubmitted.user = attempts.map (fun a => a.submitter.address) ∧
      ∀ s, runEvents x chain cfg log = .ok s ↔
        runDisclosure x chain pricePerMinOf cfg.epoch (some disclosure) log = .ok s := by
  rcases submitAll_ok checks hcomplete hkey hepoch hhonest hdistinct hfresh with
    ⟨st', log, hsubmit, hlog⟩
  refine ⟨st', log, hsubmit, ?_, ?_⟩
  · clear hsubmit hhonest hdistinct hfresh hdiscloses
    induction hlog with
    | nil => rfl
    | cons he _ ih => rw [List.map_cons, List.map_cons, ih, he.user]
  · exact (runs_agree hkey hreceipts hescrow hhonest hdiscloses hlog).ok_iff

/-! ## Two listeners -/

/-- Everything can be proven, and every proof is accepted. -/
def sampleProofs : ProofSystem :=
  ⟨fun _ => some [], some, fun _ _ => true⟩

def sampleExternals : Externals :=
  ⟨Hex.codec, Keccak.ofTable [], List.sum, fun _ _ => none⟩

/-- Half an hour of work 2, at half the price. -/
def cheapInput : UsageRowInput :=
  { workId := 2, minutes := 30, plays := 1, salt := 4, pricePpm := 500000, regionPpm := 1000000 }

def samplePrice (workId : Bytes32) : Option Nat :=
  if workId = 2 then some 500000 else some 1000000

/-- The second listener played both works. -/
def sampleAttempts : List Attempt :=
  [⟨⟨5, 0, [sampleInput 2]⟩, 3 * epochLength, 3 * epochLength + 1⟩,
    ⟨⟨6, 1, [cheapInput, sampleInput 2]⟩, 3 * epochLength, 3 * epochLength + 7⟩]

def sampleDisclosure : Disclosure :=
  { users := ((∅ : BTreeMap String (List Opening)).insert (Address.display Hex.codec 6)
        [openingOf cheapInput, openingOf (sampleInput 2)]).insert (Address.display Hex.codec 5)
          [openingOf (sampleInput 2)]
    escrowWorks := [] }

theorem cheapInput_inRange : cheapInput.InRange :=
  ⟨by decide, by decide, by decide, by decide, by decide +kernel⟩

theorem cheapInput_provable : cheapInput.Provable := by
  refine ⟨by decide, by decide, ?_⟩
  intro d hd
  have hd1 : dPpm cheapInput.plays 1000000 = .ok 1000000 := by decide +kernel
  rw [hd1] at hd
  rw [← Except.ok.inj hd]
  decide

theorem sampleAttempts_honest {a : Attempt} (ha : a ∈ sampleAttempts) : a.Honest 3 := by
  have hfirst : (sampleInput 2).InRange := sampleInput_inRange 2 (by decide)
  rcases List.mem_pair.1 ha with rfl | rfl
  · refine ⟨⟨by simp, show 1 ≤ maxWorks by decide, List.nodup_singleton _, ?_, ?_⟩, by decide,
      by decide⟩
    · simpa using hfirst
    · simpa using sampleInput_provable
  · refine ⟨⟨by simp, show 2 ≤ maxWorks by decide, by decide +kernel, ?_, ?_⟩, by decide,
      by decide⟩
    · simpa using ⟨cheapInput_inRange, hfirst⟩
    · simpa using ⟨cheapInput_provable, sampleInput_provable⟩

theorem sampleAttempts_disclose {a : Attempt} (ha : a ∈ sampleAttempts) :
    a.submitter.Discloses sampleExternals samplePrice sampleDisclosure := by
  have hne : ¬ Address.display Hex.codec 5 = Address.display Hex.codec 6 := fun h =>
    absurd (Address.display_injective Hex.codec h) (by decide)
  rcases List.mem_pair.1 ha with rfl | rfl
  · refine ⟨?_, by simp [sampleInput, samplePrice], by simp [sampleInput]⟩
    change sampleDisclosure.users[toAsciiLowercase (Address.display Hex.codec 5)]? = _
    rw [toAsciiLowercase_display, sampleDisclosure, Std.ExtTreeMap.getElem?_insert_self]
    rfl
  · refine ⟨?_, by simp [sampleInput, cheapInput, samplePrice], by simp [sampleInput, cheapInput]⟩
    change sampleDisclosure.users[toAsciiLowercase (Address.display Hex.codec 6)]? = _
    rw [toAsciiLowercase_display, sampleDisclosure, Std.ExtTreeMap.getElem?_insert,
      if_neg (by simpa using hne), Std.ExtTreeMap.getElem?_insert_self]
    rfl

theorem modes_agree_sample :
    ∃ st' log, submitAll sampleExternals sampleProofs true (flatFees 7) CWEConsumption.init
        sampleAttempts = .ok (st', log) ∧
      log.map ConsumptionSubmitted.user = [5, 6] ∧
      ∀ s, runEvents sampleExternals (flatFees 7) (plainConfig 3) log = .ok s ↔
        runDisclosure sampleExternals (flatFees 7) samplePrice 3 (some sampleDisclosure) log =
          .ok s :=
  modes_agree sampleExternals sampleProofs true (flatFees 7) (plainConfig 3) samplePrice
    sampleDisclosure 7 CWEConsumption.init sampleAttempts
    (fun _ _ => ⟨[], [], rfl, rfl, rfl⟩) rfl (by decide) rfl rfl
    (fun _ ha => sampleAttempts_honest ha) (by decide) (fun _ _ => rfl)
    (fun _ ha => sampleAttempts_disclose ha)

end Settle
end CleanWeb
