import CleanWeb.Settle.Accepted
import CleanWeb.Zk.Completeness

/-!
# Submitting a proof (`libs/zk-circuits/src/prove.rs`, `services/settlement/src/bin/zk_submit.rs`)

From a listener's rows to the event that the contract logs: the bundle of `prove`, the call that
`zk_submit` makes of it, and what the settlement job finds in the log.  Proofs themselves are a
parameter.  `honest_submission` is the one lemma about it all.
-/

namespace CleanWeb
namespace Settle

open Lib Lib.Exec Zk Contracts CWEConsumption

/-! ## The program -/

/-- Groth16 with the keys of the deployment, the encoding of its proofs for the chain, and the
verifier contract. -/
structure ProofSystem where
  create : UsageCircuit → Option (List UInt8)
  proofToEvmCalldata : List UInt8 → Option (List UInt8)
  verify : Bytes32 → List UInt8 → Bool

/-- Completeness: a satisfied circuit has a proof, and the verifier accepts it for the circuit's
public input. -/
def ProofSystem.Complete (ps : ProofSystem) (poseidonHash : PoseidonHash) : Prop :=
  ∀ circuit : UsageCircuit, circuit.Satisfied poseidonHash → ∃ proof calldata,
    ps.create circuit = some proof ∧ ps.proofToEvmCalldata proof = some calldata ∧
      ps.verify circuit.digest calldata = true

structure ProofBundle where
  proof : List UInt8
  digest : Bytes32
  epoch : Nat
  tier : Bytes32
  kEpoch : Bytes32
  rows : List PublicRow

inductive BundleError where
  | prove (e : ProveError)
  | synthesis
  deriving DecidableEq, Repr

inductive SubmitError where
  | rpc
  | intRange
  | prove (e : BundleError)
  | encode
  | reverted (e : ConsumptionError)
  deriving DecidableEq, Repr

/-- The part of the configuration that a submission depends on, with the rows to prove. -/
structure Submitter where
  address : Address
  tier : Bytes32
  inputs : List UsageRowInput

section

variable (x : Externals) (ps : ProofSystem) (checks : Bool) (chain : ChainReads)

def prove (epoch : Nat) (tier kEpoch : Bytes32) (kPpm : Nat) (inputs : List UsageRowInput) :
    Exec BundleError ProofBundle := do
  let circuit ← mapErr .prove (assemble x.poseidonHash checks epoch tier kEpoch kPpm inputs)
  let proof ← okOr (ps.create circuit) .synthesis
  pure
    { proof := proof
      digest := circuit.digest
      epoch := epoch
      tier := tier
      kEpoch := kEpoch
      rows := circuit.rows.map publicRowOf }

/-- The contract's call with the active rows of a bundle; `verdict` is the verifier's. -/
def submissionCall (s : Submitter) (timestamp : Nat) (bundle : ProofBundle)
    (active : List PublicRow) (verdict : Bool) : Submission :=
  { sender := s.address
    timestamp := timestamp
    tierId := s.tier
    commitments := active.map PublicRow.commitment
    pseudonyms := active.map PublicRow.pseudonym
    workIds := active.map PublicRow.workId
    weights := active.map fun r => BitVec.ofNat 256 r.weight
    digest := bundle.digest
    verdict := verdict }

/-- `run_honest`, with the rows of `s`: the epoch is read at `readAt`, and the transaction is mined
at `minedAt`. -/
def runHonest (st : CWEConsumption) (s : Submitter) (readAt minedAt : Nat) :
    Exec SubmitError (CWEConsumption × ConsumptionSubmitted) := do
  let epoch ← if currentEpoch readAt < 2 ^ 64 then .ok (currentEpoch readAt) else fail .intRange
  let kEpoch ← okOr (chain.keyFor epoch) .rpc
  -- `K_PPM`
  let bundle ← mapErr .prove (prove x ps checks epoch s.tier kEpoch 1000000 s.inputs)
  let active ← slice bundle.rows 0 s.inputs.length
  let calldata ← okOr (ps.proofToEvmCalldata bundle.proof) .encode
  mapErr .reverted (submitConsumption st
    (submissionCall s minedAt bundle active (ps.verify bundle.digest calldata)))

end

/-! ## An honest submission -/

/-- Rows that `prove` can prove: at least one and not too many, of different works, and each in the
circuit's ranges. -/
structure Submitter.Honest (s : Submitter) : Prop where
  nonempty : s.inputs ≠ []
  length : s.inputs.length ≤ maxWorks
  distinct : (s.inputs.map fun input => frFromBytes32 input.workId).Nodup
  inRange : ∀ input ∈ s.inputs, input.InRange
  provable : ∀ input ∈ s.inputs, input.Provable

/-- The public row of an input: its work, and the weight of its usage. -/
def RowOf (checks : Bool) (input : UsageRowInput) (row : PublicRow) : Prop :=
  row.workId = input.workId ∧ row.weight < 2 ^ 128 ∧
    weightOf checks input.minutes input.plays input.pricePpm input.regionPpm 1000000 =
      .ok row.weight

/-- The event of a submission that settlement accepts, with one row for each input. -/
structure EventOf (x : Externals) (checks : Bool) (epoch : Nat) (kEpoch : Bytes32) (s : Submitter)
    (e : ConsumptionSubmitted) : Prop where
  user : e.user = s.address
  logged : e.epoch = epoch
  tierId : e.tierId = s.tier
  wellFormed : WellFormed e
  accepted : Accepted x.poseidonHash epoch kEpoch e
  rows : List.Forall₂ (RowOf checks) s.inputs (publicRows e)

section

variable {x : Externals} {ps : ProofSystem} {checks : Bool} {chain : ChainReads}
variable {epoch : Nat} {kEpoch : Bytes32} {s : Submitter}

/-- The rows of an event whose arrays come from `active`, without their commitments. -/
theorem publicRows_of_active {e : ConsumptionSubmitted} {active : List PublicRow}
    (hworkIds : e.workIds = active.map PublicRow.workId)
    (hpseudonyms : e.pseudonyms = active.map PublicRow.pseudonym)
    (hweights : e.weights = active.map fun r => BitVec.ofNat 256 r.weight)
    (hnarrow : ∀ r ∈ active, r.weight < 2 ^ 128) :
    publicRows e = active.map fun r => { r with commitment := 0 } := by
  rw [publicRows, hworkIds, hpseudonyms, hweights, List.zip_map', List.zip_map', List.map_map]
  refine List.map_congr_left ?_
  intro r hr
  have hwide : (2 : Nat) ^ 128 < 2 ^ 256 := by decide
  have hweight : (BitVec.ofNat 256 r.weight).toNat = r.weight := by
    rw [BitVec.toNat_ofNat, Nat.mod_eq_of_lt ((hnarrow r hr).trans hwide)]
  simp only [Function.comp_apply, hweight]

/-- The digest reads works, pseudonyms and weights only. -/
theorem digest_congr {poseidonHash : PoseidonHash} {tier : Bytes32} {rows rows' : List PublicRow}
    (h : rows.map rowInputs = rows'.map rowInputs) :
    digest poseidonHash epoch tier kEpoch rows = digest poseidonHash epoch tier kEpoch rows' := by
  rw [digest, digest, List.flatMap_def, List.flatMap_def, h]

theorem rowOf_of_activeRow {input : UsageRowInput} {row : RowWitness} (hrange : input.InRange)
    (hprovable : input.Provable)
    (hrow : Zk.activeRow x.poseidonHash checks kEpoch 1000000 input = .ok row) :
    RowOf checks input (publicRowOf row) := by
  rcases Zk.activeRow_eq_ok hrow with ⟨weight, hweight, rfl⟩
  refine ⟨rfl, ?_, hweight⟩
  rcases weightOf_of_provable checks hrange hprovable with ⟨d, hd, hfloor⟩
  rw [hfloor] at hweight
  change weight < 2 ^ 128
  rw [← Except.ok.inj hweight]
  exact (Nat.div_le_self _ _).trans_lt (hprovable.2.2 d hd)

/-- What `prove` gives for honest rows. -/
theorem prove_honest (checks : Bool) (hcomplete : ps.Complete x.poseidonHash) (h : s.Honest)
    (epoch : Nat) (kEpoch : Bytes32) :
    ∃ bundle calldata active,
      prove x ps checks epoch s.tier kEpoch 1000000 s.inputs = .ok bundle ∧
        slice bundle.rows 0 s.inputs.length = (.ok active : Exec SubmitError _) ∧
        ps.proofToEvmCalldata bundle.proof = some calldata ∧
        ps.verify bundle.digest calldata = true ∧
        List.Forall₂ (RowOf checks) s.inputs active ∧
        bundle.digest = digest x.poseidonHash epoch s.tier kEpoch
          (active ++ List.replicate (maxWorks - active.length)
            (publicRowOf (paddedRow x.poseidonHash kEpoch))) := by
  rcases exists_assemble x.poseidonHash checks epoch s.tier kEpoch h.length h.inRange
    h.provable with ⟨circuit, hassemble⟩
  have hsatisfied := satisfied_of_provable hassemble h.distinct h.inRange h.provable
  rcases hcomplete circuit hsatisfied with ⟨proof, calldata, hcreate, hencode, hverify⟩
  rcases assemble_eq_ok hassemble with ⟨-, active, hactive, -, -, -, hrows, hdigest⟩
  refine ⟨{ proof := proof, digest := circuit.digest, epoch := epoch, tier := s.tier
            kEpoch := kEpoch, rows := circuit.rows.map publicRowOf }, calldata,
    active.map publicRowOf, ?_, ?_, hencode, hverify, ?_, ?_⟩
  · rw [prove, hassemble]
    simp only [mapErr, ok_bind, hcreate, okOr]
    rfl
  · have hlen := hactive.length_eq
    rw [slice, hrows, List.map_append]
    rw [if_pos (by simp [hlen]), hlen, Nat.sub_zero, List.drop_zero,
      List.take_left' (List.length_map _)]
  · -- Row by row: the weight is the native one, and it fits.
    rw [List.forall₂_map_right_iff]
    have hinputs : ∀ input ∈ s.inputs, input.InRange ∧ input.Provable :=
      fun input hinput => ⟨h.inRange input hinput, h.provable input hinput⟩
    refine List.Forall₂.imp ?_ ((List.forall₂_and_left _ _).2 ⟨hinputs, hactive⟩)
    rintro input row ⟨⟨hrange, hprovable⟩, hrow⟩
    exact rowOf_of_activeRow hrange hprovable hrow
  · rw [hdigest, hrows]
    simp

/-- What the contract logs of a call whose proof it accepts. -/
def loggedEvent (s : Submitter) (epoch : Nat) (digest : Bytes32) (active : List PublicRow) :
    ConsumptionSubmitted :=
  { user := s.address
    epoch := epoch
    tierId := s.tier
    digest := digest
    pseudonyms := active.map PublicRow.pseudonym
    workIds := active.map PublicRow.workId
    weights := active.map fun r => BitVec.ofNat 256 r.weight }

theorem submitConsumption_of_active {st : CWEConsumption} {timestamp : Nat} {bundle : ProofBundle}
    {active : List PublicRow} (hne : active ≠ []) (hmined : currentEpoch timestamp = epoch)
    (hfresh : st.submitted epoch s.address = false) :
    submitConsumption st (submissionCall s timestamp bundle active true) =
      .ok (⟨Function.update st.submitted epoch
        (Function.update (st.submitted epoch) s.address true)⟩,
        loggedEvent s epoch bundle.digest active) := by
  unfold submitConsumption submissionCall
  dsimp only
  rw [hmined, if_neg (by simpa using hne), if_neg (by simp), if_neg (by simp [hfresh])]
  rfl

/-- The event of rows that `prove` has made is one that settlement accepts. -/
theorem eventOf_loggedEvent {active : List PublicRow} (h : s.Honest)
    (hrows : List.Forall₂ (RowOf checks) s.inputs active) :
    EventOf x checks epoch kEpoch s (loggedEvent s epoch
      (digest x.poseidonHash epoch s.tier kEpoch (active ++
        List.replicate (maxWorks - active.length)
          (publicRowOf (paddedRow x.poseidonHash kEpoch)))) active) := by
  have hlen := hrows.length_eq
  have hmax := h.length
  have hpos : 0 < s.inputs.length := List.length_pos_iff.2 h.nonempty
  have hnarrow : ∀ r ∈ active, r.weight < 2 ^ 128 := by
    intro r hr
    rcases exists_left_of_forall₂ hrows hr with ⟨input, -, hrow⟩
    exact hrow.2.1
  generalize hdigest : digest x.poseidonHash epoch s.tier kEpoch (active ++
    List.replicate (maxWorks - active.length)
      (publicRowOf (paddedRow x.poseidonHash kEpoch))) = expected
  have hpublic : publicRows (loggedEvent s epoch expected active) =
      active.map fun r => { r with commitment := 0 } :=
    publicRows_of_active rfl rfl rfl hnarrow
  refine ⟨rfl, rfl, rfl, ⟨?_, ?_, ?_⟩, ⟨?_, ?_, ?_, ?_⟩, ?_⟩
  · rw [loggedEvent, List.length_map, ← hlen]
    exact hpos
  · simp [loggedEvent]
  · simp [loggedEvent]
  · simp [loggedEvent]
  · simp [loggedEvent]
  · intro w hw
    rcases List.mem_map.1 hw with ⟨r, hr, rfl⟩
    rw [BitVec.toNat_ofNat]
    exact (Nat.mod_le _ _).trans_lt (hnarrow r hr)
  · -- The rows differ from the proven ones in their commitments only.
    rw [recomputedDigest, hpublic, digestFromActive, if_neg (by simp; omega), List.length_map]
    change Except.ok _ = Except.ok expected
    rw [← hdigest]
    refine congrArg Except.ok (digest_congr ?_)
    rw [List.map_append, List.map_append, List.map_map]
    rfl
  · rw [hpublic, List.forall₂_map_right_iff]
    exact hrows

/-- An honest submission is logged, and settlement accepts what is logged. -/
theorem honest_submission (checks : Bool) (hcomplete : ps.Complete x.poseidonHash)
    (h : s.Honest) (hkey : chain.keyFor epoch = some kEpoch) (hepoch : epoch < 2 ^ 64)
    {st : CWEConsumption}
    {readAt minedAt : Nat} (hread : currentEpoch readAt = epoch)
    (hmined : currentEpoch minedAt = epoch) (hfresh : st.submitted epoch s.address = false) :
    ∃ e, runHonest x ps checks chain st s readAt minedAt =
        .ok (⟨Function.update st.submitted epoch
          (Function.update (st.submitted epoch) s.address true)⟩, e) ∧
      EventOf x checks epoch kEpoch s e := by
  rcases prove_honest checks hcomplete h epoch kEpoch with
    ⟨bundle, calldata, active, hprove, hslice, hencode, hverify, hrows, hdigest⟩
  have hne : active ≠ [] := by
    rintro rfl
    exact h.nonempty (List.length_eq_zero_iff.1 hrows.length_eq)
  refine ⟨loggedEvent s epoch bundle.digest active, ?_, ?_⟩
  · rw [runHonest, hread, if_pos hepoch]
    simp only [ok_bind, hkey, okOr, hprove, mapErr, hslice, hencode, hverify]
    rw [submitConsumption_of_active hne hmined hfresh]
  · rw [hdigest]
    exact eventOf_loggedEvent h hrows

end

end Settle
end CleanWeb
