import CleanWeb.Lib.Gadget
import CleanWeb.Zk.Digest
import CleanWeb.Zk.Dr

/-!
# The usage circuit (`libs/zk-circuits/src/circuit.rs`)

The constraint system, gadget by gadget.  Field variables are the values an assignment gives them;
the Poseidon gadget computes the same hash as the native one.
-/

namespace CleanWeb
namespace Zk

open Lib Lib.Exec Lib.Synth Lib.Gadget Dapr

/-! ## Parameters -/

/-- The bit size of the field's modulus. -/
def modulusBits : Nat := 254

def minutesBits : Nat := 32

def playsBits : Nat := 7

def ppmBits : Nat := 40

def weightBits : Nat := 120

def ppmScale : Nat := 1000000

/-- The curvature of the circuit's constant table. -/
def kPpmCircuit : Nat := 1000000

def remainderBits : Nat := 20

/-- The constant table `D(1..=64)`. -/
def circuitTable : List Nat :=
  (dPpmTable kPpmCircuit).toOption.getD []

/-! ## Data -/

/-- The statement and the prover's witness. -/
structure UsageCircuit where
  epoch : Nat
  tier : Bytes32
  kEpoch : Bytes32
  kPpm : Nat
  rows : List RowWitness
  digest : Bytes32
  deriving DecidableEq, Repr

/-- The row variables the circuit-wide passes read. -/
structure RowVars where
  workIdVar : Fr
  weightVar : Fr
  pseudonymVar : Fr
  activeVar : Fr

/-- All variables of a row: with those above, the opening of its commitment. -/
structure RowAssignment extends RowVars where
  saltVar : Fr
  commitmentVar : Fr
  minutesVar : Fr
  playsVar : Fr
  priceVar : Fr
  regionVar : Fr

/-- All variables of the statement. -/
structure UsageAssignment where
  digestVar : Fr
  kEpochVar : Fr
  rows : List RowAssignment
  epochVar : Fr
  tierVar : Fr

inductive SynthesisError where
  | unsatisfiable
  deriving DecidableEq, Repr

/-! ## Gadgets -/

/-- `value < 2 ^ n_bits` when the guard is set: the low bits already recompose to `value`. -/
def enforceBitWidth (value : Fr) (nBits : Nat) (guard : Fr) : Synth Fr Unit := do
  let bits ← toBitsLe modulusBits value
  let low := leBitsToFp (bits.take nBits)
  conditionalEnforceEqual value low guard

/-- The three sums over the selectors. -/
structure SelectorSums where
  sumSel : Fr
  sumIdx : Fr
  dVar : Fr

/-- One iteration of the loop over the selectors. -/
def selectorStep (table : List Nat) (st : SelectorSums) (entry : Fr × Nat) : SelectorSums :=
  { sumSel := st.sumSel + entry.1
    sumIdx := st.sumIdx + entry.1 * frFromU128 entry.2
    dVar := st.dVar + entry.1 * frFromU128 (table.getD entry.2 0) }

/-- The one-hot table lookup and the proven floor division. -/
def enforceDrWeight (row : RowWitness) (minutesVar playsVar priceVar regionVar weightVar : Fr)
    (active : Fr) : Synth Fr Unit := do
  let table := circuitTable
  let hot := clampPlays row.plays - 1
  let selectors ← (List.range maxPlaysCircuit).mapM fun i => newBit (i = hot)
  let sums := selectors.zipIdx.foldl (selectorStep table) ⟨0, 0, 0⟩
  conditionalEnforceEqual sums.sumSel 1 active
  conditionalEnforceEqual sums.sumIdx (playsVar - 1) active
  let scaled ← mul minutesVar priceVar
  let valueVar ← mul scaled regionVar
  -- The remainder is computed from the row, in 128-bit arithmetic.
  let valueNative := row.minutes * row.pricePpm * row.regionPpm % 2 ^ 128
  let dNative := table.getD hot 0
  let rVar ← newWitness (frFromU128 ((valueNative % ppmScale) * (dNative % ppmScale) % ppmScale))
  let lhs := weightVar * frFromU128 ppmScale + rVar
  let rhs ← mul valueVar sums.dVar
  conditionalEnforceEqual lhs rhs active
  enforceBitWidth rVar remainderBits active
  enforceBitWidth (frFromU128 (ppmScale - 1) - rVar) remainderBits active

section

variable (poseidonHash : PoseidonHash)

/-- The commitment of the all-zero opening. -/
def paddedCommitment : Bytes32 :=
  commitment poseidonHash 0 0 0 0

/-- Allocate and constrain one row. -/
def enforceRow (kEpochVar : Fr) (row : RowWitness) : Synth Fr RowAssignment := do
  let activeVar ← newBit row.active
  let workIdVar ← newWitness (frFromBytes32 row.workId)
  let saltVar ← newWitness (frFromBytes32 row.salt)
  let commitmentVar ← newWitness (frFromBytes32 row.commitment)
  let pseudonymVar ← newWitness (frFromBytes32 row.pseudonym)
  let minutesVar ← newWitness (frFromU128 row.minutes)
  let playsVar ← newWitness (frFromU128 row.plays)
  let priceVar ← newWitness (frFromU128 row.pricePpm)
  let regionVar ← newWitness (frFromU128 row.regionPpm)
  let weightVar ← newWitness (frFromU128 row.weight)
  let inactiveVar := 1 - activeVar
  -- Commitment correctness.
  let computedCommitment := poseidonHash [workIdVar, minutesVar, playsVar, saltVar]
  conditionalEnforceEqual commitmentVar computedCommitment activeVar
  -- Range bounds.
  enforceBitWidth minutesVar minutesBits activeVar
  enforceBitWidth playsVar playsBits activeVar
  enforceBitWidth priceVar ppmBits activeVar
  enforceBitWidth regionVar ppmBits activeVar
  let playsSlack := frFromU128 maxPlaysCircuit - playsVar
  enforceBitWidth playsSlack playsBits activeVar
  conditionalEnforceNotEqual workIdVar 0 activeVar
  -- The claimed weight.
  enforceDrWeight row minutesVar playsVar priceVar regionVar weightVar activeVar
  enforceBitWidth weightVar weightBits activeVar
  -- Epoch binding.
  let derivedPseudonym := poseidonHash [kEpochVar, commitmentVar]
  conditionalEnforceEqual pseudonymVar derivedPseudonym activeVar
  -- Canonical padding.
  conditionalEnforceEqual workIdVar 0 inactiveVar
  conditionalEnforceEqual weightVar 0 inactiveVar
  let paddedC := frFromBytes32 (paddedCommitment poseidonHash)
  conditionalEnforceEqual commitmentVar paddedC inactiveVar
  let paddedP := poseidonHash [kEpochVar, paddedC]
  conditionalEnforceEqual pseudonymVar paddedP inactiveVar
  pure
    { workIdVar := workIdVar
      weightVar := weightVar
      pseudonymVar := pseudonymVar
      activeVar := activeVar
      saltVar := saltVar
      commitmentVar := commitmentVar
      minutesVar := minutesVar
      playsVar := playsVar
      priceVar := priceVar
      regionVar := regionVar }

/-- Not both rows active and of the same work. -/
def enforceDistinct (a b : RowVars) : Synth Fr Unit := do
  let idsEqual ← isEq a.workIdVar b.workIdVar
  enforceKaryNand a.activeVar [b.activeVar, idsEqual]

/-- The loop over the pairs `i < j`. -/
def enforceUnique : List RowAssignment → Synth Fr Unit
  | [] => pure ()
  | a :: rest => do
      forM rest fun b => enforceDistinct a.toRowVars b.toRowVars
      enforceUnique rest

/-- The part of the digest preimage that a row contributes. -/
def rowDigestInputs (r : RowAssignment) : List Fr :=
  [r.pseudonymVar, r.workIdVar, r.weightVar]

/-- The constraints over the witnesses, given the public digest. -/
def synthesizeWitness (circuit : UsageCircuit) (digestVar : Fr) : Synth Fr UsageAssignment := do
  let kEpochVar ← newWitness (frFromBytes32 circuit.kEpoch)
  let rows ← circuit.rows.mapM (enforceRow poseidonHash kEpochVar)
  enforceUnique rows
  let epochVar ← newWitness (frFromU128 circuit.epoch)
  let tierVar ← newWitness (frFromBytes32 circuit.tier)
  let computedDigest :=
    poseidonHash (epochVar :: tierVar :: kEpochVar :: rows.flatMap rowDigestInputs)
  enforceEqual digestVar computedDigest
  pure
    { digestVar := digestVar
      kEpochVar := kEpochVar
      rows := rows
      epochVar := epochVar
      tierVar := tierVar }

/-- The constraint system for a circuit of the right shape. -/
def synthesize (circuit : UsageCircuit) : Synth Fr UsageAssignment := do
  let digestVar ← newInput (frFromBytes32 circuit.digest)
  synthesizeWitness poseidonHash circuit digestVar

def generateConstraints (circuit : UsageCircuit) :
    Exec SynthesisError (Synth Fr UsageAssignment) :=
  if circuit.rows.length ≠ maxWorks then fail .unsatisfiable
  else .ok (synthesize poseidonHash circuit)

end

end Zk
end CleanWeb
