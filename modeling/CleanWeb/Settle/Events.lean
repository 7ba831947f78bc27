import CleanWeb.Contracts.Consumption
import CleanWeb.Settle.Finalize
import CleanWeb.Settle.Receipts
import CleanWeb.Zk.Digest

/-!
# Event mode (`services/settlement/src/chain.rs`, `run_events`)

Re-verify every logged submission of the epoch, then pay from the proven weights of the accepted
ones.  Chain reads are functions that may fail; the log itself is the list of events in chain
order.
-/

namespace CleanWeb
namespace Settle

open Lib Lib.Exec Dapr Zk Contracts

/-! ## The environment -/

/-- The code this program calls but does not contain. -/
structure Externals where
  hex : HexCodec
  keccak256 : Keccak
  poseidonHash : PoseidonHash
  recoverSigner : RecoverSigner

/-- The contract reads, absent where the call fails. -/
structure ChainReads where
  keyFor : Nat → Option Bytes32
  feeOf : Bytes32 → Option Nat
  isValid : Address → Bytes32 → Option Bool
  bandwidthRateOf : Bytes32 → Option Nat

/-- The configuration: `receipts` is absent without a path, and `some none` where the file does not
parse. -/
structure Config where
  epoch : Nat
  minEpochBytes : Nat
  receipts : Option (Option ReceiptBundle)
  sidecarWritable : Bool

inductive RunError where
  | rpc
  | intRange
  | prove (e : ProveError)
  | bundle
  | badWorkId
  | sidecar
  | settle (e : SettleError)
  deriving DecidableEq, Repr

section

variable (x : Externals) (chain : ChainReads) (cfg : Config)

/-- An awaited contract read. -/
def rpc {α : Type} (o : Option α) : Exec RunError α :=
  okOr o .rpc

/-- `u128::try_from`. -/
def tryU128 (n : Nat) : Exec RunError Nat :=
  if n < 2 ^ 128 then .ok n else fail .intRange

/-! ## Submissions -/

/-- The active row at one position of the three arrays. -/
def activeRow (entry : Bytes32 × Bytes32 × BitVec 256) : Exec RunError PublicRow := do
  let weight ← tryU128 entry.2.2.toNat
  pure { workId := entry.1, commitment := 0, pseudonym := entry.2.1, weight := weight }

def activeRows (event : ConsumptionSubmitted) : Exec RunError (List PublicRow) :=
  (event.workIds.zip (event.pseudonyms.zip event.weights)).mapM activeRow

/-- The accumulators of the pass over the log. -/
structure EventPass where
  tierFees : BTreeMap UserId Nat
  rows : List RawRow

/-- The row that an accepted active row is paid by. -/
def paidRow (user : UserId) (row : PublicRow) : RawRow :=
  { user := user, work := Bytes32.display x.hex row.workId, raw := row.weight }

/-- One log entry: reject it, or record its fee and its rows. -/
def eventStep (kEpoch : Bytes32) (st : EventPass) (event : ConsumptionSubmitted) :
    Exec RunError EventPass := do
  let userHex := Address.display x.hex event.user
  let n := event.workIds.length
  if event.pseudonyms.length ≠ n ∨ event.weights.length ≠ n then pure st
  else
    let active ← activeRows event
    let expected ← mapErr .prove
      (digestFromActive x.poseidonHash cfg.epoch event.tierId kEpoch active)
    if expected ≠ event.digest then pure st
    else
      let fee ← rpc (chain.feeOf event.tierId)
      let paid ← tryU128 fee
      pure
        { tierFees := st.tierFees.insert userHex paid
          rows := st.rows ++ active.map (paidRow x userHex) }

/-! ## Bandwidth -/

/-- `keccak256("cwe.credential.storage-node")`. -/
def storageNodeCredentialType : Bytes32 :=
  x.keccak256 "cwe.credential.storage-node".toUTF8.toList

/-- Resolve one node's credential, once. -/
def credentialStep (valid : BTreeMap String Bool) (signed : SignedReceipt) :
    Exec RunError (BTreeMap String Bool) :=
  let node := normalizeAddr signed.receipt.node
  if valid.contains node then pure valid
  else
    match Address.fromStr x.hex node with
    | none => pure (valid.insert node false)
    | some addr => do
        let ok ← rpc (chain.isValid addr (storageNodeCredentialType x))
        pure (valid.insert node ok)

/-- Read one work's rate, once. -/
def rateStep (rates : BTreeMap String Nat) (row : RawRow) : Exec RunError (BTreeMap String Nat) :=
  let work := toAsciiLowercase row.work
  if rates.contains work then pure rates
  else do
    let id ← mapErr (fun _ => .badWorkId) (Bytes32.fromStr x.hex work)
    let rate ← rpc (chain.bandwidthRateOf id)
    -- `u64::try_from(rate).unwrap_or(0)`
    pure (rates.insert work (if rate < 2 ^ 64 then rate else 0))

/-- The credibility of every row under a receipt bundle. -/
def bundleCredibility (rows : List RawRow) (bundle : ReceiptBundle) :
    Exec RunError (List Nat) := do
  let valid ← bundle.receipts.foldlM (credentialStep x chain) ∅
  let verified := acceptReceipts x.hex x.recoverSigner bundle cfg.epoch
    fun node => valid.getD node false
  let rates ← rows.foldlM (rateStep x chain) ∅
  let factor := epochFactorPpm verified cfg.minEpochBytes
  let ppm := rowCredibilityPpm rows verified rates factor
  if cfg.sidecarWritable then pure ppm else fail .sidecar

/-! ## The run -/

/-- Everything after the pass over the log. -/
def payAccepted (pass : EventPass) : Exec RunError Settlement :=
  match cfg.receipts with
  | some none => fail .bundle
  | some (some bundle) => do
      let ppm ← bundleCredibility x chain cfg pass.rows bundle
      mapErr .settle
        (settleRawWithRowCredibility x.hex x.keccak256 cfg.epoch pass.tierFees pass.rows ppm ∅)
  | none =>
      mapErr .settle (settleRaw x.hex x.keccak256 cfg.epoch pass.tierFees pass.rows ∅ ∅)

def runEvents (logs : List ConsumptionSubmitted) : Exec RunError Settlement := do
  let kEpoch ← rpc (chain.keyFor cfg.epoch)
  let pass ← logs.foldlM (eventStep x chain cfg kEpoch) ⟨∅, []⟩
  payAccepted x chain cfg pass

end

end Settle
end CleanWeb
