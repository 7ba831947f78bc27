import CleanWeb.Settle.Events
import CleanWeb.Wallet.Commit

/-!
# Disclosure mode (`services/settlement/src/disclosure.rs`, `chain.rs`)

The settlement of an epoch from a file of openings: every logged submission pays its tier fee, and
the rows of a submitter are the openings that the file has under its address.
-/

namespace CleanWeb
namespace Settle

open Lib Lib.Exec Dapr Contracts Wallet

/-- The disclosure file: openings by lowercase address, and the works recognised by fingerprint. -/
structure Disclosure where
  users : BTreeMap String (List Opening)
  escrowWorks : List Bytes32

namespace Disclosure

/-- The addresses are ASCII text, on which `to_lowercase` is the ASCII one. -/
def forUser (d : Disclosure) (address : String) : Option (List Opening) :=
  d.users[toAsciiLowercase address]?

end Disclosure

inductive DisclosureRunError where
  | load
  | run (e : RunError)
  deriving DecidableEq, Repr

/-- `u64::try_from`. -/
def tryU64 (n : Nat) : Exec RunError Nat :=
  if n < 2 ^ 64 then .ok n else fail .intRange

section

variable (x : Externals) (chain : ChainReads) (pricePerMinOf : Bytes32 → Option Nat)

/-- One opening as a usage row, at the registry's price and in a neutral region. -/
def openingRow (userHex : UserId) (opening : Opening) : Exec RunError UsageRow := do
  let price ← rpc (pricePerMinOf opening.workId)
  let pricePpm ← tryU64 price
  pure
    { user := userHex
      work := Bytes32.display x.hex opening.workId
      minutes := opening.minutes
      pricePpm := pricePpm
      regionPpm := 1000000
      plays := opening.plays }

/-- The accumulators of the pass over the log. -/
structure DisclosurePass where
  tierFees : BTreeMap UserId Nat
  usage : List UsageRow

def disclosureStep (disclosure : Disclosure) (st : DisclosurePass) (event : ConsumptionSubmitted) :
    Exec RunError DisclosurePass := do
  let userHex := Address.display x.hex event.user
  let fee ← rpc (chain.feeOf event.tierId)
  let paid ← tryU128 fee
  let rows ← ((disclosure.forUser userHex).getD []).mapM (openingRow x pricePerMinOf userHex)
  pure { tierFees := st.tierFees.insert userHex paid, usage := st.usage ++ rows }

/-- The works of the file that go to escrow, as text. -/
def escrowSet (disclosure : Disclosure) : BTreeSet WorkId :=
  disclosure.escrowWorks.foldl (fun works w => works.insert (Bytes32.display x.hex w)) ∅

/-- `file` is absent where the disclosure cannot be read or parsed. -/
def runDisclosure (epoch : Nat) (file : Option Disclosure) (logs : List ConsumptionSubmitted) :
    Exec DisclosureRunError Settlement := do
  let disclosure ← okOr file .load
  let pass ← mapErr .run (logs.foldlM (disclosureStep x chain pricePerMinOf disclosure) ⟨∅, []⟩)
  mapErr (fun e => .run (.settle e))
    (settle x.hex x.keccak256 epoch ⟨pass.tierFees, pass.usage, ∅⟩ (escrowSet x disclosure))

end

end Settle
end CleanWeb
