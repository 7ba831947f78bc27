import Mathlib.Logic.Function.Basic
import CleanWeb.Lib.Exec
import CleanWeb.Wallet.Address

/-!
# Credentials (`contracts/CWEIdentity.sol`, `CredentialTypes.sol`, `utils/Ownable.sol`)

The errors of all modelled contracts are one type: a revert is identified by its name and its
arguments, whichever contract raises it.
-/

namespace CleanWeb
namespace Contracts

open Lib Lib.Exec Lib.BigEndian Bytes32

/-- The custom errors, in the order of the contracts that declare them. -/
inductive Revert where
  -- utils
  | notOwner
  | zeroAddressOwner
  | reentrantCall
  -- CWEIdentity
  | notIssuer
  | badExpiry
  | noCredential
  -- CWERegistry
  | notVerifiedCreator
  | badArrayLengths
  | zeroPayee
  | zeroSplit
  | splitsNotFull (sum : Nat)
  | notRegistrant
  | badConsent
  | badBandwidthRate
  -- CWEJury
  | escrowAlreadySet
  | notEscrow
  | notJuror
  | noDispute (disputeId : Nat)
  | alreadyFinalized (disputeId : Nat)
  | votingClosed (disputeId : Nat)
  | votingOpen (disputeId : Nat)
  | alreadyVoted (disputeId : Nat)
  | notAParty (disputeId : Nat) (work : Bytes32)
  | notFinalized (disputeId : Nat)
  -- CWEEscrow and CWEPayouts
  | notAggregator
  | insolvent (balance liability : Nat)
  | workNotRegistered (workId : Bytes32)
  | payoutFailed (payee : Address)
  -- CWEEscrow
  | alreadyCommitted (epochId : Nat) (workId : Bytes32)
  | notEscrowed (epochId : Nat) (workId : Bytes32)
  | alreadyReleased (epochId : Nat) (workId : Bytes32)
  | windowClosed (epochId : Nat) (workId : Bytes32)
  | tooEarly (epochId : Nat) (workId : Bytes32)
  | selfChallenge (workId : Bytes32)
  | contentMismatch (escrowedContentId challengerContentId : Bytes32)
  | alreadyDisputed (epochId : Nat) (workId : Bytes32)
  | notDisputed (epochId : Nat) (workId : Bytes32)
  | disputeNotResolved (epochId : Nat) (workId : Bytes32)
  | disputed (epochId : Nat) (workId : Bytes32)
  -- CWEPayouts
  | epochAlreadyCommitted (epochId : Nat)
  | epochNotCommitted (epochId : Nat)
  | alreadyWithdrawn (epochId : Nat) (workId : Bytes32)
  | badProof
  -- CWETiers
  | unknownTier (tierId : Bytes32)
  | wrongFee (sent required : Nat)
  | payoutPoolUnset
  | feeForwardFailed
  deriving DecidableEq, Repr

/-- The bytes of an ASCII literal. -/
def ascii (s : String) : List UInt8 :=
  s.toList.map fun c => c.toNat.toUInt8

/-- An address as an ABI word. -/
def addressWord (a : Address) : List UInt8 :=
  toBytes 32 a.toNat

/-! ## Ownable -/

def onlyOwner (owner sender : Address) : Exec Revert Unit :=
  if sender ≠ owner then fail .notOwner else pure ()

def transferOwnership (owner sender newOwner : Address) : Exec Revert Address := do
  onlyOwner owner sender
  if newOwner = 0 then fail .zeroAddressOwner else pure newOwner

/-! ## Credential types -/

namespace CredentialTypes

variable (keccak256 : Keccak)

def verifiedCreator : Bytes32 :=
  keccak256 (ascii "cwe.credential.verified-creator")

def juror : Bytes32 :=
  keccak256 (ascii "cwe.credential.juror")

end CredentialTypes

/-! ## The registry of credentials -/

structure Credential where
  issuer : Address
  issuedAt : Nat
  expiresAt : Nat
  revoked : Bool
  exists_ : Bool
  deriving DecidableEq, Repr

instance : Inhabited Credential :=
  ⟨0, 0, 0, false, false⟩

structure CWEIdentity where
  owner : Address
  isIssuer : Address → Bool
  credentials : Bytes32 → Credential

namespace CWEIdentity

def init (initialOwner : Address) : CWEIdentity :=
  ⟨initialOwner, fun _ => false, fun _ => default⟩

/-- `keccak256(abi.encode(subject, credType))`. -/
def key (keccak256 : Keccak) (subject : Address) (credType : Bytes32) : Bytes32 :=
  keccak256 (addressWord subject ++ bytes credType)

def onlyIssuer (st : CWEIdentity) (sender : Address) : Exec Revert Unit :=
  if !st.isIssuer sender then fail .notIssuer else pure ()

def setIssuer (st : CWEIdentity) (sender issuer : Address) (trusted : Bool) :
    Exec Revert CWEIdentity := do
  onlyOwner st.owner sender
  pure { st with isIssuer := Function.update st.isIssuer issuer trusted }

def attest (keccak256 : Keccak) (st : CWEIdentity) (sender : Address) (timestamp : Nat)
    (subject : Address) (credType : Bytes32) (expiresAt : Nat) : Exec Revert CWEIdentity := do
  onlyIssuer st sender
  if expiresAt ≤ timestamp then fail .badExpiry
  else
    pure { st with
      credentials := Function.update st.credentials (key keccak256 subject credType)
        { issuer := sender
          issuedAt := timestamp % 2 ^ 64
          expiresAt := expiresAt
          revoked := false
          exists_ := true } }

def revoke (keccak256 : Keccak) (st : CWEIdentity) (sender subject : Address)
    (credType : Bytes32) : Exec Revert CWEIdentity := do
  onlyIssuer st sender
  let k := key keccak256 subject credType
  if !(st.credentials k).exists_ then fail .noCredential
  else
    pure { st with
      credentials := Function.update st.credentials k { st.credentials k with revoked := true } }

def isValid (keccak256 : Keccak) (st : CWEIdentity) (timestamp : Nat) (subject : Address)
    (credType : Bytes32) : Bool :=
  let c := st.credentials (key keccak256 subject credType)
  c.exists_ && !c.revoked && decide (timestamp < c.expiresAt) && st.isIssuer c.issuer

end CWEIdentity
end Contracts
end CleanWeb
