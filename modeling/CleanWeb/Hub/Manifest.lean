import CleanWeb.Hub.Fingerprint
import CleanWeb.Wallet.Address

/-!
# The work manifest (`services/discovery-hub/src/manifest.rs`)

A manifest and the recovery of its signer.  Canonical JSON and signature recovery are third-party
functions, and parameters here.
-/

namespace CleanWeb
namespace Hub

open Lib Lib.Exec

inductive WorkType where
  | audio
  | video
  | text
  deriving DecidableEq, Repr

structure WorkManifest where
  workId : Bytes32
  contentId : Bytes32
  fingerprint : String
  title : String
  description : String
  tags : List String
  workType : WorkType
  pricePerMin : Nat
  bandwidthRate : Nat
  region : Bytes32
  creatorId : Address
  createdAt : Nat
  payees : List (Address × Nat)
  deriving DecidableEq, Repr

inductive ManifestError where
  | canonical (message : String)
  | badSignature
  | recover (message : String)
  deriving DecidableEq, Repr

/-- `serde_jcs::to_vec`, `Signature::try_from` and `recover_address_from_msg`. -/
structure Signing where
  Signature : Type
  toVec : WorkManifest → Except String (List UInt8)
  tryFrom : List UInt8 → Option Signature
  recoverAddressFromMsg : Signature → List UInt8 → Except String Address

/-- A third-party result, with its error text wrapped. -/
def liftErr {ε α : Type} (f : String → ε) : Except String α → Exec ε α
  | .ok a => .ok a
  | .error message => fail (f message)

theorem liftErr_eq_ok {ε α : Type} {f : String → ε} {x : Except String α} {a : α} :
    liftErr f x = .ok a ↔ x = .ok a := by
  cases x with
  | ok b => simp [liftErr]
  | error message => simp [liftErr, fail]

namespace WorkManifest

def canonicalBytes (signing : Signing) (m : WorkManifest) : Exec ManifestError (List UInt8) :=
  liftErr .canonical (signing.toVec m)

def recoverSigner (signing : Signing) (m : WorkManifest) (signature : List UInt8) :
    Exec ManifestError Address := do
  let sig ← okOr (signing.tryFrom signature) .badSignature
  let msg ← m.canonicalBytes signing
  liftErr .recover (signing.recoverAddressFromMsg sig msg)

theorem recoverSigner_of_parts {signing : Signing} {m : WorkManifest} {signature msg : List UInt8}
    {sig : signing.Signature} {signer : Address} (hsig : signing.tryFrom signature = some sig)
    (hmsg : signing.toVec m = .ok msg)
    (hsigner : signing.recoverAddressFromMsg sig msg = .ok signer) :
    m.recoverSigner signing signature = .ok signer := by
  rw [recoverSigner, canonicalBytes, hsig, hmsg]
  exact liftErr_eq_ok.2 hsigner

end WorkManifest
end Hub
end CleanWeb
