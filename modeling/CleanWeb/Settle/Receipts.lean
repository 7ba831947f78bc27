import CleanWeb.Dapr.Model
import CleanWeb.Wallet.Address

/-!
# Bandwidth receipts (`libs/receipt`, `services/settlement/src/receipts.rs`)

Which receipts count, the bytes they prove for each consumer and work, and the credibility of every
row that follows from them.  Recovering a signer from a signature is a parameter.
-/

namespace CleanWeb
namespace Settle

open Lib Lib.Exec Dapr

attribute [local instance] lexOrd

/-! ## Receipts -/

/-- `to_ascii_lowercase`. -/
def toAsciiLowercase (s : String) : String :=
  String.ofList (s.toList.map Char.toLower)

def normalizeAddr (s : String) : String :=
  toAsciiLowercase s

/-- The fixed content-block size a receipt attests. -/
def chunkSize : Nat := 131072

/-- One block of a work delivered by a node to a consumer. -/
structure Receipt where
  workId : String
  consumer : String
  node : String
  chunkIndex : Nat
  bytes : Nat
  epoch : Nat
  deriving DecidableEq, Repr

structure SignedReceipt where
  receipt : Receipt
  nodeSig : String
  consumerSig : String
  deriving DecidableEq, Repr

structure ReceiptBundle where
  epoch : Nat
  receipts : List SignedReceipt

/-- The address a signature over a receipt recovers to, absent where recovery fails. -/
abbrev RecoverSigner := Receipt → String → Option Address

/-- `(consumer, work_id, chunk_index)`. -/
def Receipt.dedupKey (r : Receipt) : String × String × Nat :=
  (normalizeAddr r.consumer, toAsciiLowercase r.workId, r.chunkIndex)

/-- Both signatures recover to the addresses the receipt names. -/
def SignedReceipt.verify (hex : HexCodec) (recoverSigner : RecoverSigner) (s : SignedReceipt) :
    Bool :=
  match recoverSigner s.receipt s.nodeSig with
  | none => false
  | some node =>
      if Address.display hex node ≠ normalizeAddr s.receipt.node then false
      else
        match recoverSigner s.receipt s.consumerSig with
        | none => false
        | some consumer => Address.display hex consumer = normalizeAddr s.receipt.consumer

/-! ## Saturating arithmetic -/

def saturatingAdd (a b : Nat) : Nat :=
  min (a + b) (2 ^ 128 - 1)

def saturatingMul (a b : Nat) : Nat :=
  min (a * b) (2 ^ 128 - 1)

/-- `floor(a · b / d)` as `(a/d)·b + ((a%d)·b)/d`; every caller passes a positive `d`. -/
def mulDivFloor (a b d : Nat) : Nat :=
  let q := a / d
  let r := a % d
  saturatingAdd (saturatingMul q b) (saturatingMul r b / d)

/-! ## Accepting receipts -/

/-- The denominator of the rate constant. -/
def rateScale : Nat := 1000000000000

/-- The accumulators of `acceptReceipts`. -/
structure AcceptPass where
  totals : BTreeMap (String × String) Nat
  seen : BTreeSet (String × String × Nat)

def acceptStep (hex : HexCodec) (recoverSigner : RecoverSigner) (epoch : Nat)
    (credentialed : String → Bool) (st : AcceptPass) (signed : SignedReceipt) : AcceptPass :=
  let r := signed.receipt
  if !signed.verify hex recoverSigner then st
  else if r.epoch ≠ epoch then st
  else if !credentialed (normalizeAddr r.node) then st
  else if st.seen.contains r.dedupKey then st
  else
    let key := (normalizeAddr r.consumer, toAsciiLowercase r.workId)
    { totals := st.totals.insert key
        (saturatingAdd (st.totals.getD key 0) (min r.bytes chunkSize))
      seen := st.seen.insert r.dedupKey }

/-- The accepted bytes of each (consumer, work). -/
def acceptReceipts (hex : HexCodec) (recoverSigner : RecoverSigner) (bundle : ReceiptBundle)
    (epoch : Nat) (credentialed : String → Bool) : BTreeMap (String × String) Nat :=
  (bundle.receipts.foldl (acceptStep hex recoverSigner epoch credentialed) ⟨∅, ∅⟩).totals

/-! ## Credibility -/

/-- Each user's accepted bytes over all works. -/
def userBytes (verified : BTreeMap (String × String) Nat) : BTreeMap String Nat :=
  verified.toList.foldl
    (fun m e => m.insert (normalizeAddr e.1.1)
      (saturatingAdd (m.getD (normalizeAddr e.1.1) 0) e.2)) ∅

/-- Each user's per-epoch evidence factor. -/
def epochFactorPpm (verified : BTreeMap (String × String) Nat) (minEpochBytes : Nat) :
    BTreeMap String Nat :=
  let totals := userBytes verified
  if minEpochBytes = 0 then totals.map fun _ _ => 1000000
  else totals.map fun _ bytes => min (mulDivFloor bytes 1000000 minEpochBytes) 1000000

/-- The credibility of one row. -/
def rowCredibility (verified : BTreeMap (String × String) Nat) (rates : BTreeMap String Nat)
    (epochFactor : BTreeMap String Nat) (row : RawRow) : Nat :=
  let work := toAsciiLowercase row.work
  let factor := epochFactor.getD (normalizeAddr row.user) 0
  let rate := rates.getD work 0
  -- A missing rate fails closed, as a rate of zero does.
  if rate = 0 then 0
  else if row.raw = 0 then factor
  else
    let expected := max (mulDivFloor row.raw rate rateScale) 1
    let bytes := verified.getD (normalizeAddr row.user, work) 0
    let rowPpm := min (mulDivFloor bytes 1000000 expected) 1000000
    mulDivFloor rowPpm factor 1000000 % 2 ^ 64

def rowCredibilityPpm (rows : List RawRow) (verified : BTreeMap (String × String) Nat)
    (rates : BTreeMap String Nat) (epochFactor : BTreeMap String Nat) : List Nat :=
  rows.map (rowCredibility verified rates epochFactor)

end Settle
end CleanWeb
