import CleanWeb.Contracts.Registry
import CleanWeb.Hub.Manifest

/-!
# Registry cross-checks (`services/discovery-hub/src/chain.rs`)

`DiscoveryChain` is the registry as the hub reads it: one state of the contract, and what each of
the five calls may fail with.
-/

namespace CleanWeb
namespace Hub

open Lib Lib.Exec Contracts

structure OnChainWork where
  registrant : Address
  pricePerMin : Nat
  bandwidthRate : Nat
  region : Bytes32
  deriving DecidableEq, Repr

/-- `lookup`: `none` means that the work is not registered. -/
abbrev RegistryView := Bytes32 → Except String (Option OnChainWork)

inductive IngestError where
  | signature
  | signerMismatch
  | unregistered
  | priceMismatch
  | bandwidthRateMismatch
  | regionMismatch
  | creatorMismatch
  | chain (message : String)
  deriving DecidableEq, Repr

namespace IngestError

def display : IngestError → String
  | .signature => "invalid manifest signature"
  | .signerMismatch => "signer is not the work's registrant"
  | .unregistered => "work is not registered"
  | .priceMismatch => "price does not match the on-chain value"
  | .bandwidthRateMismatch => "bandwidth rate does not match the on-chain value"
  | .regionMismatch => "region does not match the on-chain value"
  | .creatorMismatch => "creator_id is not the registrant"
  | .chain message => "chain error: " ++ message

end IngestError

def validateIngest (signing : Signing) (m : WorkManifest) (signature : List UInt8)
    (registry : RegistryView) : Exec IngestError Unit := do
  let signer ← mapErr (fun _ => .signature) (m.recoverSigner signing signature)
  let found ← liftErr .chain (registry m.workId)
  let onChain ← okOr found .unregistered
  if signer ≠ onChain.registrant then fail .signerMismatch
  else if m.creatorId ≠ onChain.registrant then fail .creatorMismatch
  else if m.pricePerMin ≠ onChain.pricePerMin then fail .priceMismatch
  else if m.bandwidthRate ≠ onChain.bandwidthRate then fail .bandwidthRateMismatch
  else if m.region ≠ onChain.region then fail .regionMismatch
  else pure ()

/-! ## The chain behind the view -/

inductive RegistryCall where
  | isRegistered
  | pricePerMinOf
  | bandwidthRateOf
  | regionRuleOf
  | registrantOf
  deriving DecidableEq, Repr

structure DiscoveryChain where
  urlParses : Bool
  registry : CWERegistry
  failure : RegistryCall → Option String

namespace DiscoveryChain

/-- `.call().await`: the value, or the error of the RPC. -/
def call {α : Type} (chain : DiscoveryChain) (c : RegistryCall) (value : α) : Except String α :=
  match chain.failure c with
  | some message => .error message
  | none => .ok value

/-- `u64::try_from`. -/
def toU64 (value : Nat) (message : String) : Except String Nat :=
  if value < 2 ^ 64 then .ok value else .error message

def lookup (chain : DiscoveryChain) : RegistryView := fun workId => do
  if !chain.urlParses then .error "bad RPC URL"
  else
    let registered ← chain.call .isRegistered (chain.registry.isRegistered workId)
    if !registered then pure none
    else
      let work := chain.registry.works workId
      let price ← chain.call .pricePerMinOf work.pricePerMin
      let bandwidthRate ← chain.call .bandwidthRateOf work.bandwidthRate
      let region ← chain.call .regionRuleOf work.regionRule
      let registrant ← chain.call .registrantOf work.registrant
      let price ← toU64 price "price overflow"
      let bandwidthRate ← toU64 bandwidthRate "bandwidth rate overflow"
      pure (some ⟨registrant, price, bandwidthRate, region⟩)

/-- Every call answers. -/
def Up (chain : DiscoveryChain) : Prop :=
  chain.urlParses = true ∧ ∀ c, chain.failure c = none

end DiscoveryChain

/-! ## What passes -/

/-- The manifest agrees with the registry in everything that is compared. -/
structure Agrees (m : WorkManifest) (work : OnChainWork) : Prop where
  creatorId : m.creatorId = work.registrant
  pricePerMin : m.pricePerMin = work.pricePerMin
  bandwidthRate : m.bandwidthRate = work.bandwidthRate
  region : m.region = work.region

theorem validateIngest_eq_ok_iff {signing : Signing} {m : WorkManifest} {signature : List UInt8}
    {registry : RegistryView} :
    validateIngest signing m signature registry = .ok () ↔
      ∃ work, registry m.workId = .ok (some work) ∧
        m.recoverSigner signing signature = .ok work.registrant ∧ Agrees m work := by
  constructor
  · intro h
    rcases bind_eq_ok.1 h with ⟨signer, hsigner, h⟩
    rcases bind_eq_ok.1 h with ⟨found, hfound, h⟩
    rcases bind_eq_ok.1 h with ⟨work, hwork, h⟩
    split at h
    · cases h
    rename_i hregistrant
    split at h
    · cases h
    rename_i hcreator
    split at h
    · cases h
    rename_i hprice
    split at h
    · cases h
    rename_i hrate
    split at h
    · cases h
    rename_i hregion
    rw [okOr_eq_ok] at hwork
    subst hwork
    refine ⟨work, liftErr_eq_ok.1 hfound, ?_, ⟨not_not.1 hcreator, not_not.1 hprice,
      not_not.1 hrate, not_not.1 hregion⟩⟩
    rw [← not_not.1 hregistrant]
    exact mapErr_eq_ok.1 hsigner
  · rintro ⟨work, hfound, hsigner, hagrees⟩
    unfold validateIngest
    rw [hsigner, hfound]
    change (if work.registrant ≠ work.registrant then _ else _) = _
    rw [if_neg (not_not.2 rfl), if_neg (not_not.2 hagrees.creatorId),
      if_neg (not_not.2 hagrees.pricePerMin), if_neg (not_not.2 hagrees.bandwidthRate),
      if_neg (not_not.2 hagrees.region)]
    rfl

namespace DiscoveryChain

theorem call_eq_ok_iff {α : Type} {chain : DiscoveryChain} {c : RegistryCall} {value answer : α} :
    chain.call c value = .ok answer ↔ chain.failure c = none ∧ answer = value := by
  unfold call
  cases chain.failure c with
  | none => simp [eq_comm]
  | some message => simp

theorem toU64_eq_ok_iff {value word : Nat} {message : String} :
    toU64 value message = .ok word ↔ value < 2 ^ 64 ∧ word = value := by
  unfold toU64
  split
  · rename_i h
    simp only [Except.ok.injEq, h, true_and, eq_comm]
  · rename_i h
    simp only [reduceCtorEq, h, false_and]

theorem bind_ok {α β : Type} {x : Except String α} {f : α → Except String β} {b : β} :
    (x >>= f) = .ok b ↔ ∃ a, x = .ok a ∧ f a = .ok b := by
  cases x with
  | ok a => simp [Bind.bind, Except.bind]
  | error e => simp [Bind.bind, Except.bind]

/-- The facts of a registered work, as the five getters return them. -/
def facts (registry : CWERegistry) (workId : Bytes32) : OnChainWork :=
  { registrant := (registry.works workId).registrant
    pricePerMin := (registry.works workId).pricePerMin
    bandwidthRate := (registry.works workId).bandwidthRate
    region := (registry.works workId).regionRule }

theorem lookup_eq_some_iff {chain : DiscoveryChain} {workId : Bytes32} {work : OnChainWork} :
    chain.lookup workId = .ok (some work) ↔
      chain.Up ∧ chain.registry.isRegistered workId = true ∧ work = facts chain.registry workId ∧
        work.pricePerMin < 2 ^ 64 ∧ work.bandwidthRate < 2 ^ 64 := by
  constructor
  · intro h
    unfold lookup at h
    split at h
    · cases h
    rename_i hurl
    rcases bind_ok.1 h with ⟨registered, hregistered, h⟩
    rcases call_eq_ok_iff.1 hregistered with ⟨hisRegistered, rfl⟩
    split at h
    · cases h
    rename_i hknown
    rcases bind_ok.1 h with ⟨price, hprice, h⟩
    rcases bind_ok.1 h with ⟨rate, hrate, h⟩
    rcases bind_ok.1 h with ⟨region, hregion, h⟩
    rcases bind_ok.1 h with ⟨registrant, hregistrant, h⟩
    rcases bind_ok.1 h with ⟨price', hprice', h⟩
    rcases bind_ok.1 h with ⟨rate', hrate', h⟩
    rcases call_eq_ok_iff.1 hprice with ⟨hpriceOf, rfl⟩
    rcases call_eq_ok_iff.1 hrate with ⟨hrateOf, rfl⟩
    rcases call_eq_ok_iff.1 hregion with ⟨hregionOf, rfl⟩
    rcases call_eq_ok_iff.1 hregistrant with ⟨hregistrantOf, rfl⟩
    rcases toU64_eq_ok_iff.1 hprice' with ⟨hpriceFits, rfl⟩
    rcases toU64_eq_ok_iff.1 hrate' with ⟨hrateFits, rfl⟩
    cases h
    refine ⟨⟨by simpa using hurl, ?_⟩, by simpa using hknown, rfl, hpriceFits, hrateFits⟩
    intro c
    cases c with
    | isRegistered => exact hisRegistered
    | pricePerMinOf => exact hpriceOf
    | bandwidthRateOf => exact hrateOf
    | regionRuleOf => exact hregionOf
    | registrantOf => exact hregistrantOf
  · rintro ⟨⟨hurl, hup⟩, hregistered, rfl, hprice, hrate⟩
    have hcall : ∀ {α : Type} (c : RegistryCall) (value : α), chain.call c value = .ok value :=
      fun c value => call_eq_ok_iff.2 ⟨hup c, rfl⟩
    have hpriceFits : toU64 (chain.registry.works workId).pricePerMin "price overflow" = .ok _ :=
      toU64_eq_ok_iff.2 ⟨hprice, rfl⟩
    have hrateFits :
        toU64 (chain.registry.works workId).bandwidthRate "bandwidth rate overflow" = .ok _ :=
      toU64_eq_ok_iff.2 ⟨hrate, rfl⟩
    unfold lookup
    simp only [hurl, hcall, hregistered, Bool.not_true, Bool.false_eq_true, if_false]
    change (toU64 _ _ >>= _) = _
    rw [hpriceFits]
    change (toU64 _ _ >>= _) = _
    rw [hrateFits]
    rfl

end DiscoveryChain
end Hub
end CleanWeb
