import CleanWeb.Contracts.Identity

/-!
# The work registry (`contracts/CWERegistry.sol`)

`ecrecover` is a parameter next to `keccak256`.  `registerWork_cases` says what a registration
leaves in storage; `WellFormed` is the invariant that every release and withdrawal relies on.
-/

namespace CleanWeb
namespace Contracts

open Lib Lib.Exec Lib.BigEndian Bytes32

/-- The signer of a hash under `(v, r, s)`, zero where there is none. -/
abbrev Ecrecover := Bytes32 → UInt8 → Bytes32 → Bytes32 → Address

structure Work where
  payees : List Address
  splits : List Nat
  pricePerMin : Nat
  regionRule : Bytes32
  registrant : Address
  exists_ : Bool
  contentId : Bytes32
  registeredAt : Nat
  bandwidthRate : Nat
  deriving DecidableEq, Repr

instance : Inhabited Work :=
  ⟨[], [], 0, 0, 0, false, 0, 0, 0⟩

/-- The arguments of `registerWork`. -/
structure Registration where
  workId : Bytes32
  contentId : Bytes32
  payees : List Address
  splits : List Nat
  consentSigs : List (List UInt8)
  pricePerMin : Nat
  regionRule : Bytes32
  deriving DecidableEq, Repr

structure CWERegistry where
  owner : Address
  works : Bytes32 → Work

namespace CWERegistry

def ppmTotal : Nat := 1000000

def minBandwidthRate : Nat := 60000

def maxBandwidthRate : Nat := 2000000000

def init (initialOwner : Address) : CWERegistry :=
  ⟨initialOwner, fun _ => default⟩

def payeesOf (st : CWERegistry) (workId : Bytes32) : List Address :=
  (st.works workId).payees

def splitsOf (st : CWERegistry) (workId : Bytes32) : List Nat :=
  (st.works workId).splits

def isRegistered (st : CWERegistry) (workId : Bytes32) : Bool :=
  (st.works workId).exists_

def contentIdOf (st : CWERegistry) (workId : Bytes32) : Bytes32 :=
  (st.works workId).contentId

def registeredAtOf (st : CWERegistry) (workId : Bytes32) : Nat :=
  (st.works workId).registeredAt

/-! ## Consent -/

def consentDigest (keccak256 : Keccak) (workId contentId : Bytes32) (payee : Address)
    (share : Nat) : Bytes32 :=
  keccak256 (bytes workId ++ bytes contentId ++ addressWord payee ++ toBytes 32 share)

/-- The EIP-191 digest of a 32-byte message. -/
def ethSigned (keccak256 : Keccak) (digest : Bytes32) : Bytes32 :=
  keccak256 (25 :: ascii "Ethereum Signed Message:\n32" ++ bytes digest)

/-- `_recover`: a packed `(r, s, v)`. -/
def recover (ecrecover : Ecrecover) (hash : Bytes32) (sig : List UInt8) : Exec Revert Address :=
  if sig.length ≠ 65 then fail .badConsent
  else
    let r := BitVec.ofNat 256 (ofBytes (sig.take 32))
    let s := BitVec.ofNat 256 (ofBytes ((sig.drop 32).take 32))
    let v := sig.getD 64 0
    pure (ecrecover hash v r s)

/-- One turn of the consent loop. -/
def consentStep (keccak256 : Keccak) (ecrecover : Ecrecover) (workId contentId : Bytes32)
    (_ : Unit) (e : (Address × Nat) × List UInt8) : Exec Revert Unit := do
  let digest := consentDigest keccak256 workId contentId e.1.1 e.1.2
  let signer ← recover ecrecover (ethSigned keccak256 digest) e.2
  if signer ≠ e.1.1 then fail .badConsent else pure ()

/-! ## Splits -/

/-- One turn of the loop of `_validateSplits`. -/
def splitStep (sum : Nat) (e : Address × Nat) : Exec Revert Nat :=
  if e.1 = 0 then fail .zeroPayee
  else if e.2 = 0 then fail .zeroSplit
  else addU 256 sum e.2

def validateSplits (payees : List Address) (splits : List Nat) : Exec Revert Unit :=
  if payees.length = 0 ∨ payees.length ≠ splits.length then fail .badArrayLengths
  else do
    let sum ← (payees.zip splits).foldlM splitStep 0
    if sum ≠ ppmTotal then fail (.splitsNotFull sum) else pure ()

/-! ## Entry points -/

/-- The record after a registration by `sender`: only a first one sets registrant and time. -/
def register (sender : Address) (timestamp : Nat) (r : Registration) (work : Work) :
    Exec Revert Work :=
  let written : Work :=
    { work with
      payees := r.payees
      splits := r.splits
      pricePerMin := r.pricePerMin
      regionRule := r.regionRule
      contentId := r.contentId }
  if !work.exists_ then
    pure { written with registrant := sender, exists_ := true, registeredAt := timestamp }
  else if work.registrant ≠ sender then fail .notRegistrant
  else pure written

def registerWork (keccak256 : Keccak) (ecrecover : Ecrecover) (identity : CWEIdentity)
    (st : CWERegistry) (sender : Address) (timestamp : Nat) (r : Registration) :
    Exec Revert CWERegistry := do
  if !identity.isValid keccak256 timestamp sender (CredentialTypes.verifiedCreator keccak256) then
    fail .notVerifiedCreator
  else
    validateSplits r.payees r.splits
    if r.consentSigs.length ≠ r.payees.length then fail .badArrayLengths
    else
      ((r.payees.zip r.splits).zip r.consentSigs).foldlM
        (consentStep keccak256 ecrecover r.workId r.contentId) ()
      let work ← register sender timestamp r (st.works r.workId)
      pure { st with works := Function.update st.works r.workId work }

def setBandwidthRate (st : CWERegistry) (sender : Address) (workId : Bytes32) (rate : Nat) :
    Exec Revert CWERegistry :=
  let w := st.works workId
  if sender ≠ w.registrant then fail .notRegistrant
  else if rate < minBandwidthRate ∨ maxBandwidthRate < rate then fail .badBandwidthRate
  else pure { st with works := Function.update st.works workId { w with bandwidthRate := rate } }

/-! ## What a registration leaves -/

/-- The payees of a work can be paid: there is one, and the shares are the whole. -/
structure Payable (w : Work) : Prop where
  nonempty : w.payees ≠ []
  lengths : w.splits.length = w.payees.length
  full : w.splits.sum = ppmTotal

/-- What `_validateSplits` checks. -/
structure ValidSplits (payees : List Address) (splits : List Nat) : Prop where
  nonempty : payees ≠ []
  lengths : splits.length = payees.length
  payees_ne_zero : ∀ payee ∈ payees, payee ≠ 0
  splits_ne_zero : ∀ split ∈ splits, split ≠ 0
  full : splits.sum = ppmTotal

theorem splitsLoop_ok {entries : List (Address × Nat)} {start sum : Nat}
    (h : entries.foldlM splitStep start = .ok sum) :
    (∀ e ∈ entries, e.1 ≠ 0 ∧ e.2 ≠ 0) ∧ sum = start + (entries.map Prod.snd).sum := by
  induction entries generalizing start with
  | nil =>
      cases h
      simp
  | cons e entries ih =>
      rw [List.foldlM_cons] at h
      rcases bind_eq_ok.1 h with ⟨next, hstep, hrest⟩
      rcases ih hrest with ⟨hall, hsum⟩
      unfold splitStep at hstep
      split at hstep
      · cases hstep
      rename_i hpayee
      split at hstep
      · cases hstep
      rename_i hsplit
      rcases addU_eq_ok.1 hstep with ⟨-, rfl⟩
      refine ⟨?_, ?_⟩
      · intro e' he'
        rcases List.mem_cons.1 he' with rfl | he'
        · exact ⟨hpayee, hsplit⟩
        · exact hall e' he'
      · rw [hsum, List.map_cons, List.sum_cons, Nat.add_assoc]

theorem validateSplits_ok {payees : List Address} {splits : List Nat}
    (h : validateSplits payees splits = .ok ()) : ValidSplits payees splits := by
  unfold validateSplits at h
  split at h
  · simp [fail] at h
  rename_i hlen
  push Not at hlen
  rcases bind_eq_ok.1 h with ⟨sum, hloop, hcheck⟩
  rcases splitsLoop_ok hloop with ⟨hall, hsum⟩
  split at hcheck
  · simp [fail] at hcheck
  rename_i hfull
  have hfst : (payees.zip splits).map Prod.fst = payees := List.map_fst_zip hlen.2.le
  have hsnd : (payees.zip splits).map Prod.snd = splits := List.map_snd_zip hlen.2.ge
  refine ⟨by simpa using hlen.1, hlen.2.symm, ?_, ?_, ?_⟩
  · intro payee hpayee
    rw [← hfst] at hpayee
    rcases List.mem_map.1 hpayee with ⟨e, he, rfl⟩
    exact (hall e he).1
  · intro split hsplit
    rw [← hsnd] at hsplit
    rcases List.mem_map.1 hsplit with ⟨e, he, rfl⟩
    exact (hall e he).2
  · rw [hsnd, Nat.zero_add] at hsum
    rw [← hsum]
    exact not_not.1 hfull

/-- Every payee has signed the own share of this work and content. -/
structure Consented (keccak256 : Keccak) (ecrecover : Ecrecover) (r : Registration) : Prop where
  signatures : r.consentSigs.length = r.payees.length
  signed : ∀ (i : Nat) (payee : Address) (share : Nat) (sig : List UInt8),
    r.payees[i]? = some payee → r.splits[i]? = some share → r.consentSigs[i]? = some sig →
      recover ecrecover
        (ethSigned keccak256 (consentDigest keccak256 r.workId r.contentId payee share)) sig =
          .ok payee

theorem consentLoop_ok {keccak256 : Keccak} {ecrecover : Ecrecover} {workId contentId : Bytes32}
    {entries : List ((Address × Nat) × List UInt8)}
    (h : entries.foldlM (consentStep keccak256 ecrecover workId contentId) () = .ok ()) :
    ∀ e ∈ entries, recover ecrecover
      (ethSigned keccak256 (consentDigest keccak256 workId contentId e.1.1 e.1.2)) e.2 =
        .ok e.1.1 := by
  induction entries with
  | nil => simp
  | cons e entries ih =>
      rw [List.foldlM_cons] at h
      rcases bind_eq_ok.1 h with ⟨_, hstep, hrest⟩
      rcases bind_eq_ok.1 hstep with ⟨signer, hsigner, hcheck⟩
      split at hcheck
      · simp [fail] at hcheck
      rename_i hsame
      intro e' he'
      rcases List.mem_cons.1 he' with rfl | he'
      · rwa [not_not.1 hsame] at hsigner
      · exact ih hrest e' he'

/-- The record after a registration: the first one sets registrant and time, and every later one is
the registrant's and keeps them. -/
structure Written (sender : Address) (timestamp : Nat) (r : Registration) (old new : Work) :
    Prop where
  payees : new.payees = r.payees
  splits : new.splits = r.splits
  contentId : new.contentId = r.contentId
  exists_ : new.exists_ = true
  origin : (old.exists_ = false ∧ new.registrant = sender ∧ new.registeredAt = timestamp) ∨
    (old.exists_ = true ∧ old.registrant = sender ∧ new.registrant = old.registrant ∧
      new.registeredAt = old.registeredAt)

theorem register_ok {sender : Address} {timestamp : Nat} {r : Registration} {old new : Work}
    (h : register sender timestamp r old = .ok new) : Written sender timestamp r old new := by
  unfold register at h
  dsimp only at h
  split at h
  · rename_i hnew
    cases h
    exact ⟨rfl, rfl, rfl, rfl, Or.inl ⟨by simpa using hnew, rfl, rfl⟩⟩
  rename_i hold
  split at h
  · simp [fail] at h
  · rename_i hsender
    cases h
    have hold' : old.exists_ = true := by
      simpa using hold
    exact ⟨rfl, rfl, rfl, hold', Or.inr ⟨hold', not_not.1 hsender, rfl, rfl⟩⟩

theorem registerWork_ok {keccak256 : Keccak} {ecrecover : Ecrecover} {identity : CWEIdentity}
    {st st' : CWERegistry} {sender : Address} {timestamp : Nat} {r : Registration}
    (h : registerWork keccak256 ecrecover identity st sender timestamp r = .ok st') :
    ValidSplits r.payees r.splits ∧ Consented keccak256 ecrecover r ∧
      ∃ work, Written sender timestamp r (st.works r.workId) work ∧
        st' = { st with works := Function.update st.works r.workId work } := by
  unfold registerWork at h
  split at h
  · simp [fail] at h
  rcases bind_eq_ok.1 h with ⟨_, hsplits, h⟩
  have hvalid := validateSplits_ok hsplits
  split at h
  · simp [fail] at h
  rename_i hsigs
  rcases bind_eq_ok.1 h with ⟨_, hloop, h⟩
  rcases bind_eq_ok.1 h with ⟨work, hwork, h⟩
  cases h
  refine ⟨hvalid, ⟨not_not.1 hsigs, ?_⟩, work, register_ok hwork, rfl⟩
  intro i payee share sig hpayee hshare hsig
  have hentry : ((r.payees.zip r.splits).zip r.consentSigs)[i]? = some ((payee, share), sig) := by
    rw [List.getElem?_zip_eq_some, List.getElem?_zip_eq_some]
    exact ⟨⟨hpayee, hshare⟩, hsig⟩
  exact consentLoop_ok hloop ((payee, share), sig) (List.mem_of_getElem? hentry)

/-- The record that a registration of `r` writes over `old`. -/
structure Registered (timestamp : Nat) (r : Registration) (old new : Work) : Prop where
  payable : Payable new
  exists_ : new.exists_ = true
  contentId : new.contentId = r.contentId
  registeredAt : new.registeredAt = if old.exists_ then old.registeredAt else timestamp

theorem registerWork_cases {keccak256 : Keccak} {ecrecover : Ecrecover} {identity : CWEIdentity}
    {st st' : CWERegistry} {sender : Address} {timestamp : Nat} {r : Registration}
    (h : registerWork keccak256 ecrecover identity st sender timestamp r = .ok st') :
    ∃ work, st' = { st with works := Function.update st.works r.workId work } ∧
      Registered timestamp r (st.works r.workId) work := by
  rcases registerWork_ok h with ⟨hvalid, -, work, hwritten, rfl⟩
  refine ⟨work, rfl, ⟨?_, ?_, ?_⟩, hwritten.exists_, hwritten.contentId, ?_⟩
  · rw [hwritten.payees]
    exact hvalid.nonempty
  · rw [hwritten.payees, hwritten.splits]
    exact hvalid.lengths
  · rw [hwritten.splits]
    exact hvalid.full
  · rcases hwritten.origin with ⟨hnew, -, htime⟩ | ⟨hold, -, -, htime⟩
    · rw [htime, hnew]
      rfl
    · rw [htime, hold]
      rfl

/-- Setting a rate changes nothing that a payment or a dispute reads. -/
theorem setBandwidthRate_cases {st st' : CWERegistry} {sender : Address} {workId : Bytes32}
    {rate : Nat} (h : setBandwidthRate st sender workId rate = .ok st') :
    st' = { st with
      works := Function.update st.works workId
        { st.works workId with bandwidthRate := rate } } := by
  unfold setBandwidthRate at h
  dsimp only at h
  split at h
  · simp [fail] at h
  split at h
  · simp [fail] at h
  cases h
  rfl

/-! ## The invariant -/

/-- A work is either registered and payable, or untouched. -/
structure WorkFormed (w : Work) : Prop where
  payable : w.exists_ = true → Payable w
  fresh : w.exists_ = false → w.payees = [] ∧ w.contentId = 0 ∧ w.registeredAt = 0

def WellFormed (st : CWERegistry) : Prop :=
  ∀ workId, WorkFormed (st.works workId)

theorem init_wellFormed (owner : Address) : (init owner).WellFormed := by
  intro workId
  exact ⟨by simp [init, default], fun _ => ⟨rfl, rfl, rfl⟩⟩

theorem wellFormed_update {st : CWERegistry} {workId : Bytes32} {work : Work}
    (h : st.WellFormed) (hwork : WorkFormed work) :
    WellFormed { st with works := Function.update st.works workId work } := by
  intro id
  by_cases hid : id = workId
  · subst hid
    simpa using hwork
  · simpa [hid] using h id

theorem Registered.formed {timestamp : Nat} {r : Registration} {old new : Work}
    (h : Registered timestamp r old new) : WorkFormed new := by
  refine ⟨fun _ => h.payable, ?_⟩
  intro hfresh
  rw [h.exists_] at hfresh
  cases hfresh

theorem bandwidth_wellFormed {st : CWERegistry} (h : st.WellFormed) (workId : Bytes32)
    (rate : Nat) :
    WellFormed { st with
      works :=
        Function.update st.works workId { st.works workId with bandwidthRate := rate } } := by
  have hwork := h workId
  refine wellFormed_update h ⟨?_, hwork.fresh⟩
  intro hexists
  have hpay := hwork.payable hexists
  exact ⟨hpay.nonempty, hpay.lengths, hpay.full⟩

/-- A work with payees is registered, so its splits are the whole. -/
theorem WellFormed.payable_of_payees {st : CWERegistry} (h : st.WellFormed) {workId : Bytes32}
    (hne : st.payeesOf workId ≠ []) : Payable (st.works workId) := by
  refine (h workId).payable ?_
  by_contra hfresh
  exact hne ((h workId).fresh (eq_false_of_ne_true hfresh)).1

end CWERegistry
end Contracts
end CleanWeb
