import CleanWeb.Contracts.CommitOnce
import CleanWeb.Contracts.PayLoop
import CleanWeb.Lib.Clocked

/-!
# Registered works are paid in full

What every registered work carries with it in every reachable state (`Vouched`): splits that are
the whole, the consent of each payee, its first registrant and registration time.  This is all that
the pay loops of `CWEPayouts` and `CWEEscrow` need to disperse any credit completely.
-/

namespace CleanWeb
namespace Contracts

open Lib Lib.Exec Lib.BigEndian Bytes32

/-! ## The two pay loops -/

def CWEPayouts.payer : Payment.Payer CWEPayouts where
  balance := CWEPayouts.balance
  receive := CWEPayouts.receive
  returned := CWEPayouts.payeeReturned
  balance_receive _ _ := rfl
  returned_last st p hlast := by
    refine ⟨{ st with status := .notEntered }, ?_⟩
    rw [CWEPayouts.payeeReturned, hlast]
    rfl
  returned_next st p q s hnext hsend := by
    refine ⟨{ st with balance := s.balance }, ?_, rfl⟩
    rw [CWEPayouts.payeeReturned, hnext]
    simp only [hsend, ok_bind]
    rfl

def CWEEscrow.payer : Payment.Payer CWEEscrow where
  balance := CWEEscrow.balance
  receive := CWEEscrow.receive
  returned := CWEEscrow.payeeReturned
  balance_receive _ _ := rfl
  returned_last st p hlast := by
    refine ⟨{ st with status := .notEntered }, ?_⟩
    rw [CWEEscrow.payeeReturned, hlast]
    rfl
  returned_next st p q s hnext hsend := by
    refine ⟨{ st with balance := s.balance }, ?_, rfl⟩
    rw [CWEEscrow.payeeReturned, hnext]
    simp only [hsend, ok_bind]
    rfl

/-- A withdrawal passes the checks of `withdraw`, and the pool is solvent. -/
structure CWEPayouts.Claimable (keccak256 : Keccak) (st : CWEPayouts) (epochId : Nat)
    (workId : Bytes32) (amount : Nat) (proof : List Bytes32) : Prop where
  status : st.status = .notEntered
  committed : st.epochCommitted epochId = true
  unpaid : st.withdrawn (epochId, workId) = false
  proof : MerkleProof.verify keccak256 proof (st.epochRoot epochId)
    (leafHash keccak256 workId amount) = true
  owed : amount ≤ st.liability
  solvent : st.liability ≤ st.balance

/-- A release passes the checks of `release`, and the escrow is solvent. -/
structure CWEEscrow.Releasable (timestamp : Nat) (st : CWEEscrow) (epochId : Nat)
    (workId : Bytes32) : Prop where
  status : st.status = .notEntered
  mature : Mature timestamp (st.escrows (epochId, workId))
  owed : (st.escrows (epochId, workId)).amount ≤ st.liability
  solvent : st.liability ≤ st.balance

/-- The whole of `withdraw`, with `incoming i` arriving while `payees[i]` runs. -/
def CWEPayouts.withdrawAll (keccak256 : Keccak) (registry : CWERegistry) (st : CWEPayouts)
    (epochId : Nat) (workId : Bytes32) (amount : Nat) (proof : List Bytes32)
    (incoming : Nat → Nat) : Exec Revert (CWEPayouts × List (Address × Nat)) := do
  let out ← withdraw keccak256 registry st epochId workId amount proof
  payer.transfers incoming (registry.payeesOf workId).length out.1 out.2

/-- The whole of `release`. -/
def CWEEscrow.releaseAll (registry : CWERegistry) (st : CWEEscrow) (timestamp epochId : Nat)
    (workId : Bytes32) (incoming : Nat → Nat) :
    Exec Revert (CWEEscrow × List (Address × Nat)) := do
  let out ← release registry st timestamp epochId workId
  payer.transfers incoming (registry.payeesOf workId).length out.1 out.2

section Loops

variable {keccak256 : Keccak} {registry : CWERegistry} {workId : Bytes32} {epochId : Nat}

theorem CWEPayouts.withdrawAll_ok {st : CWEPayouts} {amount : Nat} {proof : List Bytes32}
    (hw : CWERegistry.Payable (registry.works workId)) (hamount : amount < 2 ^ 128)
    (h : st.Claimable keccak256 epochId workId amount proof) (incoming : Nat → Nat) :
    ∃ st' paid, withdrawAll keccak256 registry st epochId workId amount proof incoming =
      .ok (st', paid) ∧
        Dispersed (registry.payeesOf workId) (registry.splitsOf workId) amount paid := by
  have hready : Payment.Ready (payment registry epochId workId amount) :=
    Payment.start_ready hw amount
  have hfits : amount < 2 ^ 236 := hamount.trans (by decide)
  rcases payer.transfers_of_start incoming hready rfl hfits (h.owed.trans h.solvent) with
    ⟨s, hsend, hrest⟩
  rcases hrest (withdrawing st epochId workId amount s.balance) rfl with ⟨st', paid, hrun, hpaid⟩
  refine ⟨st', paid, ?_, hpaid⟩
  rw [withdrawAll, withdraw_of_provable h.status h.committed h.unpaid h.proof hw.nonempty h.owed,
    hsend]
  exact hrun

theorem CWEEscrow.releaseAll_ok {st : CWEEscrow} {timestamp : Nat}
    (hw : CWERegistry.Payable (registry.works workId))
    (hamount : (st.escrows (epochId, workId)).amount < 2 ^ 128)
    (h : st.Releasable timestamp epochId workId) (incoming : Nat → Nat) :
    ∃ st' paid, releaseAll registry st timestamp epochId workId incoming = .ok (st', paid) ∧
      Dispersed (registry.payeesOf workId) (registry.splitsOf workId)
        (st.escrows (epochId, workId)).amount paid := by
  have hready : Payment.Ready (payment registry st epochId workId) :=
    Payment.start_ready hw _
  have hfits : (st.escrows (epochId, workId)).amount < 2 ^ 236 := hamount.trans (by decide)
  rcases payer.transfers_of_start incoming hready rfl hfits (h.owed.trans h.solvent) with
    ⟨s, hsend, hrest⟩
  rcases hrest (releasing st epochId workId s.balance) rfl with ⟨st', paid, hrun, hpaid⟩
  refine ⟨st', paid, ?_, hpaid⟩
  rw [releaseAll, release_of_mature h.status h.mature hw.nonempty h.owed, hsend]
  exact hrun

end Loops

/-! ## What a registered work carries -/

/-- What the calls that went through say about the work under an id. -/
structure Vouched (keccak256 : Keccak) (ecrecover : Ecrecover)
    (calls : List (Accepted Records Address RecordCall)) (workId : Bytes32) (w : Work) :
    Prop where
  splits : CWERegistry.ValidSplits w.payees w.splits
  consent : ∃ e ∈ calls, ∃ r, e.call = .registerWork r ∧ r.workId = workId ∧
    r.contentId = w.contentId ∧ r.payees = w.payees ∧ r.splits = w.splits ∧
      CWERegistry.Consented keccak256 ecrecover r
  first : ∃ e ∈ calls, ∃ r, e.call = .registerWork r ∧ r.workId = workId ∧
    e.before.state.registry.isRegistered workId = false ∧ w.registrant = e.sender ∧
      w.registeredAt = e.before.timestamp

/-- What every call leaves of a registered work. -/
structure SameOrigin (w w' : Work) : Prop where
  exists_ : w'.exists_ = true
  registrant : w'.registrant = w.registrant
  registeredAt : w'.registeredAt = w.registeredAt

section Steps

variable {keccak256 : Keccak} {ecrecover : Ecrecover} {timestamp : Nat} {st st' : Records}
variable {sender : Address} {c : RecordCall} {workId : Bytes32}

/-- What a call does to the works. -/
theorem RecordEffect.works (h : RecordEffect timestamp st c st') :
    st'.registry.works = st.registry.works ∨ (∃ r, c = .registerWork r) ∨
      ∃ workId rate, st'.registry.works = Function.update st.registry.works workId
        { st.registry.works workId with bandwidthRate := rate } := by
  cases h with
  | identity c hc identity => exact Or.inl rfl
  | owner c hc owner => exact Or.inl rfl
  | register r work hwork => exact Or.inr (Or.inl ⟨r, rfl⟩)
  | bandwidth workId rate => exact Or.inr (Or.inr ⟨workId, rate, rfl⟩)

theorem Records.exec_registerWork {r : Registration}
    (h : st.exec keccak256 ecrecover timestamp sender (.registerWork r) = .ok st') :
    CWERegistry.ValidSplits r.payees r.splits ∧ CWERegistry.Consented keccak256 ecrecover r ∧
      ∃ work, CWERegistry.Written sender timestamp r (st.registry.works r.workId) work ∧
        st'.registry.works = Function.update st.registry.works r.workId work := by
  rcases bind_eq_ok.1 h with ⟨registry, hregistry, hst⟩
  cases hst
  rcases CWERegistry.registerWork_ok hregistry with ⟨hvalid, hconsent, work, hwritten, rfl⟩
  exact ⟨hvalid, hconsent, work, hwritten, rfl⟩

theorem sameOrigin_exec (h : st.exec keccak256 ecrecover timestamp sender c = .ok st')
    (hw : (st.registry.works workId).exists_ = true) :
    SameOrigin (st.registry.works workId) (st'.registry.works workId) := by
  rcases (recordEffect_of_exec h).works with hsame | ⟨r, rfl⟩ | ⟨x, rate, hset⟩
  · rw [hsame]
    exact ⟨hw, rfl, rfl⟩
  · rcases Records.exec_registerWork h with ⟨-, -, work, hwritten, hworks⟩
    rw [hworks]
    by_cases hid : workId = r.workId
    · subst hid
      rw [Function.update_self]
      rcases hwritten.origin with ⟨hnew, -⟩ | ⟨-, -, hregistrant, htime⟩
      · rw [hw] at hnew
        cases hnew
      · exact ⟨hwritten.exists_, hregistrant, htime⟩
    · rw [Function.update_of_ne hid]
      exact ⟨hw, rfl, rfl⟩
  · rw [hset]
    by_cases hid : workId = x
    · subst hid
      rw [Function.update_self]
      exact ⟨hw, rfl, rfl⟩
    · rw [Function.update_of_ne hid]
      exact ⟨hw, rfl, rfl⟩

variable {calls more : List (Accepted Records Address RecordCall)} {w w' : Work}

theorem Vouched.append (h : Vouched keccak256 ecrecover calls workId w) :
    Vouched keccak256 ecrecover (calls ++ more) workId w := by
  rcases h.consent with ⟨e, he, hconsent⟩
  rcases h.first with ⟨f, hf, hfirst⟩
  exact ⟨h.splits, ⟨e, List.mem_append_left _ he, hconsent⟩, ⟨f, List.mem_append_left _ hf, hfirst⟩⟩

/-- A rate says nothing about payees, content or origin. -/
theorem Vouched.bandwidth (h : Vouched keccak256 ecrecover calls workId w) (rate : Nat) :
    Vouched keccak256 ecrecover calls workId { w with bandwidthRate := rate } :=
  ⟨h.splits, h.consent, h.first⟩

/-- A registration that goes through vouches for the work it writes. -/
theorem Vouched.written {d : Clocked Records} {r : Registration}
    (hold : (d.state.registry.works r.workId).exists_ = true →
      Vouched keccak256 ecrecover calls r.workId (d.state.registry.works r.workId))
    (hvalid : CWERegistry.ValidSplits r.payees r.splits)
    (hconsent : CWERegistry.Consented keccak256 ecrecover r)
    (hw : CWERegistry.Written sender d.timestamp r (d.state.registry.works r.workId) w) :
    Vouched keccak256 ecrecover (calls ++ [⟨d, sender, .registerWork r⟩]) r.workId w := by
  have hlast : (⟨d, sender, .registerWork r⟩ : Accepted Records Address RecordCall) ∈
      calls ++ [⟨d, sender, .registerWork r⟩] := by
    simp
  refine ⟨?_, ⟨_, hlast, r, rfl, rfl, hw.contentId.symm, hw.payees.symm, hw.splits.symm, hconsent⟩,
    ?_⟩
  · rw [hw.payees, hw.splits]
    exact hvalid
  · rcases hw.origin with ⟨hnew, hregistrant, htime⟩ | ⟨hexists, -, hregistrant, htime⟩
    · exact ⟨_, hlast, r, rfl, rfl, hnew, hregistrant, htime⟩
    · rcases (hold hexists).first with ⟨e, he, r', hcall, hid, hfresh, hsender, hat⟩
      exact ⟨e, List.mem_append_left _ he, r', hcall, hid, hfresh, hregistrant.trans hsender,
        htime.trans hat⟩

end Steps

/-! ## Every run -/

def Records.deployed (identityOwner registryOwner : Address) (timestamp : Nat) : Clocked Records :=
  ⟨timestamp, CWEIdentity.init identityOwner, CWERegistry.init registryOwner⟩

section Run

variable (keccak256 : Keccak) (ecrecover : Ecrecover) (identityOwner registryOwner : Address)
variable (timestamp : Nat)

theorem vouched_run (txs : List (Tx Address RecordCall)) (workId : Bytes32) :
    let start := Records.deployed identityOwner registryOwner timestamp
    let c := Clocked.run (Records.exec keccak256 ecrecover) start txs
    (c.state.registry.works workId).exists_ = true →
      Vouched keccak256 ecrecover (Clocked.log (Records.exec keccak256 ecrecover) start txs)
        workId (c.state.registry.works workId) := by
  intro start c
  revert workId
  refine Clocked.run_inv (P := fun (calls : List (Accepted Records Address RecordCall))
    (d : Clocked Records) => ∀ workId, (d.state.registry.works workId).exists_ = true →
      Vouched keccak256 ecrecover calls workId (d.state.registry.works workId)) ?_ ?_ ?_ txs
  · intro workId hexists
    cases hexists
  · intro calls d seconds h
    exact h
  · intro calls d sender k state h hok workId hexists
    dsimp only at hexists ⊢
    rcases (recordEffect_of_exec hok).works with hsame | ⟨r, rfl⟩ | ⟨x, rate, hset⟩
    · rw [hsame] at hexists ⊢
      exact (h workId hexists).append
    · rcases Records.exec_registerWork hok with ⟨hvalid, hconsent, work, hwritten, hworks⟩
      rw [hworks] at hexists ⊢
      by_cases hid : workId = r.workId
      · subst hid
        rw [Function.update_self]
        exact Vouched.written (h r.workId) hvalid hconsent hwritten
      · rw [Function.update_of_ne hid] at hexists ⊢
        exact (h workId hexists).append
    · rw [hset] at hexists ⊢
      by_cases hid : workId = x
      · subst hid
        rw [Function.update_self] at hexists ⊢
        exact ((h workId hexists).bandwidth rate).append
      · rw [Function.update_of_ne hid] at hexists ⊢
        exact (h workId hexists).append

/-- In every reachable state, what is said of a registered work is true, stays so, and is enough to
pay out any credit below `2 ^ 128`. -/
theorem registered_dispersed (txs : List (Tx Address RecordCall)) (workId : Bytes32) :
    let start := Records.deployed identityOwner registryOwner timestamp
    let c := Clocked.run (Records.exec keccak256 ecrecover) start txs
    let registry := c.state.registry
    registry.isRegistered workId = true →
      Vouched keccak256 ecrecover (Clocked.log (Records.exec keccak256 ecrecover) start txs)
          workId (registry.works workId) ∧
        (∀ more, SameOrigin (registry.works workId)
          ((Clocked.run (Records.exec keccak256 ecrecover) c more).state.registry.works workId)) ∧
        (∀ (st : CWEPayouts) (epochId amount : Nat) (proof : List Bytes32) (incoming : Nat → Nat),
          amount < 2 ^ 128 → st.Claimable keccak256 epochId workId amount proof →
            ∃ st' paid, CWEPayouts.withdrawAll keccak256 registry st epochId workId amount proof
                incoming = .ok (st', paid) ∧
              Dispersed (registry.payeesOf workId) (registry.splitsOf workId) amount paid) ∧
        (∀ (st : CWEEscrow) (now epochId : Nat) (incoming : Nat → Nat),
          (st.escrows (epochId, workId)).amount < 2 ^ 128 → st.Releasable now epochId workId →
            ∃ st' paid, CWEEscrow.releaseAll registry st now epochId workId incoming =
                .ok (st', paid) ∧
              Dispersed (registry.payeesOf workId) (registry.splitsOf workId)
                (st.escrows (epochId, workId)).amount paid) := by
  intro start c registry hregistered
  have hvouched := vouched_run keccak256 ecrecover identityOwner registryOwner timestamp txs workId
    hregistered
  have hsplits := hvouched.splits
  have hpayable : CWERegistry.Payable (registry.works workId) :=
    ⟨hsplits.nonempty, hsplits.lengths, hsplits.full⟩
  refine ⟨hvouched, ?_, ?_, ?_⟩
  · intro more
    refine Clocked.run_state_inv (P := fun (s : Records) =>
      SameOrigin (registry.works workId) (s.registry.works workId)) ⟨hregistered, rfl, rfl⟩ ?_ more
    intro now s sender k s' h hok
    have hstep := sameOrigin_exec hok h.exists_
    exact ⟨hstep.exists_, hstep.registrant.trans h.registrant,
      hstep.registeredAt.trans h.registeredAt⟩
  · intro st epochId amount proof incoming hamount hclaim
    exact CWEPayouts.withdrawAll_ok hpayable hamount hclaim incoming
  · intro st now epochId incoming hamount hrelease
    exact CWEEscrow.releaseAll_ok hpayable hamount hrelease incoming

end Run

/-! ## A work with two payees -/

/-- The address of the private key 2. -/
def samplePartner : Address :=
  0x2b5ad5c4795c026514f8317c7a215e218dccd6cf

/-- `keccak256` on what the two payees of work 3 sign, for the content ids 7 and 5. -/
def pairKeccak : Keccak :=
  fun s => (List.lookup s
    [(bytes 3 ++ bytes 7 ++ addressWord samplePayee ++ toBytes 32 333333,
        0x103ab55e347869e352035a4487055c43f596d0d2782a5c14e8fefe685815e732),
      (25 :: ascii "Ethereum Signed Message:\n32" ++
          bytes 0x103ab55e347869e352035a4487055c43f596d0d2782a5c14e8fefe685815e732,
        0x71676bb4ff2157c70f6391e4875a068c88fff58e5708d900b1c4dabcd6b127ff),
      (bytes 3 ++ bytes 7 ++ addressWord samplePartner ++ toBytes 32 666667,
        0x1bdfe8d7a71a63300a61c48d01735bb3cd5e8ef97c65216e1334f103acf6051e),
      (25 :: ascii "Ethereum Signed Message:\n32" ++
          bytes 0x1bdfe8d7a71a63300a61c48d01735bb3cd5e8ef97c65216e1334f103acf6051e,
        0x5241be472e8cea22a7880d4bb025a9907782642c2b9fc9b527cebec05786a534),
      (bytes 3 ++ bytes 5 ++ addressWord samplePayee ++ toBytes 32 333333,
        0x27987aa36b957f0b00e8eea180092185fbae0fc70b4a8279507ad7fa37536ceb),
      (25 :: ascii "Ethereum Signed Message:\n32" ++
          bytes 0x27987aa36b957f0b00e8eea180092185fbae0fc70b4a8279507ad7fa37536ceb,
        0x0633082a661da77622b4d02c6e24b953bf7fa0e260648cfa65cda1b3d0b768a7),
      (bytes 3 ++ bytes 5 ++ addressWord samplePartner ++ toBytes 32 666667,
        0xe1919b15f12af3e8f83df275ef438c372173716fd268daa632fc784b47975eb9),
      (25 :: ascii "Ethereum Signed Message:\n32" ++
          bytes 0xe1919b15f12af3e8f83df275ef438c372173716fd268daa632fc784b47975eb9,
        0xb7b55a692d1f5cd4e79117747e757d4768c4b216d28cdc8797f27e9df2afc3dd)]).getD (sampleKeccak s)

/-- `ecrecover` on their signatures. -/
def pairEcrecover : Ecrecover :=
  fun hash v r s =>
    (List.lookup (hash, v, r, s) [
      ((0x71676bb4ff2157c70f6391e4875a068c88fff58e5708d900b1c4dabcd6b127ff, 28,
          0xbba6b62fc31af08e6a352881799ad653957e78dee8dd33ed5114c2d6201bfd5d,
          0x3ab5d2e522bffd95aacf849dfe31a016b28de0d764116f9b8a7d7bbc9562d6ec), samplePayee),
      ((0x5241be472e8cea22a7880d4bb025a9907782642c2b9fc9b527cebec05786a534, 28,
          0x37ffbedb3cbf0a6d3ccd7fd825461910e662ec1330d01b864a65fa9fb9f247f5,
          0x55a1e5d1eca07ee6069c691874ce0b20863942895dd439d45c391c9bea48baac), samplePartner),
      ((0x0633082a661da77622b4d02c6e24b953bf7fa0e260648cfa65cda1b3d0b768a7, 27,
          0x6a3061cee05b7f15062400ada39a31a0f41ce0ad0680490e5ff0e66ba4c9af8c,
          0x07819fe27e40f6c4f7d64a9fcdc89d108c2d3b42fb922867574b6892c5b94b95), samplePayee),
      ((0xb7b55a692d1f5cd4e79117747e757d4768c4b216d28cdc8797f27e9df2afc3dd, 28,
          0x7b4a1a11cfccc94d21bdea9f3b6b12e0d4840cbcb641c1bdd961c19d05dafaca,
          0x4021c8e9f055e5a5e86ffc61000ee482555585e20ab6451c5466761484288003),
        samplePartner)]).getD 0

def pairRegistration (contentId : Bytes32) (consentSigs : List (List UInt8)) : Registration :=
  { workId := 3
    contentId := contentId
    payees := [samplePayee, samplePartner]
    splits := [333333, 666667]
    consentSigs := consentSigs
    pricePerMin := 0
    regionRule := 0 }

/-- Work 3 is registered, and its registrant registers it once more under another content id. -/
def pairRegistrations : List (Tx Address RecordCall) :=
  [.call 0xa0 (.setIssuer 0xb0 true),
    .call 0xb0 (.attest 0xc0 (CredentialTypes.verifiedCreator sampleKeccak) 10000000000),
    .call 0xc0 (.registerWork (pairRegistration 7
      [bytes 0xbba6b62fc31af08e6a352881799ad653957e78dee8dd33ed5114c2d6201bfd5d ++
          bytes 0x3ab5d2e522bffd95aacf849dfe31a016b28de0d764116f9b8a7d7bbc9562d6ec ++ [28],
        bytes 0x37ffbedb3cbf0a6d3ccd7fd825461910e662ec1330d01b864a65fa9fb9f247f5 ++
          bytes 0x55a1e5d1eca07ee6069c691874ce0b20863942895dd439d45c391c9bea48baac ++ [28]])),
    .elapse 10,
    .call 0xc0 (.registerWork (pairRegistration 5
      [bytes 0x6a3061cee05b7f15062400ada39a31a0f41ce0ad0680490e5ff0e66ba4c9af8c ++
          bytes 0x07819fe27e40f6c4f7d64a9fcdc89d108c2d3b42fb922867574b6892c5b94b95 ++ [27],
        bytes 0x7b4a1a11cfccc94d21bdea9f3b6b12e0d4840cbcb641c1bdd961c19d05dafaca ++
          bytes 0x4021c8e9f055e5a5e86ffc61000ee482555585e20ab6451c5466761484288003 ++ [28]]))]

/-- An escrow that holds 101 wei for work 3, due in epoch 1. -/
def pairEscrow : CWEEscrow :=
  { CWEEscrow.init with
    balance := 101
    escrows := Function.update CWEEscrow.init.escrows (0, 3)
      { (default : Escrow) with
        amount := 101, releaseEpoch := 1, contentId := 7, committed := true }
    liability := 101 }

/-- The work is vouched for, and the 101 wei go to its two payees. -/
theorem registered_dispersed_pair :
    let c := Clocked.run (Records.exec pairKeccak pairEcrecover)
      (Records.deployed 0xa0 0xa0 1000) pairRegistrations
    c.state.registry.contentIdOf 3 = 5 ∧ c.state.registry.registeredAtOf 3 = 1000 ∧
      c.state.registry.payeesOf 3 = [samplePayee, samplePartner] ∧
      Vouched pairKeccak pairEcrecover (Clocked.log (Records.exec pairKeccak pairEcrecover)
        (Records.deployed 0xa0 0xa0 1000) pairRegistrations) 3 (c.state.registry.works 3) ∧
      ∃ st' paid, CWEEscrow.releaseAll c.state.registry pairEscrow 2592000 0 3 (fun _ => 1) =
          .ok (st', paid) ∧
        Dispersed (c.state.registry.payeesOf 3) (c.state.registry.splitsOf 3) 101 paid := by
  dsimp only
  rcases registered_dispersed pairKeccak pairEcrecover 0xa0 0xa0 1000 pairRegistrations 3
    (by decide +kernel) with ⟨hvouched, -, -, hrelease⟩
  refine ⟨by decide +kernel, by decide +kernel, by decide +kernel, hvouched, ?_⟩
  exact hrelease pairEscrow 2592000 0 (fun _ => 1) (by decide +kernel)
    ⟨rfl, ⟨rfl, rfl, rfl, by decide +kernel⟩, by decide +kernel, by decide +kernel⟩

end Contracts
end CleanWeb
