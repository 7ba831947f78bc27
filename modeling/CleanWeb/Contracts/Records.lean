import CleanWeb.Contracts.Registry

/-!
# Credentials and works together

The two contracts that every payment reads, with all their entry points.  `RecordEffect` says once
what a call can do to them.
-/

namespace CleanWeb
namespace Contracts

open Lib Lib.Exec

structure Records where
  identity : CWEIdentity
  registry : CWERegistry

inductive RecordCall where
  | transferIdentityOwnership (newOwner : Address)
  | setIssuer (issuer : Address) (trusted : Bool)
  | attest (subject : Address) (credType : Bytes32) (expiresAt : Nat)
  | revoke (subject : Address) (credType : Bytes32)
  | transferRegistryOwnership (newOwner : Address)
  | registerWork (r : Registration)
  | setBandwidthRate (workId : Bytes32) (rate : Nat)
  deriving DecidableEq, Repr

namespace Records

def exec (keccak256 : Keccak) (ecrecover : Ecrecover) (timestamp : Nat) (st : Records)
    (sender : Address) : RecordCall → Exec Revert Records
  | .transferIdentityOwnership newOwner => do
      let owner ← transferOwnership st.identity.owner sender newOwner
      pure { st with identity := { st.identity with owner := owner } }
  | .setIssuer issuer trusted => do
      let identity ← st.identity.setIssuer sender issuer trusted
      pure { st with identity := identity }
  | .attest subject credType expiresAt => do
      let identity ← st.identity.attest keccak256 sender timestamp subject credType expiresAt
      pure { st with identity := identity }
  | .revoke subject credType => do
      let identity ← st.identity.revoke keccak256 sender subject credType
      pure { st with identity := identity }
  | .transferRegistryOwnership newOwner => do
      let owner ← transferOwnership st.registry.owner sender newOwner
      pure { st with registry := { st.registry with owner := owner } }
  | .registerWork r => do
      let registry ←
        CWERegistry.registerWork keccak256 ecrecover st.identity st.registry sender timestamp r
      pure { st with registry := registry }
  | .setBandwidthRate workId rate => do
      let registry ← st.registry.setBandwidthRate sender workId rate
      pure { st with registry := registry }

end Records

/-- One successful call. -/
inductive RecordEffect (timestamp : Nat) (st : Records) : RecordCall → Records → Prop where
  | identity (c : RecordCall) (hc : ∀ r, c ≠ .registerWork r) (identity : CWEIdentity) :
      RecordEffect timestamp st c { st with identity := identity }
  | owner (c : RecordCall) (hc : ∀ r, c ≠ .registerWork r) (owner : Address) :
      RecordEffect timestamp st c { st with registry := { st.registry with owner := owner } }
  | register (r : Registration) (work : Work)
      (hwork : CWERegistry.Registered timestamp r (st.registry.works r.workId) work) :
      RecordEffect timestamp st (.registerWork r) { st with
        registry := { st.registry with works := Function.update st.registry.works r.workId work } }
  | bandwidth (workId : Bytes32) (rate : Nat) :
      RecordEffect timestamp st (.setBandwidthRate workId rate) { st with
        registry := { st.registry with
          works := Function.update st.registry.works workId
            { st.registry.works workId with bandwidthRate := rate } } }

theorem recordEffect_of_exec {keccak256 : Keccak} {ecrecover : Ecrecover} {timestamp : Nat}
    {st st' : Records} {sender : Address} {c : RecordCall}
    (h : st.exec keccak256 ecrecover timestamp sender c = .ok st') :
    RecordEffect timestamp st c st' := by
  cases c with
  | transferIdentityOwnership newOwner =>
      rcases bind_eq_ok.1 h with ⟨owner, -, h⟩
      cases h
      exact .identity _ (by simp) _
  | setIssuer issuer trusted =>
      rcases bind_eq_ok.1 h with ⟨identity, -, h⟩
      cases h
      exact .identity _ (by simp) identity
  | attest subject credType expiresAt =>
      rcases bind_eq_ok.1 h with ⟨identity, -, h⟩
      cases h
      exact .identity _ (by simp) identity
  | revoke subject credType =>
      rcases bind_eq_ok.1 h with ⟨identity, -, h⟩
      cases h
      exact .identity _ (by simp) identity
  | transferRegistryOwnership newOwner =>
      rcases bind_eq_ok.1 h with ⟨owner, -, h⟩
      cases h
      exact .owner _ (by simp) owner
  | registerWork r =>
      rcases bind_eq_ok.1 h with ⟨registry, hregistry, h⟩
      cases h
      rcases CWERegistry.registerWork_cases hregistry with ⟨work, rfl, hwork⟩
      exact .register r work hwork
  | setBandwidthRate workId rate =>
      rcases bind_eq_ok.1 h with ⟨registry, hregistry, h⟩
      cases h
      rw [CWERegistry.setBandwidthRate_cases hregistry]
      exact .bandwidth workId rate

theorem RecordEffect.wellFormed {timestamp : Nat} {st st' : Records} {c : RecordCall}
    (h : RecordEffect timestamp st c st') (hst : st.registry.WellFormed) :
    st'.registry.WellFormed := by
  cases h with
  | identity _ _ identity => exact hst
  | owner _ _ owner => exact hst
  | register r work hwork => exact CWERegistry.wellFormed_update hst hwork.formed
  | bandwidth workId rate => exact CWERegistry.bandwidth_wellFormed hst workId rate

/-- A registered work stays registered. -/
theorem RecordEffect.isRegistered {timestamp : Nat} {st st' : Records} {c : RecordCall}
    (h : RecordEffect timestamp st c st') {workId : Bytes32}
    (hworkId : st.registry.isRegistered workId = true) :
    st'.registry.isRegistered workId = true := by
  cases h with
  | identity _ _ identity => exact hworkId
  | owner _ _ owner => exact hworkId
  | register r work hwork =>
      by_cases hid : workId = r.workId
      · simp [CWERegistry.isRegistered, hid, hwork.exists_]
      · simpa [CWERegistry.isRegistered, hid] using hworkId
  | bandwidth x rate =>
      by_cases hid : workId = x
      · subst hid
        simpa [CWERegistry.isRegistered] using hworkId
      · simpa [CWERegistry.isRegistered, hid] using hworkId

end Contracts
end CleanWeb
