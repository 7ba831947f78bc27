import CleanWeb.Contracts.CommitOnce
import CleanWeb.Lib.Clocked

/-!
# What is left of an issuer that is removed

The contract says that one `setIssuer` call contains a compromised issuer.  Here a run is compared
with the run in which the issuer never attested or revoked anything.  `contained_iff` is the exact
condition for the two to agree once the issuer is removed: none of its calls hit a credential of
somebody else that still counted.
-/

namespace CleanWeb
namespace Contracts

open Lib Lib.Exec

inductive IdentityCall where
  | transferOwnership (newOwner : Address)
  | setIssuer (issuer : Address) (trusted : Bool)
  | attest (subject : Address) (credType : Bytes32) (expiresAt : Nat)
  | revoke (subject : Address) (credType : Bytes32)
  deriving DecidableEq, Repr

namespace IdentityCall

/-- The subject and type of the record that the call writes. -/
def target : IdentityCall → Option (Address × Bytes32)
  | .attest subject credType _ => some (subject, credType)
  | .revoke subject credType => some (subject, credType)
  | _ => none

end IdentityCall

namespace CWEIdentity

def exec (keccak256 : Keccak) (timestamp : Nat) (st : CWEIdentity) (sender : Address) :
    IdentityCall → Exec Revert CWEIdentity
  | .transferOwnership newOwner => do
      let owner ← Contracts.transferOwnership st.owner sender newOwner
      pure { st with owner := owner }
  | .setIssuer issuer trusted => st.setIssuer sender issuer trusted
  | .attest subject credType expiresAt =>
      st.attest keccak256 sender timestamp subject credType expiresAt
  | .revoke subject credType => st.revoke keccak256 sender subject credType

def deployed (owner : Address) (timestamp : Nat) : Clocked CWEIdentity :=
  ⟨timestamp, init owner⟩

end CWEIdentity

/-- The issuer attests or revokes. -/
def actsAsIssuer (issuer : Address) : Tx Address IdentityCall → Bool
  | .elapse _ => false
  | .call sender k => sender == issuer && k.target.isSome

/-- The credential does not count, now or later, unless `issuer` is trusted. -/
def Worthless (issuer : Address) (timestamp : Nat) (c : Credential) : Prop :=
  c.exists_ = false ∨ c.revoked = true ∨ c.expiresAt ≤ timestamp ∨ c.issuer = issuer

instance (issuer : Address) (timestamp : Nat) (c : Credential) :
    Decidable (Worthless issuer timestamp c) :=
  inferInstanceAs (Decidable (_ ∨ _ ∨ _ ∨ _))

/-- If the call is one of `issuer`'s, what it overwrites or revokes is worthless without it. -/
def Harmless (keccak256 : Keccak) (issuer : Address)
    (e : Accepted CWEIdentity Address IdentityCall) : Prop :=
  e.sender = issuer → ∀ subject credType, e.call.target = some (subject, credType) →
    Worthless issuer e.before.timestamp
      (e.before.state.credentials (CWEIdentity.key keccak256 subject credType))

/-- Where `issuer` is not trusted, every credential counts as it does without its calls. -/
def Contained (keccak256 : Keccak) (issuer : Address) (start : Clocked CWEIdentity)
    (txs : List (Tx Address IdentityCall)) : Prop :=
  let c := Clocked.run (CWEIdentity.exec keccak256) start txs
  let c' := Clocked.run (CWEIdentity.exec keccak256) start
    (Clocked.without (actsAsIssuer issuer) txs)
  c.state.isIssuer issuer = false → ∀ subject credType,
    c.state.isValid keccak256 c.timestamp subject credType =
      c'.state.isValid keccak256 c'.timestamp subject credType

/-! ## The calls -/

section Calls

variable {keccak256 : Keccak} {d : Clocked CWEIdentity} {sender : Address}

theorem next_transferOwnership (newOwner : Address) :
    Clocked.next (CWEIdentity.exec keccak256) d (.call sender (.transferOwnership newOwner)) =
      if sender = d.state.owner ∧ newOwner ≠ 0 then
        ⟨d.timestamp, { d.state with owner := newOwner }⟩
      else d := by
  by_cases howner : sender = d.state.owner
  · by_cases hzero : newOwner = 0
    · rw [if_neg (by simp [hzero])]
      refine Clocked.next_error (e := .err .zeroAddressOwner) ?_
      simp [CWEIdentity.exec, transferOwnership, onlyOwner, howner, hzero, fail]
    · rw [if_pos ⟨howner, hzero⟩]
      refine Clocked.next_ok ?_
      have hzero' : ¬ newOwner = 0#160 := hzero
      simp [CWEIdentity.exec, transferOwnership, onlyOwner, howner, hzero', pure, Except.pure]
  · rw [if_neg (by simp [howner])]
    refine Clocked.next_error (e := .err .notOwner) ?_
    simp [CWEIdentity.exec, transferOwnership, onlyOwner, howner, fail]

theorem next_setIssuer (issuer : Address) (trusted : Bool) :
    Clocked.next (CWEIdentity.exec keccak256) d (.call sender (.setIssuer issuer trusted)) =
      if sender = d.state.owner then
        ⟨d.timestamp, { d.state with
          isIssuer := Function.update d.state.isIssuer issuer trusted }⟩
      else d := by
  by_cases howner : sender = d.state.owner
  · rw [if_pos howner]
    refine Clocked.next_ok ?_
    simp [CWEIdentity.exec, CWEIdentity.setIssuer, onlyOwner, howner, pure, Except.pure]
  · rw [if_neg howner]
    refine Clocked.next_error (e := .err .notOwner) ?_
    simp [CWEIdentity.exec, CWEIdentity.setIssuer, onlyOwner, howner, fail]

/-- The record that an attestation writes. -/
def attested (timestamp : Nat) (sender : Address) (expiresAt : Nat) : Credential :=
  { issuer := sender
    issuedAt := timestamp % 2 ^ 64
    expiresAt := expiresAt
    revoked := false
    exists_ := true }

theorem next_attest (subject : Address) (credType : Bytes32) (expiresAt : Nat) :
    Clocked.next (CWEIdentity.exec keccak256) d
        (.call sender (.attest subject credType expiresAt)) =
      if d.state.isIssuer sender = true ∧ d.timestamp < expiresAt then
        ⟨d.timestamp, { d.state with
          credentials := Function.update d.state.credentials
            (CWEIdentity.key keccak256 subject credType)
              (attested d.timestamp sender expiresAt) }⟩
      else d := by
  by_cases hissuer : d.state.isIssuer sender = true
  · by_cases hexpiry : d.timestamp < expiresAt
    · rw [if_pos ⟨hissuer, hexpiry⟩]
      refine Clocked.next_ok ?_
      simp [CWEIdentity.exec, CWEIdentity.attest, CWEIdentity.onlyIssuer, hissuer, hexpiry, pure,
        Except.pure, attested]
    · rw [if_neg (by simp [hexpiry])]
      refine Clocked.next_error (e := .err .badExpiry) ?_
      simp [CWEIdentity.exec, CWEIdentity.attest, CWEIdentity.onlyIssuer, hissuer,
        Nat.le_of_not_lt hexpiry, fail]
  · rw [if_neg (by simp [hissuer])]
    refine Clocked.next_error (e := .err .notIssuer) ?_
    simp [CWEIdentity.exec, CWEIdentity.attest, CWEIdentity.onlyIssuer, hissuer, fail]

theorem next_revoke (subject : Address) (credType : Bytes32) :
    Clocked.next (CWEIdentity.exec keccak256) d (.call sender (.revoke subject credType)) =
      if d.state.isIssuer sender = true ∧
          (d.state.credentials (CWEIdentity.key keccak256 subject credType)).exists_ = true then
        ⟨d.timestamp, { d.state with
          credentials := Function.update d.state.credentials
            (CWEIdentity.key keccak256 subject credType)
            { d.state.credentials (CWEIdentity.key keccak256 subject credType) with
              revoked := true } }⟩
      else d := by
  by_cases hissuer : d.state.isIssuer sender = true
  · by_cases hexists :
        (d.state.credentials (CWEIdentity.key keccak256 subject credType)).exists_ = true
    · rw [if_pos ⟨hissuer, hexists⟩]
      refine Clocked.next_ok ?_
      simp [CWEIdentity.exec, CWEIdentity.revoke, CWEIdentity.onlyIssuer, hissuer, hexists, pure,
        Except.pure]
    · rw [if_neg (by simp [hexists])]
      refine Clocked.next_error (e := .err .noCredential) ?_
      simp [CWEIdentity.exec, CWEIdentity.revoke, CWEIdentity.onlyIssuer, hissuer, hexists, fail]
  · rw [if_neg (by simp [hissuer])]
    refine Clocked.next_error (e := .err .notIssuer) ?_
    simp [CWEIdentity.exec, CWEIdentity.revoke, CWEIdentity.onlyIssuer, hissuer, fail]

end Calls

/-! ## The two runs -/

/-- The run without the issuer's calls has the same owner and issuers, and the same credentials but
for some that are worthless in both. -/
structure Shadows (issuer : Address) (d d' : Clocked CWEIdentity) : Prop where
  timestamp : d'.timestamp = d.timestamp
  owner : d'.state.owner = d.state.owner
  isIssuer : d'.state.isIssuer = d.state.isIssuer
  credentials : ∀ k, d'.state.credentials k = d.state.credentials k ∨
    Worthless issuer d.timestamp (d.state.credentials k) ∧
      Worthless issuer d.timestamp (d'.state.credentials k)

theorem Worthless.later {issuer : Address} {timestamp later : Nat} {c : Credential}
    (h : Worthless issuer timestamp c) (hle : timestamp ≤ later) : Worthless issuer later c := by
  rcases h with h | h | h | h
  · exact Or.inl h
  · exact Or.inr (Or.inl h)
  · exact Or.inr (Or.inr (Or.inl (h.trans hle)))
  · exact Or.inr (Or.inr (Or.inr h))

section Shadows

variable {keccak256 : Keccak} {issuer : Address} {d d' : Clocked CWEIdentity}

theorem Shadows.refl (issuer : Address) (d : Clocked CWEIdentity) : Shadows issuer d d :=
  ⟨rfl, rfl, rfl, fun _ => Or.inl rfl⟩

/-- A worthless record is written over in the first run only. -/
theorem Shadows.write_left (h : Shadows issuer d d') {k : Bytes32} {c : Credential}
    (hold : Worthless issuer d.timestamp (d.state.credentials k))
    (hnew : Worthless issuer d.timestamp c) :
    Shadows issuer ⟨d.timestamp, { d.state with
      credentials := Function.update d.state.credentials k c }⟩ d' := by
  refine ⟨h.timestamp, h.owner, h.isIssuer, ?_⟩
  intro x
  dsimp only
  by_cases hx : x = k
  · subst hx
    rw [Function.update_self]
    rcases h.credentials x with hsame | ⟨-, hother⟩
    · rw [hsame]
      exact Or.inr ⟨hnew, hold⟩
    · exact Or.inr ⟨hnew, hother⟩
  · rw [Function.update_of_ne hx]
    exact h.credentials x

/-- The same record is written in both runs, or worthless ones are. -/
theorem Shadows.write_both (h : Shadows issuer d d') {k : Bytes32} {c c' : Credential}
    (hnew : c' = c ∨ Worthless issuer d.timestamp c ∧ Worthless issuer d.timestamp c') :
    Shadows issuer
      ⟨d.timestamp, { d.state with credentials := Function.update d.state.credentials k c }⟩
      ⟨d'.timestamp,
        { d'.state with credentials := Function.update d'.state.credentials k c' }⟩ := by
  refine ⟨h.timestamp, h.owner, h.isIssuer, ?_⟩
  intro x
  dsimp only
  by_cases hx : x = k
  · subst hx
    rw [Function.update_self, Function.update_self]
    exact hnew
  · rw [Function.update_of_ne hx, Function.update_of_ne hx]
    exact h.credentials x

/-- A worthless record is written over in the second run only. -/
theorem Shadows.write_right (h : Shadows issuer d d') {k : Bytes32} {c' : Credential}
    (hold : Worthless issuer d.timestamp (d.state.credentials k))
    (hnew : Worthless issuer d.timestamp c') :
    Shadows issuer d ⟨d'.timestamp, { d'.state with
      credentials := Function.update d'.state.credentials k c' }⟩ := by
  have hboth := h.write_both (k := k) (Or.inr ⟨hold, hnew⟩)
  rwa [Function.update_eq_self] at hboth

theorem worthless_revoked (issuer : Address) (timestamp : Nat) (c : Credential) :
    Worthless issuer timestamp { c with revoked := true } :=
  Or.inr (Or.inl rfl)

theorem worthless_attested (issuer : Address) (timestamp now expiresAt : Nat) :
    Worthless issuer now (attested timestamp issuer expiresAt) :=
  Or.inr (Or.inr (Or.inr rfl))

/-- What the issuer does to worthless records makes no difference. -/
theorem Shadows.dropped (h : Shadows issuer d d') {tx : Tx Address IdentityCall}
    (htx : actsAsIssuer issuer tx = true)
    (hall : ∀ e ∈ Clocked.accepted (CWEIdentity.exec keccak256) d tx,
      Harmless keccak256 issuer e) :
    Shadows issuer (Clocked.next (CWEIdentity.exec keccak256) d tx) d' := by
  cases tx with
  | elapse seconds => cases htx
  | call sender k =>
      rw [actsAsIssuer, Bool.and_eq_true, beq_iff_eq] at htx
      rcases htx with ⟨rfl, htarget⟩
      -- A call that goes through is in the log, and so harmless.
      have hworthless : ∀ subject credType, k.target = some (subject, credType) →
          Clocked.next (CWEIdentity.exec keccak256) d (.call sender k) ≠ d →
            Worthless sender d.timestamp
              (d.state.credentials (CWEIdentity.key keccak256 subject credType)) := by
        intro subject credType hk hne
        cases hexec : CWEIdentity.exec keccak256 d.timestamp d.state sender k with
        | ok state =>
            rw [Clocked.accepted_ok hexec] at hall
            exact hall _ (List.mem_singleton_self _) rfl subject credType hk
        | error e => exact absurd (Clocked.next_error hexec) hne
      by_cases hsame : Clocked.next (CWEIdentity.exec keccak256) d (.call sender k) = d
      · rw [hsame]
        exact h
      cases k with
      | transferOwnership newOwner => cases htarget
      | setIssuer issuer trusted => cases htarget
      | attest subject credType expiresAt =>
          have hold := hworthless subject credType rfl hsame
          rw [next_attest] at hsame ⊢
          split at hsame
          · rename_i hok
            rw [if_pos hok]
            exact h.write_left hold (worthless_attested _ _ _ _)
          · exact absurd rfl hsame
      | revoke subject credType =>
          have hold := hworthless subject credType rfl hsame
          rw [next_revoke] at hsame ⊢
          split at hsame
          · rename_i hok
            rw [if_pos hok]
            exact h.write_left hold (worthless_revoked _ _ _)
          · exact absurd rfl hsame

/-- A transaction of both runs. -/
theorem Shadows.kept (h : Shadows issuer d d') (tx : Tx Address IdentityCall) :
    Shadows issuer (Clocked.next (CWEIdentity.exec keccak256) d tx)
      (Clocked.next (CWEIdentity.exec keccak256) d' tx) := by
  cases tx with
  | elapse seconds =>
      refine ⟨by simp [h.timestamp], h.owner, h.isIssuer, ?_⟩
      intro k
      rcases h.credentials k with hsame | ⟨hleft, hright⟩
      · exact Or.inl hsame
      · exact Or.inr ⟨hleft.later (Nat.le_add_right _ _), hright.later (Nat.le_add_right _ _)⟩
  | call sender k =>
      cases k with
      | transferOwnership newOwner =>
          rw [next_transferOwnership, next_transferOwnership, h.owner]
          split
          · exact ⟨h.timestamp, rfl, h.isIssuer, h.credentials⟩
          · exact h
      | setIssuer other trusted =>
          rw [next_setIssuer, next_setIssuer, h.owner]
          split
          · refine ⟨h.timestamp, h.owner, ?_, h.credentials⟩
            dsimp only
            rw [h.isIssuer]
          · exact h
      | attest subject credType expiresAt =>
          rw [next_attest, next_attest, h.isIssuer, h.timestamp]
          split
          · have hboth := h.write_both (k := CWEIdentity.key keccak256 subject credType)
              (c := attested d.timestamp sender expiresAt) (Or.inl rfl)
            rwa [h.timestamp] at hboth
          · exact h
      | revoke subject credType =>
          rw [next_revoke, next_revoke, h.isIssuer]
          rcases h.credentials (CWEIdentity.key keccak256 subject credType) with
            hsame | ⟨hleft, hright⟩
          · rw [hsame]
            split
            · exact h.write_both (Or.inl rfl)
            · exact h
          · -- Worthless in both: it may be missing in one and be revoked in the other.
            split
            · split
              · exact h.write_both (Or.inr ⟨worthless_revoked _ _ _, worthless_revoked _ _ _⟩)
              · exact h.write_left hleft (worthless_revoked _ _ _)
            · split
              · exact h.write_right hleft (worthless_revoked _ _ _)
              · exact h

/-- Without the issuer's trust a worthless credential does not count. -/
theorem not_valid_of_worthless (huntrusted : d.state.isIssuer issuer = false) {subject : Address}
    {credType : Bytes32} (h : Worthless issuer d.timestamp
      (d.state.credentials (CWEIdentity.key keccak256 subject credType))) :
    d.state.isValid keccak256 d.timestamp subject credType = false := by
  unfold CWEIdentity.isValid
  dsimp only
  rcases h with h | h | h | h
  · simp [h]
  · simp [h]
  · simp [h]
  · simp [h, huntrusted]

theorem Shadows.isValid_eq (h : Shadows issuer d d') (huntrusted : d.state.isIssuer issuer = false)
    (subject : Address) (credType : Bytes32) :
    d.state.isValid keccak256 d.timestamp subject credType =
      d'.state.isValid keccak256 d'.timestamp subject credType := by
  rcases h.credentials (CWEIdentity.key keccak256 subject credType) with hsame | ⟨hleft, hright⟩
  · simp only [CWEIdentity.isValid, hsame, h.timestamp, h.isIssuer]
  · have huntrusted' : d'.state.isIssuer issuer = false := by
      rw [h.isIssuer]
      exact huntrusted
    rw [← h.timestamp] at hright
    rw [not_valid_of_worthless huntrusted hleft, not_valid_of_worthless huntrusted' hright]

/-- A call of the issuer that goes through leaves a worthless record. -/
theorem worthless_next {k : IdentityCall} {subject : Address} {credType : Bytes32}
    (hk : k.target = some (subject, credType)) {state : CWEIdentity}
    (hok : CWEIdentity.exec keccak256 d.timestamp d.state issuer k = .ok state) :
    state.owner = d.state.owner ∧ Worthless issuer d.timestamp
      (state.credentials (CWEIdentity.key keccak256 subject credType)) := by
  cases k with
  | transferOwnership newOwner => cases hk
  | setIssuer other trusted => cases hk
  | attest s t expiresAt =>
      cases hk
      rcases bind_eq_ok.1 hok with ⟨_, -, hok⟩
      split at hok
      · simp [fail] at hok
      · cases hok
        refine ⟨rfl, ?_⟩
        dsimp only
        rw [Function.update_self]
        exact worthless_attested _ _ _ _
  | revoke s t =>
      cases hk
      rcases bind_eq_ok.1 hok with ⟨_, -, hok⟩
      dsimp only at hok
      split at hok
      · simp [fail] at hok
      · cases hok
        refine ⟨rfl, ?_⟩
        dsimp only
        rw [Function.update_self]
        exact worthless_revoked _ _ _

end Shadows

/-! ## Every run -/

/-- The owner trusts one issuer and removes another. -/
def replaceIssuer (owner trusted removed : Address) : List (Tx Address IdentityCall) :=
  [.call owner (.setIssuer trusted true), .call owner (.setIssuer removed false)]

theorem replaceIssuer_kept (owner trusted removed : Address) :
    ∀ tx ∈ replaceIssuer owner trusted removed, actsAsIssuer removed tx = false := by
  intro tx htx
  rcases List.mem_cons.1 htx with rfl | htx
  · simp [actsAsIssuer, IdentityCall.target]
  · rw [List.mem_singleton] at htx
    subst htx
    simp [actsAsIssuer, IdentityCall.target]

theorem run_replaceIssuer (keccak256 : Keccak) (d : Clocked CWEIdentity)
    (trusted removed : Address) :
    Clocked.run (CWEIdentity.exec keccak256) d (replaceIssuer d.state.owner trusted removed) =
      ⟨d.timestamp, { d.state with
        isIssuer :=
          Function.update (Function.update d.state.isIssuer trusted true) removed false }⟩ := by
  rw [replaceIssuer, Clocked.run_cons, next_setIssuer, if_pos rfl, Clocked.run_cons, next_setIssuer]
  exact if_pos rfl

section Run

variable (keccak256 : Keccak) (owner : Address) (timestamp : Nat) (issuer : Address)

theorem shadows_run (txs : List (Tx Address IdentityCall))
    (hall : ∀ e ∈
      Clocked.log (CWEIdentity.exec keccak256) (CWEIdentity.deployed owner timestamp) txs,
      Harmless keccak256 issuer e) :
    Shadows issuer
      (Clocked.run (CWEIdentity.exec keccak256) (CWEIdentity.deployed owner timestamp) txs)
      (Clocked.run (CWEIdentity.exec keccak256) (CWEIdentity.deployed owner timestamp)
        (Clocked.without (actsAsIssuer issuer) txs)) :=
  Clocked.run_related (Shadows.refl issuer _) (fun _ _ _ h htx hok => h.dropped htx hok)
    (fun _ _ tx h _ => h.kept tx) txs hall

variable {keccak256 issuer} in
/-- A call of the issuer on a credential of somebody else that still counts shows, once the owner
trusts that somebody and removes the issuer. -/
theorem worthless_of_contained {d d' : Clocked CWEIdentity} (h : Shadows issuer d d')
    {k : IdentityCall} {subject : Address} {credType : Bytes32}
    (hk : k.target = some (subject, credType)) {state : CWEIdentity}
    (hok : CWEIdentity.exec keccak256 d.timestamp d.state issuer k = .ok state)
    (hsame : ∀ trusted,
      let more := replaceIssuer d.state.owner trusted issuer
      let c := Clocked.run (CWEIdentity.exec keccak256) ⟨d.timestamp, state⟩ more
      let c' := Clocked.run (CWEIdentity.exec keccak256) d' more
      c.state.isIssuer issuer = false →
        c.state.isValid keccak256 c.timestamp subject credType =
          c'.state.isValid keccak256 c'.timestamp subject credType) :
    Worthless issuer d.timestamp
      (d.state.credentials (CWEIdentity.key keccak256 subject credType)) := by
  by_contra hcounts
  rcases worthless_next hk hok with ⟨howner, hleft⟩
  have hcred : d'.state.credentials (CWEIdentity.key keccak256 subject credType) =
      d.state.credentials (CWEIdentity.key keccak256 subject credType) :=
    (h.credentials _).resolve_right fun hboth => hcounts hboth.1
  unfold Worthless at hcounts
  push Not at hcounts
  rcases hcounts with ⟨hexists, hrevoked, hexpiry, hissuer⟩
  have hvalid := hsame
    (d.state.credentials (CWEIdentity.key keccak256 subject credType)).issuer
  dsimp only at hvalid
  rw [← howner, run_replaceIssuer keccak256 ⟨d.timestamp, state⟩, howner, ← h.owner,
    run_replaceIssuer keccak256 d'] at hvalid
  have hvalid' := hvalid (Function.update_self _ _ _)
  rw [not_valid_of_worthless (Function.update_self _ _ _) hleft] at hvalid'
  -- With the call the credential no longer counts; without it, it does.
  unfold CWEIdentity.isValid at hvalid'
  dsimp only at hvalid'
  rw [hcred, Function.update_of_ne hissuer, Function.update_self, h.timestamp] at hvalid'
  simp [hexists, hrevoked, hexpiry] at hvalid'

/-- If the owner's next two calls would show it, the last transaction hit nothing that counts. -/
theorem harmless_of_contained {txs : List (Tx Address IdentityCall)} {tx : Tx Address IdentityCall}
    (hshadows : Shadows issuer
      (Clocked.run (CWEIdentity.exec keccak256) (CWEIdentity.deployed owner timestamp) txs)
      (Clocked.run (CWEIdentity.exec keccak256) (CWEIdentity.deployed owner timestamp)
        (Clocked.without (actsAsIssuer issuer) txs)))
    (h : ∀ trusted, Contained keccak256 issuer (CWEIdentity.deployed owner timestamp)
      (txs ++ [tx] ++ replaceIssuer (Clocked.run (CWEIdentity.exec keccak256)
        (CWEIdentity.deployed owner timestamp) txs).state.owner trusted issuer)) :
    ∀ e ∈ Clocked.accepted (CWEIdentity.exec keccak256)
        (Clocked.run (CWEIdentity.exec keccak256) (CWEIdentity.deployed owner timestamp) txs) tx,
      Harmless keccak256 issuer e := by
  intro e he hsender subject credType hk
  have hcall := Clocked.accepted_mem he
  subst hcall
  cases hexec : CWEIdentity.exec keccak256
      (Clocked.run (CWEIdentity.exec keccak256)
        (CWEIdentity.deployed owner timestamp) txs).timestamp
      (Clocked.run (CWEIdentity.exec keccak256)
        (CWEIdentity.deployed owner timestamp) txs).state e.sender e.call with
  | error t =>
      rw [Clocked.accepted_error hexec] at he
      cases he
  | ok state =>
      rw [Clocked.accepted_ok hexec, List.mem_singleton] at he
      have hdrop : actsAsIssuer issuer (.call e.sender e.call) = true := by
        simp [actsAsIssuer, hsender, hk]
      rw [he]
      refine worthless_of_contained hshadows hk (hsender ▸ hexec) ?_
      intro trusted
      dsimp only
      intro huntrusted
      -- The claim for the run up to the call, and the owner's two calls after it.
      have hrun := h trusted
      unfold Contained at hrun
      dsimp only at hrun
      rw [Clocked.run_append, Clocked.run_append_singleton, Clocked.next_ok hexec,
        Clocked.without_append, Clocked.without_append, Clocked.without_of_dropped hdrop,
        List.append_nil, Clocked.without_eq_self (replaceIssuer_kept _ trusted issuer),
        Clocked.run_append] at hrun
      exact hrun huntrusted subject credType

/-- The issuer's calls of a run make no difference once it is removed, however the run goes on
without it, exactly when each of them hit a credential that was worthless without the issuer. -/
theorem contained_iff (txs : List (Tx Address IdentityCall)) :
    (∀ pre more, pre <+: txs → (∀ tx ∈ more, actsAsIssuer issuer tx = false) →
        Contained keccak256 issuer (CWEIdentity.deployed owner timestamp) (pre ++ more)) ↔
      ∀ e ∈ Clocked.log (CWEIdentity.exec keccak256) (CWEIdentity.deployed owner timestamp) txs,
        Harmless keccak256 issuer e := by
  constructor
  · intro h
    induction txs using List.reverseRecOn with
    | nil =>
        intro e he
        cases he
    | append_singleton txs tx ih =>
        have hbefore := ih fun pre more hpre => h pre more (hpre.trans (List.prefix_append _ _))
        have hshadows := shadows_run keccak256 owner timestamp issuer txs hbefore
        intro e he
        rw [Clocked.log_append_singleton] at he
        rcases List.mem_append.1 he with he | he
        · exact hbefore e he
        refine harmless_of_contained keccak256 owner timestamp issuer hshadows ?_ e he
        intro trusted
        exact h (txs ++ [tx]) _ List.prefix_rfl (replaceIssuer_kept _ trusted issuer)
  · intro hall pre more hpre hmore huntrusted subject credType
    rcases hpre with ⟨post, rfl⟩
    refine Shadows.isValid_eq (shadows_run keccak256 owner timestamp issuer (pre ++ more) ?_)
      huntrusted subject credType
    intro e he
    rw [Clocked.log_append] at he hall
    rcases List.mem_append.1 he with he | he
    · exact hall e (List.mem_append_left _ he)
    · -- Nothing after `pre` is a call of the issuer.
      intro hsender subject credType hk
      have hkept := hmore _ (Clocked.call_mem_of_mem_log he)
      simp [actsAsIssuer, hsender, hk] at hkept

end Run

/-- An issuer revokes the credential that another one has granted, and is removed. -/
def sampleBreach : List (Tx Address IdentityCall) :=
  [.call 0xa0 (.setIssuer 0xb0 true),
    .call 0xa0 (.setIssuer 0xb1 true),
    .call 0xb0 (.attest 0xc0 (CredentialTypes.verifiedCreator sampleKeccak) 10000000000),
    .call 0xb1 (.revoke 0xc0 (CredentialTypes.verifiedCreator sampleKeccak)),
    .call 0xa0 (.setIssuer 0xb1 false)]

/-- The creator stays without a credential that, without the removed issuer, would count. -/
theorem sampleBreach_not_contained :
    ¬ Contained sampleKeccak 0xb1 (CWEIdentity.deployed 0xa0 1000) sampleBreach := by
  intro h
  have hvalid := h (by decide +kernel) 0xc0 (CredentialTypes.verifiedCreator sampleKeccak)
  exact absurd hvalid (by decide +kernel)

end Contracts
end CleanWeb
