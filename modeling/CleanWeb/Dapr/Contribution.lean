import CleanWeb.Lib.Tally
import CleanWeb.Dapr.FeePass

/-!
# What each user contributes

One iteration of the fee loop adds to the accumulators an amount that depends on the user's own fee
and rows alone.  A returned allocation is therefore the tally of the users' payments, whatever the
order in which the users came.
-/

namespace CleanWeb
namespace Dapr

open Lib Lib.Exec Lib.BTreeMap

/-! ## The contribution of one user -/

/-- The user's shares, row by row. -/
def sharesOf (fee : Nat) (rs : List (RawRow × Nat)) : List Nat :=
  match (apportion (paidOf fee rs) (rs.map credOf) (credSum rs) : Exec DaprError (List Nat)) with
  | .ok shares => shares
  | .error _ => []

/-- The user's payments: the works of the rows, each with its share. -/
def paymentsOf (fee : Nat) (rs : List (RawRow × Nat)) : List (WorkId × Nat) :=
  if rawSum rs = 0 ∨ credSum rs = 0 then []
  else (rs.zip (sharesOf fee rs)).map fun p => (p.1.1.work, p.2)

/-- The credited usage of the rows. -/
def usageOf (rs : List (RawRow × Nat)) : List (WorkId × Nat) :=
  rs.map fun e => (e.1.work, credOf e)

/-- What one iteration for `user` adds to the accumulators. -/
structure Contributes (user : UserId) (fee : Nat) (rs : List (RawRow × Nat))
    (st st' : FeePass) : Prop where
  perWork : ∀ l, Tallies st.perWork l → Tallies st'.perWork (l ++ paymentsOf fee rs)
  unallocated : st'.unallocated = st.unallocated + (fee - paidOf fee rs)
  usage : ∀ l, Tallies st.repUsage l → Tallies st'.repUsage (l ++ usageOf rs)
  users : ∀ w u, u ∈ st'.repUsers.getD w ∅ ↔
    u ∈ st.repUsers.getD w ∅ ∨ (u = user ∧ w ∈ rs.map (·.1.work))
  shares : rawSum rs ≠ 0 → credSum rs ≠ 0 →
    apportion (paidOf fee rs) (rs.map credOf) (credSum rs) = .ok (sharesOf fee rs)

/-! ## The row loop -/

/-- What the row loop returns, when it returns. -/
structure RowsAdded (user : UserId) (rs : List (RawRow × Nat)) (st out : RowPass) : Prop where
  creds : out.creds = st.creds ++ rs.map credOf
  rwU : out.rwU = st.rwU + rawSum rs
  sumCred : out.sumCred = st.sumCred + credSum rs
  usage : ∀ l, Tallies st.repUsage l → Tallies out.repUsage (l ++ usageOf rs)
  users : ∀ w u, u ∈ out.repUsers.getD w ∅ ↔
    u ∈ st.repUsers.getD w ∅ ∨ (u = user ∧ w ∈ rs.map (·.1.work))

theorem mulDiv_ok {a b d q : Nat} (h : (mulDiv a b d : Exec DaprError Nat) = .ok q) :
    q = a * b / d := by
  unfold mulDiv at h
  split at h
  · cases h
  · dsimp only at h
    split at h
    · exact (Except.ok.inj h).symm
    · cases h

theorem rowStep_ok {user : UserId} {st st' : RowPass} {e : RawRow × Nat}
    (h : rowStep user st e = .ok st') : RowsAdded user [e] st st' := by
  unfold rowStep at h
  rcases bind_eq_ok.1 h with ⟨cred, hcred, h⟩
  rcases bind_eq_ok.1 h with ⟨rwU, hrwU, h⟩
  rcases bind_eq_ok.1 h with ⟨sumCred, hsumCred, h⟩
  rcases bind_eq_ok.1 h with ⟨updated, hupdated, h⟩
  have hcred' : cred = credOf e := mulDiv_ok hcred
  simp only [okOr_eq_ok, checkedAdd_eq_some] at hrwU hsumCred hupdated
  cases h
  refine ⟨?_, ?_, ?_, ?_, ?_⟩
  · simp [hcred']
  · simpa [rawSum] using hrwU.2.symm
  · simpa [credSum, hcred'] using hsumCred.2.symm
  · intro l hl
    rw [← hupdated.2, hcred']
    exact hl.insert_add e.1.work (credOf e)
  · intro w u
    by_cases hw : e.1.work = w
    · subst hw
      simp [Std.ExtTreeSet.mem_insert, or_comm, @eq_comm _ user u]
    · simp [Std.ExtTreeMap.getD_insert, hw, Ne.symm hw]

theorem rowLoop_ok {user : UserId} {rs : List (RawRow × Nat)} {st out : RowPass}
    (h : rs.foldlM (rowStep user) st = .ok out) : RowsAdded user rs st out := by
  induction rs generalizing st with
  | nil =>
      cases h
      refine ⟨by simp, by simp [rawSum], by simp [credSum], ?_, by simp⟩
      intro l hl
      simpa [usageOf] using hl
  | cons e rs ih =>
      rw [List.foldlM_cons] at h
      rcases bind_eq_ok.1 h with ⟨st', hstep, hrest⟩
      have hone := rowStep_ok hstep
      have hmore := ih hrest
      refine ⟨?_, ?_, ?_, ?_, ?_⟩
      · simp [hmore.creds, hone.creds]
      · rw [hmore.rwU, hone.rwU]
        simp [rawSum, Nat.add_assoc]
      · rw [hmore.sumCred, hone.sumCred]
        simp [credSum, Nat.add_assoc]
      · intro l hl
        -- The tally of the row comes before those of the rows after it.
        have hall := hmore.usage _ (hone.usage l hl)
        simpa [usageOf] using hall
      · intro w u
        rw [hmore.users, hone.users]
        simp only [List.map_cons, List.map_nil, List.mem_cons, List.not_mem_nil, or_false]
        tauto

theorem payLoop_ok {ps : List ((RawRow × Nat) × Nat)} {m out : BTreeMap WorkId Nat}
    {l : List (WorkId × Nat)} (hl : Tallies m l) (h : ps.foldlM payShare m = .ok out) :
    Tallies out (l ++ ps.map fun p => (p.1.1.work, p.2)) := by
  induction ps generalizing m l with
  | nil =>
      cases h
      simpa using hl
  | cons p ps ih =>
      rw [List.foldlM_cons] at h
      rcases bind_eq_ok.1 h with ⟨m', hstep, hrest⟩
      unfold payShare at hstep
      rcases bind_eq_ok.1 hstep with ⟨paid, hpaid, hinsert⟩
      rw [okOr_eq_ok, checkedAdd_eq_some] at hpaid
      cases hinsert
      rw [← hpaid.2] at hrest
      have hall := ih (hl.insert_add p.1.1.work p.2) hrest
      simpa using hall

/-! ## The fee loop -/

/-- An iteration that returns adds the user's contribution. -/
theorem userStep_ok {rowsByUser : BTreeMap UserId (List (RawRow × Nat))} {st st' : FeePass}
    {user : UserId} {fee : Nat} (h : userStep rowsByUser st (user, fee) = .ok st') :
    Contributes user fee (rowsByUser.getD user []) st st' := by
  unfold userStep at h
  dsimp only at h
  -- From here on only the user's own rows matter.
  generalize rowsByUser.getD user [] = rs at h ⊢
  rcases bind_eq_ok.1 h with ⟨pass, hpass, h⟩
  have hrows := rowLoop_ok hpass
  have hrwU : pass.rwU = rawSum rs := by
    simpa using hrows.rwU
  have hsumCred : pass.sumCred = credSum rs := by
    simpa using hrows.sumCred
  have hcreds : pass.creds = rs.map credOf := by
    simpa using hrows.creds
  rw [hrwU, hsumCred] at h
  split at h
  · -- Nothing to apportion: the whole fee stays unallocated.
    rename_i hzero
    rcases bind_eq_ok.1 h with ⟨unallocated, hun, h⟩
    rw [okOr_eq_ok, checkedAdd_eq_some] at hun
    cases h
    refine ⟨?_, ?_, hrows.usage, hrows.users, ?_⟩
    · intro l hl
      rw [paymentsOf, if_pos hzero, List.append_nil]
      exact hl
    · rw [paidOf_eq_zero hzero, ← hun.2]
      rfl
    · intro hraw hcred
      exact absurd hzero (by simp [hraw, hcred])
  · -- `target` is paid out, the rest of the fee stays unallocated.
    rename_i hpos
    rcases bind_eq_ok.1 h with ⟨target, htarget, h⟩
    rcases bind_eq_ok.1 h with ⟨short, hshort, h⟩
    rcases bind_eq_ok.1 h with ⟨unallocated, hun, h⟩
    rcases bind_eq_ok.1 h with ⟨shares, hshares, h⟩
    rcases bind_eq_ok.1 h with ⟨perWork, hpaid, h⟩
    have htarget' : target = paidOf fee rs := mulDiv_ok htarget
    rw [okOr_eq_ok, checkedSub_eq_some, htarget'] at hshort
    rw [okOr_eq_ok, checkedAdd_eq_some, ← hshort.2] at hun
    rw [htarget', hcreds] at hshares
    have hsharesOf : sharesOf fee rs = shares := by
      rw [sharesOf, hshares]
    cases h
    refine ⟨?_, hun.2.symm, hrows.usage, hrows.users, ?_⟩
    · intro l hl
      rw [paymentsOf, if_neg hpos, hsharesOf]
      exact payLoop_ok hl hpaid
    · intro _ _
      rw [hsharesOf, hshares]

/-- What the fee loop has added up after the fees `us`. -/
structure Contributions (rowsOfUser : UserId → List (RawRow × Nat)) (us : List (UserId × Nat))
    (st : FeePass) : Prop where
  perWork : Tallies st.perWork (us.flatMap fun u => paymentsOf u.2 (rowsOfUser u.1))
  unallocated : st.unallocated = (us.map fun u => u.2 - paidOf u.2 (rowsOfUser u.1)).sum
  usage : Tallies st.repUsage (us.flatMap fun u => usageOf (rowsOfUser u.1))
  users : ∀ w u, u ∈ st.repUsers.getD w ∅ ↔
    u ∈ us.map Prod.fst ∧ w ∈ (rowsOfUser u).map (·.1.work)
  shares : ∀ u ∈ us, rawSum (rowsOfUser u.1) ≠ 0 → credSum (rowsOfUser u.1) ≠ 0 →
    apportion (paidOf u.2 (rowsOfUser u.1)) ((rowsOfUser u.1).map credOf)
      (credSum (rowsOfUser u.1)) = .ok (sharesOf u.2 (rowsOfUser u.1))

theorem Contributions.snoc {rowsOfUser : UserId → List (RawRow × Nat)}
    {us : List (UserId × Nat)} {st st' : FeePass} {u : UserId × Nat}
    (hst : Contributions rowsOfUser us st)
    (h : Contributes u.1 u.2 (rowsOfUser u.1) st st') :
    Contributions rowsOfUser (us ++ [u]) st' := by
  refine ⟨?_, ?_, ?_, ?_, ?_⟩
  · simpa using h.perWork _ hst.perWork
  · rw [h.unallocated, hst.unallocated]
    simp
  · simpa using h.usage _ hst.usage
  · intro w v
    rw [h.users, hst.users]
    simp only [List.map_append, List.map_cons, List.map_nil, List.mem_append, List.mem_singleton]
    constructor
    · rintro (⟨hv, hw⟩ | ⟨rfl, hw⟩)
      · exact ⟨Or.inl hv, hw⟩
      · exact ⟨Or.inr rfl, hw⟩
    · rintro ⟨hv | rfl, hw⟩
      · exact Or.inl ⟨hv, hw⟩
      · exact Or.inr ⟨rfl, hw⟩
  · intro v hv
    rcases List.mem_append.1 hv with hv | hv
    · exact hst.shares v hv
    · rw [List.mem_singleton.1 hv]
      exact h.shares

theorem feeLoop_ok {rowsByUser : BTreeMap UserId (List (RawRow × Nat))}
    {rowsOfUser : UserId → List (RawRow × Nat)} {us done : List (UserId × Nat)}
    {st out : FeePass} (hget : ∀ u, rowsByUser.getD u [] = rowsOfUser u)
    (hst : Contributions rowsOfUser done st)
    (h : us.foldlM (userStep rowsByUser) st = .ok out) :
    Contributions rowsOfUser (done ++ us) out := by
  induction us generalizing st done with
  | nil =>
      cases h
      simpa using hst
  | cons u us ih =>
      rw [List.foldlM_cons] at h
      rcases bind_eq_ok.1 h with ⟨st', hstep, hrest⟩
      -- The step for `u` sees the rows grouped under `u`.
      have hone := userStep_ok hstep
      rw [hget] at hone
      have hall := ih (hst.snoc hone) hrest
      simpa using hall

/-! ## The allocation -/

/-- A returned allocation is what the fee loop added up. -/
theorem allocate_ok {tierFees : BTreeMap UserId Nat} {rows : List RawRow}
    {credibilityPpm : List Nat} {p : Payouts}
    (h : allocateFromRawWithRowCredibility tierFees rows credibilityPpm = .ok p) :
    ∃ st : FeePass, Contributions (rowsOf rows credibilityPpm) tierFees.toList st ∧
      p = ⟨st.perWork, st.unallocated, st.repUsage.map fun w weightedUsage =>
        { distinctUsers := (st.repUsers.getD w ∅).size % 2 ^ 64,
          weightedUsage := weightedUsage }⟩ := by
  unfold allocateFromRawWithRowCredibility at h
  split at h
  · cases h
  · rcases bind_eq_ok.1 h with ⟨st, hloop, h⟩
    have hempty : Contributions (rowsOf rows credibilityPpm) [] ⟨∅, 0, ∅, ∅⟩ :=
      ⟨Tallies.empty, rfl, Tallies.empty, by simp, by simp⟩
    have hall := feeLoop_ok (groupRows_getD rows credibilityPpm) hempty hloop
    exact ⟨st, by simpa using hall, (Except.ok.inj h).symm⟩

/-! ## Bounds on one user's payments -/

/-- The payments are together at most what the fee pays out, and a row that is credited nothing
receives nothing. -/
theorem paymentsOf_spec {fee : Nat} {rs : List (RawRow × Nat)}
    (h : rawSum rs ≠ 0 → credSum rs ≠ 0 →
      apportion (paidOf fee rs) (rs.map credOf) (credSum rs) = .ok (sharesOf fee rs)) :
    ((paymentsOf fee rs).map Prod.snd).sum ≤ paidOf fee rs ∧
      ∀ pay ∈ paymentsOf fee rs, ∃ e ∈ rs, e.1.work = pay.1 ∧ (credOf e = 0 → pay.2 = 0) := by
  unfold paymentsOf
  split
  · simp
  · rename_i hpos
    rw [not_or] at hpos
    rcases apportion_ok (Nat.pos_of_ne_zero hpos.2) rfl (h hpos.1 hpos.2) with
      ⟨hlen, hsum, hzero⟩
    rw [List.length_map] at hlen
    refine ⟨?_, ?_⟩
    · -- Zipping loses no share, since there is one for each row.
      rw [List.map_map]
      change ((rs.zip (sharesOf fee rs)).map Prod.snd).sum ≤ _
      rwa [zip_snd_sum hlen]
    · intro pay hpay
      rcases List.mem_map.1 hpay with ⟨q, hq, rfl⟩
      rcases List.mem_iff_getElem?.1 hq with ⟨i, hi⟩
      rw [List.getElem?_zip_eq_some] at hi
      refine ⟨q.1, List.mem_of_getElem? hi.1, rfl, ?_⟩
      intro hcred
      have hshare := hzero i (by rw [List.getElem?_map, hi.1, Option.map_some, hcred])
      exact Option.some.inj (hi.2.symm.trans hshare)

end Dapr
end CleanWeb
