import CleanWeb.Dapr.RowPass

/-!
# The pass over the tier fees

`userStep` splits one fee; the loop over `tier_fees` accounts for all of them.  The invariant of
the loop is `FeesSplit`: the fees consumed so far are exactly what the works hold plus what stayed
unallocated.
-/

namespace CleanWeb
namespace Dapr

open Lib Lib.Exec Lib.BTreeMap

/-! ## Grouping the rows -/

/-- The rows of `user`, in order, each with its clamped credibility. -/
def rowsOf (rows : List RawRow) (credibilityPpm : List Nat) (user : UserId) :
    List (RawRow × Nat) :=
  ((rows.zip credibilityPpm).filter fun e => e.1.user = user).map fun e => (e.1, min e.2 1000000)

theorem rowsOf_clamped (rows : List RawRow) (credibilityPpm : List Nat) (user : UserId) :
    Clamped (rowsOf rows credibilityPpm user) := by
  intro e he
  rcases List.mem_map.1 he with ⟨e', -, rfl⟩
  exact Nat.min_le_right _ _

theorem length_rowsOf_le (rows : List RawRow) (credibilityPpm : List Nat) (user : UserId) :
    (rowsOf rows credibilityPpm user).length ≤ rows.length := by
  unfold rowsOf
  rw [List.length_map]
  calc
    ((rows.zip credibilityPpm).filter fun e => e.1.user = user).length
        ≤ (rows.zip credibilityPpm).length := List.length_filter_le _ _
    _ ≤ rows.length := by
        rw [List.length_zip]
        exact Nat.min_le_left _ _

theorem mem_of_mem_rowsOf {rows : List RawRow} {credibilityPpm : List Nat} {user : UserId}
    {e : RawRow × Nat} (h : e ∈ rowsOf rows credibilityPpm user) :
    e.1 ∈ rows ∧ e.1.user = user := by
  rcases List.mem_map.1 h with ⟨e', he', rfl⟩
  rcases List.mem_filter.1 he' with ⟨hzip, huser⟩
  exact ⟨(List.of_mem_zip hzip).1, by simpa using huser⟩

/-- `groupRows` hands every user exactly their own rows. -/
theorem groupRows_getD (rows : List RawRow) (credibilityPpm : List Nat) (user : UserId) :
    (groupRows rows credibilityPpm).getD user [] = rowsOf rows credibilityPpm user := by
  unfold groupRows rowsOf
  -- The induction is on the zipped rows; the map already holds the rows before them.
  suffices key : ∀ (zs : List (RawRow × Nat)) (m : BTreeMap UserId (List (RawRow × Nat))),
      (zs.foldl (fun m e =>
        m.insert e.1.user (m.getD e.1.user [] ++ [(e.1, min e.2 1000000)])) m).getD user [] =
      m.getD user [] ++
        (zs.filter fun e => e.1.user = user).map fun e => (e.1, min e.2 1000000) by
    simpa using key (rows.zip credibilityPpm) ∅
  intro zs
  induction zs with
  | nil =>
      simp
  | cons e zs ih =>
      intro m
      rw [List.foldl_cons, ih]
      by_cases hu : e.1.user = user
      · subst hu
        simp
      · simp [Std.ExtTreeMap.getD_insert, hu]

/-! ## One user -/

/-- What splitting `fee` over the rows `rs` has established. -/
structure FeeSplit (fee : Nat) (rs : List (RawRow × Nat)) (st st' : FeePass) : Prop where
  shares : ∃ shares : List Nat, shares.length = rs.length ∧ shares.sum = paidOf fee rs ∧
    ∀ w, st'.perWork.getD w 0 = st.perWork.getD w 0 + paidTo w (rs.zip shares)
  total_eq : total st'.perWork = total st.perWork + paidOf fee rs
  unallocated_eq : st'.unallocated + paidOf fee rs = st.unallocated + fee
  keys : ∀ w ∈ st'.perWork, w ∈ st.perWork ∨ ∃ e ∈ rs, e.1.work = w
  usage : ∀ w, st'.repUsage.getD w 0 = st.repUsage.getD w 0 + credOn w rs
  usageFits : ∀ w, st.repUsage.getD w 0 < 2 ^ 128 → st'.repUsage.getD w 0 < 2 ^ 128
  productsFit : ∀ e ∈ rs, paidOf fee rs * credOf e < 2 ^ 128

/-- Why one user's fee cannot be split. -/
def SplitOverflow (fee : Nat) (rs : List (RawRow × Nat)) (st : FeePass) : Prop :=
  RowsOverflow st.repUsage rs ∨ ∃ e ∈ rs, 2 ^ 128 ≤ paidOf fee rs * credOf e

theorem paidOf_eq_zero {fee : Nat} {rs : List (RawRow × Nat)}
    (h : rawSum rs = 0 ∨ credSum rs = 0) : paidOf fee rs = 0 := by
  unfold paidOf
  rcases h with h | h
  · rw [h, Nat.div_zero]
  · rw [h, Nat.mul_zero, Nat.zero_div]

theorem paidTo_zip_replicate_zero (w : WorkId) (rs : List (RawRow × Nat)) :
    paidTo w (rs.zip (List.replicate rs.length 0)) = 0 := by
  unfold paidTo
  refine List.sum_eq_zero ?_
  intro x hx
  rcases List.mem_map.1 hx with ⟨p, hp, rfl⟩
  have hzip : p ∈ rs.zip (List.replicate rs.length 0) := (List.mem_filter.1 hp).1
  have hmem : p.2 ∈ List.replicate rs.length 0 := (List.of_mem_zip hzip).2
  exact (List.mem_replicate.1 hmem).2

/-- A fee with nothing to attribute it to stays unallocated. -/
theorem feeSplit_none {fee : Nat} {rs : List (RawRow × Nat)} {st : FeePass} {p : RowPass}
    (hp : RowsRead st.repUsage rs p) (hzero : rawSum rs = 0 ∨ credSum rs = 0) :
    FeeSplit fee rs st ⟨st.perWork, st.unallocated + fee, p.repUsage, p.repUsers⟩ := by
  have hpaid : paidOf fee rs = 0 := paidOf_eq_zero hzero
  refine ⟨⟨List.replicate rs.length 0, by simp, by simp [hpaid], ?_⟩, ?_, ?_, ?_, hp.usage,
    hp.usageFits, ?_⟩
  · intro w
    rw [paidTo_zip_replicate_zero]
    exact (Nat.add_zero _).symm
  · rw [hpaid]
    exact (Nat.add_zero _).symm
  · rw [hpaid]
    exact Nat.add_zero _
  · intro w hw
    exact Or.inl hw
  · intro e he
    rw [hpaid, Nat.zero_mul]
    exact Nat.two_pow_pos 128

theorem zip_snd_sum {rs : List (RawRow × Nat)} {shares : List Nat}
    (h : shares.length = rs.length) : ((rs.zip shares).map Prod.snd).sum = shares.sum := by
  rw [List.map_snd_zip (by omega)]

/-- `userStep` splits the fee, or reports the operation that overflowed. -/
theorem userStep_meets {rowsByUser : BTreeMap UserId (List (RawRow × Nat))} {st : FeePass}
    {user : UserId} {fee : Nat} {rs : List (RawRow × Nat)} (hget : rowsByUser.getD user [] = rs)
    (hrs : Clamped rs) (hlen : rs.length < 2 ^ 64)
    (hroom : total st.perWork + st.unallocated + fee < 2 ^ 128) :
    Meets (userStep rowsByUser st (user, fee)) (FeeSplit fee rs st)
      (OverflowsBy (SplitOverflow fee rs st)) := by
  have hpaidLe : paidOf fee rs ≤ fee := paidOf_le hrs fee
  unfold userStep
  dsimp only
  rw [hget]
  refine ((rowLoop_meets user st.repUsage st.repUsers hrs).mono (fun _ _ h => h)
    fun t ht => ht.mono Or.inl).bind ?_
  intro p hp
  have hrwU : p.rwU = rawSum rs := hp.rwU
  have hsumCred : p.sumCred = credSum rs := hp.sumCred
  split
  · rename_i hzero
    rw [meets_bind_iff, meets_checkedAdd, if_pos (by omega)]
    exact feeSplit_none hp (by rwa [hrwU, hsumCred] at hzero)
  rename_i hpos
  rw [hrwU, hsumCred] at hpos ⊢
  have htarget : fee * credSum rs / rawSum rs = paidOf fee rs := rfl
  have hcreds : p.creds.sum = credSum rs := by
    rw [hp.creds]
    rfl
  -- The target is at most the fee, so only the products inside `apportion` can overflow.
  refine ((mulDiv_meets (a := fee) (b := credSum rs) (d := rawSum rs) (by omega)).mono
    (fun _ _ h => h) fun t ht => ht.mono fun h => absurd h (by omega)).bind ?_
  rintro target ⟨-, rfl⟩
  rw [htarget, meets_bind_iff, meets_checkedSub, if_pos hpaidLe, meets_bind_iff,
    meets_checkedAdd, if_pos (by omega)]
  refine ((apportion_meets (paidOf fee rs) (credSum rs) p.creds (by omega) hcreds (by omega)
    (by simpa [hp.creds] using hlen)).mono
    (fun _ _ h => h) fun t ht => ht.mono fun h => ?_).bind ?_
  · right
    rcases h with ⟨c, hc, hbig⟩
    rw [hp.creds] at hc
    rcases List.mem_map.1 hc with ⟨e, he, rfl⟩
    exact ⟨e, he, hbig⟩
  rintro shares ⟨hfit, hlength, hsum⟩
  have hsharesLen : shares.length = rs.length := by
    rw [hlength, hp.creds, List.length_map]
  have hpairs : ((rs.zip shares).map Prod.snd).sum = paidOf fee rs := by
    rw [zip_snd_sum hsharesLen, hsum]
  refine ((payLoop_meets st.perWork (rs.zip shares)).mono (fun _ _ h => h)
    fun t ht => ht.mono fun h => absurd h (by omega)).bind ?_
  intro perWork hpw
  refine ⟨⟨shares, hsharesLen, hsum, hpw.at_work⟩, ?_, ?_, ?_, hp.usage, hp.usageFits, ?_⟩
  · rw [← hpairs]
    exact hpw.total_eq
  · change st.unallocated + (fee - paidOf fee rs) + paidOf fee rs = _
    omega
  · intro w hw
    rcases hpw.keys w hw with h | ⟨q, hq, hqw⟩
    · exact Or.inl h
    · exact Or.inr ⟨q.1, (List.of_mem_zip hq).1, hqw⟩
  · intro e he
    refine hfit (credOf e) ?_
    rw [hp.creds]
    exact List.mem_map_of_mem he

/-! ## All users -/

/-- Credited weight on `w` over the rows of the fee payers `us`. -/
def usageOn (rowsOfUser : UserId → List (RawRow × Nat)) (us : List (UserId × Nat))
    (w : WorkId) : Nat :=
  (us.map fun u => credOn w (rowsOfUser u.1)).sum

/-- What the fee loop has established after splitting the fees `us`. -/
structure FeesSplit (rowsOfUser : UserId → List (RawRow × Nat)) (us : List (UserId × Nat))
    (st : FeePass) : Prop where
  conserved : total st.perWork + st.unallocated = (us.map Prod.snd).sum
  paid : total st.perWork = (us.map fun u => paidOf u.2 (rowsOfUser u.1)).sum
  keys : ∀ w ∈ st.perWork, ∃ u ∈ us, ∃ e ∈ rowsOfUser u.1, e.1.work = w
  usage : ∀ w, st.repUsage.getD w 0 = usageOn rowsOfUser us w
  usageFits : ∀ w, usageOn rowsOfUser us w < 2 ^ 128
  productsFit : ∀ u ∈ us, ∀ e ∈ rowsOfUser u.1,
    paidOf u.2 (rowsOfUser u.1) * credOf e < 2 ^ 128

/-- Why the fees cannot all be split. -/
def FeesOverflow (rowsOfUser : UserId → List (RawRow × Nat)) (us : List (UserId × Nat)) : Prop :=
  (∃ u ∈ us, 2 ^ 128 ≤ rawSum (rowsOfUser u.1)) ∨
    (∃ w, 2 ^ 128 ≤ usageOn rowsOfUser us w) ∨
      ∃ u ∈ us, ∃ e ∈ rowsOfUser u.1, 2 ^ 128 ≤ paidOf u.2 (rowsOfUser u.1) * credOf e

theorem FeesOverflow.append {rowsOfUser : UserId → List (RawRow × Nat)}
    {as : List (UserId × Nat)} (h : FeesOverflow rowsOfUser as) (bs : List (UserId × Nat)) :
    FeesOverflow rowsOfUser (as ++ bs) := by
  rcases h with ⟨u, hu, h⟩ | ⟨w, h⟩ | ⟨u, hu, h⟩
  · exact Or.inl ⟨u, List.mem_append_left _ hu, h⟩
  · right
    left
    refine ⟨w, ?_⟩
    simp only [usageOn, List.map_append, List.sum_append] at h ⊢
    omega
  · exact Or.inr (Or.inr ⟨u, List.mem_append_left _ hu, h⟩)

theorem usageOn_append_singleton (rowsOfUser : UserId → List (RawRow × Nat))
    (us : List (UserId × Nat)) (u : UserId × Nat) (w : WorkId) :
    usageOn rowsOfUser (us ++ [u]) w = usageOn rowsOfUser us w + credOn w (rowsOfUser u.1) := by
  simp [usageOn]

/-- One more fee keeps the ledger. -/
theorem FeesSplit.snoc {rowsOfUser : UserId → List (RawRow × Nat)} {us : List (UserId × Nat)}
    {st st' : FeePass} {u : UserId × Nat} (hst : FeesSplit rowsOfUser us st)
    (h : FeeSplit u.2 (rowsOfUser u.1) st st') : FeesSplit rowsOfUser (us ++ [u]) st' := by
  refine ⟨?_, ?_, ?_, ?_, ?_, ?_⟩
  · have hsum : ((us ++ [u]).map Prod.snd).sum = (us.map Prod.snd).sum + u.2 := by
      simp
    have hcons := hst.conserved
    have htotal := h.total_eq
    have hunalloc := h.unallocated_eq
    omega
  · rw [h.total_eq, hst.paid]
    simp
  · intro w hw
    rcases h.keys w hw with hold | ⟨e, he, hew⟩
    · rcases hst.keys w hold with ⟨v, hv, hrest⟩
      exact ⟨v, List.mem_append_left _ hv, hrest⟩
    · exact ⟨u, by simp, e, he, hew⟩
  · intro w
    rw [h.usage, hst.usage, usageOn_append_singleton]
  · intro w
    have hfits := h.usageFits w (by rw [hst.usage]; exact hst.usageFits w)
    rwa [h.usage, hst.usage, ← usageOn_append_singleton] at hfits
  · intro v hv e he
    rcases List.mem_append.1 hv with hv | hv
    · exact hst.productsFit v hv e he
    · have hvu : v = u := by simpa using hv
      subst hvu
      exact h.productsFit e he

/-- The fee loop accounts for every fee, or reports the operation that overflowed. -/
theorem feeLoop_meets {rowsByUser : BTreeMap UserId (List (RawRow × Nat))}
    {rowsOfUser : UserId → List (RawRow × Nat)} {us : List (UserId × Nat)}
    (hget : ∀ u, rowsByUser.getD u [] = rowsOfUser u) (hclamp : ∀ u, Clamped (rowsOfUser u))
    (hlen : ∀ u, (rowsOfUser u).length < 2 ^ 64) (hfees : (us.map Prod.snd).sum < 2 ^ 128) :
    Meets (us.foldlM (userStep rowsByUser) ⟨∅, 0, ∅, ∅⟩) (FeesSplit rowsOfUser us)
      (OverflowsBy (FeesOverflow rowsOfUser us)) := by
  refine Meets.foldlM (FeesSplit rowsOfUser) ?_ ?_
  · refine ⟨by simp, by simp, by simp, by simp [usageOn], by simp [usageOn], by simp⟩
  intro done u rest st hsplit hst
  have hle : (done.map Prod.snd).sum + u.2 ≤ (us.map Prod.snd).sum := by
    rw [hsplit]
    simp
  have hroom : total st.perWork + st.unallocated + u.2 < 2 ^ 128 := by
    have hcons := hst.conserved
    omega
  refine (userStep_meets (hget u.1) (hclamp u.1) (hlen u.1) hroom).mono
    (fun _ _ h => hst.snoc h) fun t ht => ht.mono fun h => ?_
  have hcause : FeesOverflow rowsOfUser (done ++ [u]) := by
    rcases h with (h | ⟨w, h⟩) | ⟨e, he, h⟩
    · exact Or.inl ⟨u, by simp, h⟩
    · refine Or.inr (Or.inl ⟨w, ?_⟩)
      rwa [usageOn_append_singleton, ← hst.usage]
    · exact Or.inr (Or.inr ⟨u, by simp, e, he, h⟩)
  have hall := hcause.append rest
  rwa [List.append_assoc, List.singleton_append, ← hsplit] at hall

end Dapr
end CleanWeb
