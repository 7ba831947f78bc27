import CleanWeb.Dapr.FeePass

/-!
# Settling fewer subscribers

An allocation that returns still returns when a subscriber's fee is taken out: every accumulator of
the fee loop is then no larger, so that no checked addition that held can fail.
-/

namespace CleanWeb
namespace Dapr

open Lib Lib.Exec Lib.BTreeMap

/-- No work has more in `m₀` than in `m`. -/
def Below (m₀ m : BTreeMap WorkId Nat) : Prop :=
  ∀ w, m₀.getD w 0 ≤ m.getD w 0

theorem Below.insert_add {m₀ m : BTreeMap WorkId Nat} (h : Below m₀ m) (w : WorkId) (v : Nat) :
    Below (m₀.insert w (m₀.getD w 0 + v)) (m.insert w (m.getD w 0 + v)) := by
  intro w'
  rw [getD_insert_add, getD_insert_add]
  exact Nat.add_le_add_right (h w') _

theorem Below.insert_add_right {m₀ m : BTreeMap WorkId Nat} (h : Below m₀ m) (w : WorkId)
    (v : Nat) : Below m₀ (m.insert w (m.getD w 0 + v)) := by
  intro w'
  rw [getD_insert_add]
  exact (h w').trans (Nat.le_add_right _ _)

theorem checkedAdd_of_le {a a' b c : Nat} (hle : a' ≤ a)
    (h : (okOr (checkedAdd 128 a b) .overflow : Exec DaprError Nat) = .ok c) :
    c = a + b ∧ (okOr (checkedAdd 128 a' b) .overflow : Exec DaprError Nat) = .ok (a' + b) := by
  rw [okOr_eq_ok, checkedAdd_eq_some] at h
  refine ⟨h.2.symm, ?_⟩
  rw [okOr_eq_ok, checkedAdd_eq_some]
  exact ⟨(Nat.add_le_add_right hle b).trans_lt h.1, rfl⟩

/-! ## One user -/

/-- The sums of the user agree, and no work has gathered more usage. -/
structure RowsWithin (st₀ st : RowPass) : Prop where
  creds : st₀.creds = st.creds
  rwU : st₀.rwU = st.rwU
  sumCred : st₀.sumCred = st.sumCred
  usage : Below st₀.repUsage st.repUsage

theorem rowStep_within {user : UserId} (st₀ st : RowPass) (e : RawRow × Nat) (st' : RowPass)
    (h : RowsWithin st₀ st) (hstep : rowStep user st e = .ok st') :
    ∃ st₀', rowStep user st₀ e = .ok st₀' ∧ RowsWithin st₀' st' := by
  unfold rowStep at hstep
  rcases bind_eq_ok.1 hstep with ⟨cred, hcred, hstep⟩
  rcases bind_eq_ok.1 hstep with ⟨rwU, hrwU, hstep⟩
  rcases bind_eq_ok.1 hstep with ⟨sumCred, hsumCred, hstep⟩
  rcases bind_eq_ok.1 hstep with ⟨updated, hupdated, hstep⟩
  rcases checkedAdd_of_le (h.usage e.1.work) hupdated with ⟨rfl, hupdated₀⟩
  cases hstep
  refine ⟨{ creds := st₀.creds ++ [cred]
            rwU := rwU
            sumCred := sumCred
            repUsage := st₀.repUsage.insert e.1.work (st₀.repUsage.getD e.1.work 0 + cred)
            repUsers := st₀.repUsers.insert e.1.work
              ((st₀.repUsers.getD e.1.work ∅).insert user) }, ?_, ?_⟩
  · simp only [rowStep, hcred, h.rwU, hrwU, h.sumCred, hsumCred, hupdated₀, ok_bind]
    rfl
  · exact ⟨congrArg (· ++ [cred]) h.creds, rfl, rfl, h.usage.insert_add e.1.work cred⟩

/-- The rows only add to the usage gathered before. -/
theorem rowLoop_above {user : UserId} {m₀ : BTreeMap WorkId Nat} {rs : List (RawRow × Nat)}
    {st st' : RowPass} (h : Below m₀ st.repUsage) (hloop : rs.foldlM (rowStep user) st = .ok st') :
    Below m₀ st'.repUsage := by
  induction rs generalizing st with
  | nil =>
      cases hloop
      exact h
  | cons e rs ih =>
      rw [List.foldlM_cons] at hloop
      rcases bind_eq_ok.1 hloop with ⟨next, hstep, hrest⟩
      refine ih ?_ hrest
      unfold rowStep at hstep
      rcases bind_eq_ok.1 hstep with ⟨cred, -, hstep⟩
      rcases bind_eq_ok.1 hstep with ⟨rwU, -, hstep⟩
      rcases bind_eq_ok.1 hstep with ⟨sumCred, -, hstep⟩
      rcases bind_eq_ok.1 hstep with ⟨updated, hupdated, hstep⟩
      rcases checkedAdd_of_le le_rfl hupdated with ⟨rfl, -⟩
      cases hstep
      exact h.insert_add_right e.1.work cred

theorem payShare_within (m₀ m : BTreeMap WorkId Nat) (entry : (RawRow × Nat) × Nat)
    (m' : BTreeMap WorkId Nat) (h : Below m₀ m) (hstep : payShare m entry = .ok m') :
    ∃ m₀', payShare m₀ entry = .ok m₀' ∧ Below m₀' m' := by
  unfold payShare at hstep
  rcases bind_eq_ok.1 hstep with ⟨paid, hpaid, hstep⟩
  rcases checkedAdd_of_le (h entry.1.1.work) hpaid with ⟨rfl, hpaid₀⟩
  cases hstep
  refine ⟨m₀.insert entry.1.1.work (m₀.getD entry.1.1.work 0 + entry.2), ?_,
    h.insert_add entry.1.1.work entry.2⟩
  simp only [payShare, hpaid₀, ok_bind]
  rfl

theorem payLoop_above {m₀ : BTreeMap WorkId Nat} {entries : List ((RawRow × Nat) × Nat)}
    {m m' : BTreeMap WorkId Nat} (h : Below m₀ m) (hloop : entries.foldlM payShare m = .ok m') :
    Below m₀ m' := by
  induction entries generalizing m with
  | nil =>
      cases hloop
      exact h
  | cons entry entries ih =>
      rw [List.foldlM_cons] at hloop
      rcases bind_eq_ok.1 hloop with ⟨next, hstep, hrest⟩
      refine ih ?_ hrest
      unfold payShare at hstep
      rcases bind_eq_ok.1 hstep with ⟨paid, hpaid, hstep⟩
      rcases checkedAdd_of_le le_rfl hpaid with ⟨rfl, -⟩
      cases hstep
      exact h.insert_add_right entry.1.1.work entry.2

/-! ## The fee loop -/

/-- No accumulator of `st₀` is above that of `st`. -/
structure FeesWithin (st₀ st : FeePass) : Prop where
  perWork : Below st₀.perWork st.perWork
  unallocated : st₀.unallocated ≤ st.unallocated
  usage : Below st₀.repUsage st.repUsage

variable {rowsByUser : BTreeMap UserId (List (RawRow × Nat))}

theorem userStep_within (st₀ st : FeePass) (entry : UserId × Nat) (st' : FeePass)
    (h : FeesWithin st₀ st) (hstep : userStep rowsByUser st entry = .ok st') :
    ∃ st₀', userStep rowsByUser st₀ entry = .ok st₀' ∧ FeesWithin st₀' st' := by
  unfold userStep at hstep
  dsimp only at hstep
  rcases bind_eq_ok.1 hstep with ⟨pass, hpass, hstep⟩
  have hinit : RowsWithin ⟨[], 0, 0, st₀.repUsage, st₀.repUsers⟩
      ⟨[], 0, 0, st.repUsage, st.repUsers⟩ := ⟨rfl, rfl, rfl, h.usage⟩
  rcases foldlM_simulates rowStep_within hinit hpass with ⟨pass₀, hpass₀, hwithin⟩
  split at hstep
  · -- The whole fee stays unallocated in both loops.
    rename_i hzero
    rcases bind_eq_ok.1 hstep with ⟨unallocated, hun, hstep⟩
    rcases checkedAdd_of_le h.unallocated hun with ⟨rfl, hun₀⟩
    cases hstep
    refine ⟨⟨st₀.perWork, st₀.unallocated + entry.2, pass₀.repUsage, pass₀.repUsers⟩, ?_,
      h.perWork, Nat.add_le_add_right h.unallocated _, hwithin.usage⟩
    rw [← hwithin.rwU, ← hwithin.sumCred] at hzero
    simp only [userStep, hpass₀, ok_bind, if_pos hzero, hun₀]
    rfl
  · rename_i hpos
    rcases bind_eq_ok.1 hstep with ⟨target, htarget, hstep⟩
    rcases bind_eq_ok.1 hstep with ⟨short, hshort, hstep⟩
    rcases bind_eq_ok.1 hstep with ⟨unallocated, hun, hstep⟩
    rcases bind_eq_ok.1 hstep with ⟨shares, hshares, hstep⟩
    rcases bind_eq_ok.1 hstep with ⟨perWork, hpaid, hstep⟩
    rcases checkedAdd_of_le h.unallocated hun with ⟨rfl, hun₀⟩
    rcases foldlM_simulates payShare_within h.perWork hpaid with ⟨perWork₀, hpaid₀, hbelow⟩
    cases hstep
    refine ⟨⟨perWork₀, st₀.unallocated + short, pass₀.repUsage, pass₀.repUsers⟩, ?_, hbelow,
      Nat.add_le_add_right h.unallocated _, hwithin.usage⟩
    rw [← hwithin.rwU, ← hwithin.sumCred] at hpos
    rw [← hwithin.rwU, ← hwithin.sumCred] at htarget
    rw [← hwithin.creds, ← hwithin.sumCred] at hshares
    simp only [userStep, hpass₀, ok_bind, if_neg hpos, htarget, hshort, hun₀, hshares, hpaid₀]
    rfl

theorem userStep_above (st₀ st : FeePass) (entry : UserId × Nat) (st' : FeePass)
    (h : FeesWithin st₀ st) (hstep : userStep rowsByUser st entry = .ok st') :
    FeesWithin st₀ st' := by
  unfold userStep at hstep
  dsimp only at hstep
  rcases bind_eq_ok.1 hstep with ⟨pass, hpass, hstep⟩
  have husage : Below st₀.repUsage pass.repUsage := rowLoop_above h.usage hpass
  split at hstep
  · rcases bind_eq_ok.1 hstep with ⟨unallocated, hun, hstep⟩
    rcases checkedAdd_of_le le_rfl hun with ⟨rfl, -⟩
    cases hstep
    exact ⟨h.perWork, h.unallocated.trans (Nat.le_add_right _ _), husage⟩
  · rcases bind_eq_ok.1 hstep with ⟨target, -, hstep⟩
    rcases bind_eq_ok.1 hstep with ⟨short, -, hstep⟩
    rcases bind_eq_ok.1 hstep with ⟨unallocated, hun, hstep⟩
    rcases bind_eq_ok.1 hstep with ⟨shares, -, hstep⟩
    rcases bind_eq_ok.1 hstep with ⟨perWork, hpaid, hstep⟩
    rcases checkedAdd_of_le le_rfl hun with ⟨rfl, -⟩
    cases hstep
    exact ⟨payLoop_above h.perWork hpaid, h.unallocated.trans (Nat.le_add_right _ _), husage⟩

theorem toList_erase_sublist (m : BTreeMap UserId Nat) (user : UserId) :
    (m.erase user).toList.Sublist m.toList := by
  have hperm : (m.erase user).toList.Perm (m.toList.filter fun u => u.1 ≠ user) := by
    refine perm_of_getElem? ((nodup_toList m).filter _) ?_
    intro k v
    rw [List.mem_filter, mem_toList, Std.ExtTreeMap.getElem?_erase]
    by_cases hk : k = user
    · subst hk
      simp
    · simp [hk, Ne.symm hk]
  -- Both lists are in the order of the keys.
  have heq : (m.erase user).toList = m.toList.filter fun u => u.1 ≠ user := by
    refine hperm.eq_of_pairwise ?_ Std.ExtTreeMap.ordered_keys_toList
      (Std.ExtTreeMap.ordered_keys_toList.filter _)
    intro a b _ _ hab hba
    exact absurd hab (Std.OrientedCmp.not_lt_of_lt hba)
  rw [heq]
  exact List.filter_sublist

/-- Without one subscriber an allocation that returned still returns. -/
theorem exists_allocate_erase {tierFees : BTreeMap UserId Nat} {rows : List RawRow}
    {credibilityPpm : List Nat} {p : Payouts} (user : UserId)
    (h : allocateFromRawWithRowCredibility tierFees rows credibilityPpm = .ok p) :
    ∃ p₀, allocateFromRawWithRowCredibility (tierFees.erase user) rows credibilityPpm = .ok p₀ := by
  unfold allocateFromRawWithRowCredibility at h ⊢
  split at h
  · cases h
  rename_i hlen
  rcases bind_eq_ok.1 h with ⟨pass, hpass, -⟩
  have hinit : FeesWithin ⟨∅, 0, ∅, ∅⟩ ⟨∅, 0, ∅, ∅⟩ :=
    ⟨fun _ => le_rfl, le_rfl, fun _ => le_rfl⟩
  rcases foldlM_simulates_sublist userStep_within userStep_above
    (toList_erase_sublist tierFees user) hinit hpass with ⟨pass₀, hpass₀, -⟩
  rw [if_neg hlen]
  simp only [hpass₀, ok_bind]
  exact ⟨_, rfl⟩

end Dapr
end CleanWeb
