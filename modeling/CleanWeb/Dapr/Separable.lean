import CleanWeb.Dapr.Contribution

/-!
# Users are settled separately

Settling two disjoint groups of subscribers together pays what settling them apart pays, and the
order in which different users' rows come does not matter.
-/

namespace CleanWeb
namespace Dapr

open Lib Lib.Exec Lib.BTreeMap

/-! ## Disjoint groups of subscribers -/

theorem toList_union_perm {F₁ F₂ : BTreeMap UserId Nat} (hdisj : ∀ u ∈ F₁, u ∉ F₂) :
    (F₁ ∪ F₂).toList.Perm (F₁.toList ++ F₂.toList) := by
  refine perm_of_getElem? ?_ ?_
  · -- No user has an entry in both.
    refine List.nodup_append.2 ⟨nodup_toList F₁, nodup_toList F₂, ?_⟩
    rintro ⟨u, fee⟩ h₁ ⟨u', fee'⟩ h₂ heq
    cases heq
    refine hdisj u ?_ ?_
    · exact Std.ExtTreeMap.mem_iff_isSome_getElem?.2 (by simp [mem_toList.1 h₁])
    · exact Std.ExtTreeMap.mem_iff_isSome_getElem?.2 (by simp [mem_toList.1 h₂])
  · -- The union prefers `F₂`, which has no entry for a user of `F₁`.
    intro u fee
    rw [List.mem_append, mem_toList, mem_toList, Std.ExtTreeMap.getElem?_union]
    by_cases h₁ : u ∈ F₁
    · simp [Std.ExtTreeMap.getElem?_eq_none (hdisj u h₁)]
    · simp [Std.ExtTreeMap.getElem?_eq_none h₁]

/-! ## Distinct users -/

/-- The fee payers among `us` with a row on `w`. -/
def usersOn (rowsOfUser : UserId → List (RawRow × Nat)) (us : List (UserId × Nat)) (w : WorkId) :
    List UserId :=
  (us.map Prod.fst).filter fun u => w ∈ (rowsOfUser u).map (·.1.work)

/-- The set collected for a work has these users and no others. -/
theorem Contributions.size_users {rowsOfUser : UserId → List (RawRow × Nat)}
    {us : List (UserId × Nat)} {st : FeePass} (h : Contributions rowsOfUser us st)
    (hus : (us.map Prod.fst).Nodup) (w : WorkId) :
    (st.repUsers.getD w ∅).size = (usersOn rowsOfUser us w).length := by
  rw [← Std.ExtTreeSet.length_toList]
  refine List.Perm.length_eq ?_
  -- Both are duplicate-free, so equal members give equal lengths.
  have hset : (st.repUsers.getD w ∅).toList.Nodup := by
    refine (Std.ExtTreeSet.distinct_toList (t := st.repUsers.getD w ∅)).imp ?_
    rintro a b hne rfl
    exact hne Std.compare_self
  refine (List.perm_ext_iff_of_nodup hset (hus.filter _)).2 ?_
  intro u
  rw [Std.ExtTreeSet.mem_toList, h.users]
  simp

/-- Each of them has a row of its own. -/
theorem length_usersOn_le {rows : List RawRow} {credibilityPpm : List Nat}
    {us : List (UserId × Nat)} (hus : (us.map Prod.fst).Nodup) (w : WorkId) :
    (usersOn (rowsOf rows credibilityPpm) us w).length ≤ rows.length := by
  have hsub : ∀ u ∈ usersOn (rowsOf rows credibilityPpm) us w, u ∈ rows.map (·.user) := by
    intro u hu
    have hw := (List.mem_filter.1 hu).2
    rw [decide_eq_true_eq] at hw
    rcases List.mem_map.1 hw with ⟨e, he, -⟩
    rcases mem_of_mem_rowsOf he with ⟨hrow, huser⟩
    exact List.mem_map.2 ⟨e.1, hrow, huser⟩
  calc
    (usersOn (rowsOf rows credibilityPpm) us w).length
        ≤ (rows.map (·.user)).length := ((hus.filter _).subperm hsub).length_le
    _ = rows.length := List.length_map _

/-! ## Sums of allocations -/

/-- The empty signal. -/
def Reputation.zero : Reputation :=
  ⟨0, 0⟩

def Reputation.add (a b : Reputation) : Reputation :=
  ⟨a.distinctUsers + b.distinctUsers, a.weightedUsage + b.weightedUsage⟩

/-- `p` is the pointwise sum of `p₁` and `p₂`, in every field. -/
structure PayoutsSum (p₁ p₂ p : Payouts) : Prop where
  perWork : PointwiseSum p₁.perWork p₂.perWork p.perWork
  unallocated : p.unallocated = p₁.unallocated + p₂.unallocated
  works : ∀ w, w ∈ p.reputation ↔ w ∈ p₁.reputation ∨ w ∈ p₂.reputation
  reputation : ∀ w, p.reputation.getD w .zero =
    (p₁.reputation.getD w .zero).add (p₂.reputation.getD w .zero)

/-- The reputation of a returned allocation, read off the accumulators. -/
theorem reputation_getD {rows : List RawRow} {credibilityPpm : List Nat}
    {us : List (UserId × Nat)} {st : FeePass} (hrows : rows.length < 2 ^ 64)
    (h : Contributions (rowsOf rows credibilityPpm) us st) (hus : (us.map Prod.fst).Nodup)
    (w : WorkId) :
    (st.repUsage.map fun w weightedUsage =>
        { distinctUsers := (st.repUsers.getD w ∅).size % 2 ^ 64,
          weightedUsage := weightedUsage : Reputation }).getD w .zero =
      ⟨(usersOn (rowsOf rows credibilityPpm) us w).length,
        amountAt w (us.flatMap fun u => usageOf (rowsOf rows credibilityPpm u.1))⟩ := by
  have hle := @length_usersOn_le rows credibilityPpm us hus w
  -- The cast to `u64` keeps the count, for there are at least as many rows.
  have hmod : (usersOn (rowsOf rows credibilityPpm) us w).length % 2 ^ 64 =
      (usersOn (rowsOf rows credibilityPpm) us w).length := Nat.mod_eq_of_lt (by omega)
  have hamount : st.repUsage.getD w 0 = (st.repUsage[w]?).getD 0 :=
    Std.ExtTreeMap.getD_eq_getD_getElem?
  rw [Std.ExtTreeMap.getD_eq_getD_getElem?, Std.ExtTreeMap.getElem?_map, ← h.usage.amount,
    hamount]
  cases hget : st.repUsage[w]? with
  | some usage =>
      rw [Option.map_some, Option.getD_some, Option.getD_some, h.size_users hus, hmod]
  | none =>
      -- Without usage there is no row, hence no user.
      have hnot : w ∉ st.repUsage := by
        rw [Std.ExtTreeMap.mem_iff_isSome_getElem?, hget]
        simp
      have hnil : usersOn (rowsOf rows credibilityPpm) us w = [] := by
        rw [usersOn, List.filter_eq_nil_iff]
        intro u hu hw
        rcases List.mem_map.1 hu with ⟨entry, hentry, rfl⟩
        rw [decide_eq_true_eq] at hw
        rcases List.mem_map.1 hw with ⟨e, he, rfl⟩
        refine hnot ((h.usage.keys _).2 (List.mem_map.2 ⟨(e.1.work, credOf e), ?_, rfl⟩))
        exact List.mem_flatMap.2 ⟨entry, hentry, List.mem_map.2 ⟨e, he, rfl⟩⟩
      rw [hnil]
      rfl

/-- Accumulating two disjoint groups together is accumulating them apart. -/
theorem payoutsSum_of_disjoint {F₁ F₂ : BTreeMap UserId Nat} {rows : List RawRow}
    {credibilityPpm : List Nat} {p₁ p₂ p : Payouts} (hrows : rows.length < 2 ^ 64)
    (hdisj : ∀ u ∈ F₁, u ∉ F₂)
    (h₁ : allocateFromRawWithRowCredibility F₁ rows credibilityPpm = .ok p₁)
    (h₂ : allocateFromRawWithRowCredibility F₂ rows credibilityPpm = .ok p₂)
    (h : allocateFromRawWithRowCredibility (F₁ ∪ F₂) rows credibilityPpm = .ok p) :
    PayoutsSum p₁ p₂ p := by
  have hperm := toList_union_perm hdisj
  rcases allocate_ok h₁ with ⟨st₁, hst₁, rfl⟩
  rcases allocate_ok h₂ with ⟨st₂, hst₂, rfl⟩
  rcases allocate_ok h with ⟨st, hst, rfl⟩
  -- The tallies do not depend on the order in which the users came.
  have hpaid := hst.perWork.of_perm (hperm.flatMap_right _)
  have husage := hst.usage.of_perm (hperm.flatMap_right _)
  rw [List.flatMap_append] at hpaid husage
  have hsum := husage.append hst₁.usage hst₂.usage
  refine ⟨hpaid.append hst₁.perWork hst₂.perWork, ?_, ?_, ?_⟩
  · rw [hst.unallocated, hst₁.unallocated, hst₂.unallocated, (hperm.map _).sum_eq,
      List.map_append, List.sum_append]
  · intro w
    simpa using hsum.keys w
  · intro w
    rw [reputation_getD hrows hst (nodup_keys _), reputation_getD hrows hst₁ (nodup_keys _),
      reputation_getD hrows hst₂ (nodup_keys _), Reputation.add, Reputation.mk.injEq]
    refine ⟨?_, ?_⟩
    · have hlen : (usersOn (rowsOf rows credibilityPpm) (F₁ ∪ F₂).toList w).Perm
          (usersOn (rowsOf rows credibilityPpm) (F₁.toList ++ F₂.toList) w) :=
        (hperm.map Prod.fst).filter _
      rw [hlen.length_eq]
      simp [usersOn]
    · rw [amountAt_perm w (hperm.flatMap_right _), List.flatMap_append, amountAt_append]

/-! ## Interleavings of the rows -/

/-- The same rows with their credibilities, in an order that agrees user by user. -/
structure Interleaving (zs zs' : List (RawRow × Nat)) : Prop where
  perm : zs.Perm zs'
  order : ∀ user, zs.filter (fun e => e.1.user = user) = zs'.filter (fun e => e.1.user = user)

theorem rowsOf_unzip (zs : List (RawRow × Nat)) (user : UserId) :
    rowsOf (zs.map Prod.fst) (zs.map Prod.snd) user =
      (zs.filter fun e => e.1.user = user).map fun e => (e.1, min e.2 1000000) := by
  have hzip : (zs.map Prod.fst).zip (zs.map Prod.snd) = zs := by
    rw [List.zip_map', List.map_id'']
    simp
  rw [rowsOf, hzip]

/-- The iteration for a user reads the user's own rows only. -/
theorem userStep_congr {m m' : BTreeMap UserId (List (RawRow × Nat))}
    (h : ∀ u, m.getD u [] = m'.getD u []) : userStep m = userStep m' := by
  funext st entry
  unfold userStep
  dsimp only
  rw [h]

theorem allocate_interleaving {F : BTreeMap UserId Nat} {zs zs' : List (RawRow × Nat)}
    (h : Interleaving zs zs') :
    allocateFromRawWithRowCredibility F (zs.map Prod.fst) (zs.map Prod.snd) =
      allocateFromRawWithRowCredibility F (zs'.map Prod.fst) (zs'.map Prod.snd) := by
  -- The two groupings agree at every user, which is all the fee loop looks at.
  have hrows : ∀ u, (groupRows (zs.map Prod.fst) (zs.map Prod.snd)).getD u [] =
      (groupRows (zs'.map Prod.fst) (zs'.map Prod.snd)).getD u [] := by
    intro u
    rw [groupRows_getD, groupRows_getD, rowsOf_unzip, rowsOf_unzip, h.order]
  unfold allocateFromRawWithRowCredibility
  rw [if_neg (by simp), if_neg (by simp)]
  dsimp only
  rw [userStep_congr hrows]

/-! ## Both together -/

/-- Disjoint subscribers add up, for every rows and credibilities whose allocations are returned;
and every interleaving of the users' rows gives the same outcome. -/
theorem users_separable (zs : List (RawRow × Nat)) (hrows : zs.length < 2 ^ 64) :
    (∀ (F₁ F₂ : BTreeMap UserId Nat) (p₁ p₂ p : Payouts), (∀ u ∈ F₁, u ∉ F₂) →
      allocateFromRawWithRowCredibility F₁ (zs.map Prod.fst) (zs.map Prod.snd) = .ok p₁ →
      allocateFromRawWithRowCredibility F₂ (zs.map Prod.fst) (zs.map Prod.snd) = .ok p₂ →
      allocateFromRawWithRowCredibility (F₁ ∪ F₂) (zs.map Prod.fst) (zs.map Prod.snd) = .ok p →
      PayoutsSum p₁ p₂ p) ∧
    ∀ (F : BTreeMap UserId Nat) (zs' : List (RawRow × Nat)), Interleaving zs zs' →
      allocateFromRawWithRowCredibility F (zs.map Prod.fst) (zs.map Prod.snd) =
        allocateFromRawWithRowCredibility F (zs'.map Prod.fst) (zs'.map Prod.snd) := by
  refine ⟨?_, ?_⟩
  · intro F₁ F₂ p₁ p₂ p hdisj h₁ h₂ h
    exact payoutsSum_of_disjoint (by simpa using hrows) hdisj h₁ h₂ h
  · intro F zs' h
    exact allocate_interleaving h

/-- The second row comes first. -/
theorem sample_interleaving :
    Interleaving [(⟨"u1", "wA", 1⟩, 1000000), (⟨"u2", "wA", 2⟩, 500000), (⟨"u1", "wB", 2⟩, 1000000)]
      [(⟨"u2", "wA", 2⟩, 500000), (⟨"u1", "wA", 1⟩, 1000000), (⟨"u1", "wB", 2⟩, 1000000)] := by
  refine ⟨List.Perm.swap _ _ _, ?_⟩
  intro user
  by_cases h₁ : "u1" = user
  · subst h₁
    simp
  · by_cases h₂ : "u2" = user
    · subst h₂
      simp
    · simp [h₁, h₂]

/-- Two subscribers with a work in common, settled together and apart. -/
theorem users_separable_shared :
    ∃ p₁ p₂ p, PayoutsSum p₁ p₂ p ∧
      allocateFromRawWithRowCredibility ({("u1", 10)} ∪ {("u2", 7)})
        [⟨"u1", "wA", 1⟩, ⟨"u2", "wA", 2⟩, ⟨"u1", "wB", 2⟩] [1000000, 500000, 1000000] = .ok p ∧
      allocateFromRawWithRowCredibility {("u1", 10)}
          [⟨"u1", "wA", 1⟩, ⟨"u2", "wA", 2⟩, ⟨"u1", "wB", 2⟩] [1000000, 500000, 1000000] =
        allocateFromRawWithRowCredibility {("u1", 10)}
          [⟨"u2", "wA", 2⟩, ⟨"u1", "wA", 1⟩, ⟨"u1", "wB", 2⟩] [500000, 1000000, 1000000] := by
  have hall := users_separable [(⟨"u1", "wA", 1⟩, 1000000), (⟨"u2", "wA", 2⟩, 500000),
    (⟨"u1", "wB", 2⟩, 1000000)] (by decide)
  have h₁ : trap (allocateFromRawWithRowCredibility {("u1", 10)}
      [⟨"u1", "wA", 1⟩, ⟨"u2", "wA", 2⟩, ⟨"u1", "wB", 2⟩] [1000000, 500000, 1000000]) = none := by
    decide +kernel
  have h₂ : trap (allocateFromRawWithRowCredibility {("u2", 7)}
      [⟨"u1", "wA", 1⟩, ⟨"u2", "wA", 2⟩, ⟨"u1", "wB", 2⟩] [1000000, 500000, 1000000]) = none := by
    decide +kernel
  have h : trap (allocateFromRawWithRowCredibility ({("u1", 10)} ∪ {("u2", 7)})
      [⟨"u1", "wA", 1⟩, ⟨"u2", "wA", 2⟩, ⟨"u1", "wB", 2⟩] [1000000, 500000, 1000000]) = none := by
    decide +kernel
  rcases exists_ok_of_trap h₁ with ⟨p₁, hp₁⟩
  rcases exists_ok_of_trap h₂ with ⟨p₂, hp₂⟩
  rcases exists_ok_of_trap h with ⟨p, hp⟩
  have hdisj : ∀ u ∈ ({("u1", 10)} : BTreeMap UserId Nat),
      u ∉ ({("u2", 7)} : BTreeMap UserId Nat) := by
    intro u hu
    have heq : "u1" = u := by simpa using hu
    subst heq
    decide +kernel
  exact ⟨p₁, p₂, p, hall.1 _ _ p₁ p₂ p hdisj hp₁ hp₂ hp, hp, hall.2 _ _ sample_interleaving⟩

end Dapr
end CleanWeb
