import CleanWeb.Dapr.Model
import CleanWeb.Lib.ProportionalShare

/-!
# What `apportion` returns

The specification of `apportion`: when every product `total * w` fits into 128 bits it returns one
share per weight and the shares sum to exactly `total`; otherwise it returns `overflow`.  No plain
operator on the way leaves its range.
-/

namespace CleanWeb
namespace Dapr

open Lib Lib.Exec Lib.ProportionalShare

/-- The outcome of a computation that can only fail by overflow, and only because of `cause`. -/
def OverflowsBy (cause : Prop) (t : Trap DaprError) : Prop :=
  t = .err .overflow ∧ cause

theorem OverflowsBy.mono {p q : Prop} (h : p → q) {t : Trap DaprError} (ht : OverflowsBy p t) :
    OverflowsBy q t :=
  ⟨ht.1, h ht.2⟩

theorem OverflowsBy.returned {p : Prop} {t : Trap DaprError} (ht : OverflowsBy p t) :
    Returned t := by
  rcases ht with ⟨rfl, -⟩
  simp

/-! ## The flooring loop -/

theorem floorStep_meets {total W : Nat} {st : FloorPass} {w : Nat} (hW : 0 < W)
    (hroom : st.assigned + total * w / W < 2 ^ 128) :
    Meets (floorStep total W st w)
      (fun st' => total * w < 2 ^ 128 ∧
        st' = ⟨st.base ++ [total * w / W], st.remainders ++ [total * w % W],
          st.assigned + total * w / W⟩)
      (OverflowsBy (2 ^ 128 ≤ total * w)) := by
  unfold floorStep
  rw [meets_bind_iff, meets_checkedMul]
  split
  · rename_i hfit
    refine (meets_divU (Q := fun q => q = total * w / W) hW rfl).bind ?_
    rintro floor rfl
    refine (meets_addU (Q := fun s => s = st.assigned + total * w / W) hroom rfl).bind ?_
    rintro assigned rfl
    exact ⟨hfit, rfl⟩
  · rename_i hfit
    exact ⟨rfl, Nat.le_of_not_lt hfit⟩

theorem floorLoop_meets {total W : Nat} {ws : List Nat} (hW : 0 < W)
    (hfits : (floors total W ws).sum < 2 ^ 128) :
    Meets (ws.foldlM (floorStep total W) ⟨[], [], 0⟩)
      (fun st => (∀ w ∈ ws, total * w < 2 ^ 128) ∧
        st = ⟨floors total W ws, remainders total W ws, (floors total W ws).sum⟩)
      (OverflowsBy (∃ w ∈ ws, 2 ^ 128 ≤ total * w)) := by
  refine Meets.foldlM
    (fun done (st : FloorPass) => (∀ w ∈ done, total * w < 2 ^ 128) ∧
      st = ⟨floors total W done, remainders total W done, (floors total W done).sum⟩)
    ⟨by simp, rfl⟩ ?_
  intro done w rest st hws hst
  rcases hst with ⟨hdone, rfl⟩
  -- The running total is a partial sum of the floors, so the addition has room.
  have hroom : (floors total W done).sum + total * w / W < 2 ^ 128 := by
    have hsplit : (floors total W ws).sum =
        (floors total W done).sum + (total * w / W + (floors total W rest).sum) := by
      rw [hws]
      simp [floors]
    omega
  refine (floorStep_meets hW hroom).mono ?_ ?_
  · rintro st' - ⟨hw, rfl⟩
    refine ⟨?_, by simp [floors, remainders]⟩
    intro v hv
    rcases List.mem_append.1 hv with hv | hv
    · exact hdone v hv
    · have hvw : v = w := by simpa using hv
      exact hvw ▸ hw
  · intro t ht
    exact ht.mono fun h => ⟨w, by simp [hws], h⟩

/-! ## Handing out the left-over units -/

theorem bumpAt_meets {base : List Nat} {idx : Nat} (bound : Nat) {E : Trap DaprError → Prop}
    (hidx : idx < base.length) (hsum : base.sum < bound) (hbound : bound < 2 ^ 128) :
    Meets (bumpAt base idx)
      (fun out => out.length = base.length ∧ out.sum = base.sum + 1) E := by
  have hget : base[idx]? = some base[idx] := List.getElem?_eq_getElem hidx
  have hle : base[idx] ≤ base.sum := List.single_le_sum (by simp) _ (List.getElem_mem hidx)
  unfold bumpAt
  rw [hget]
  refine (meets_addU (Q := fun b' => b' = base[idx] + 1) (by omega) rfl).bind ?_
  rintro b' rfl
  exact ⟨by simp, sum_set_succ hget⟩

theorem bumpLoop_meets {base idxs : List Nat} (total : Nat) {E : Trap DaprError → Prop}
    (hidxs : ∀ i ∈ idxs, i < base.length) (hsum : base.sum + idxs.length ≤ total)
    (htotal : total < 2 ^ 128) :
    Meets (idxs.foldlM bumpAt base)
      (fun out => out.length = base.length ∧ out.sum = base.sum + idxs.length) E := by
  refine Meets.foldlM
    (fun done (out : List Nat) => out.length = base.length ∧ out.sum = base.sum + done.length)
    ⟨rfl, rfl⟩ ?_
  intro done i rest out hsplit hout
  rcases hout with ⟨hlen, hout⟩
  have hcount : idxs.length = done.length + (rest.length + 1) := by
    rw [hsplit]
    simp
  have hi : i < out.length := by
    rw [hlen]
    exact hidxs i (by simp [hsplit])
  refine (bumpAt_meets total hi (by omega) htotal).mono ?_ fun _ ht => ht
  rintro out' - ⟨hlen', hsum'⟩
  refine ⟨hlen'.trans hlen, ?_⟩
  simp only [List.length_append, List.length_singleton]
  omega

/-! ## The whole function -/

/-- `apportion` splits `total` exactly, or reports the product that does not fit. -/
theorem apportion_meets (total W : Nat) (ws : List Nat) (hW : 0 < W) (hsum : ws.sum = W)
    (htotal : total < 2 ^ 128) (hlen : ws.length < 2 ^ 64) :
    Meets (apportion total ws W)
      (fun shares => (∀ w ∈ ws, total * w < 2 ^ 128) ∧ shares.length = ws.length ∧
        shares.sum = total)
      (OverflowsBy (∃ w ∈ ws, 2 ^ 128 ≤ total * w)) := by
  have hfloors : (floors total W ws).sum ≤ total := sum_floors_le hW hsum
  have hleft : total - (floors total W ws).sum < ws.length := leftover_lt_length hW hsum
  unfold apportion
  refine (floorLoop_meets hW (by omega)).bind ?_
  rintro st ⟨hfit, rfl⟩
  refine (meets_subU (Q := fun l => l = total - (floors total W ws).sum) hfloors rfl).bind ?_
  rintro leftover rfl
  have hcast : (total - (floors total W ws).sum) % 2 ^ 64 = total - (floors total W ws).sum :=
    Nat.mod_eq_of_lt (by omega)
  dsimp only
  rw [hcast]
  generalize hidxs : List.take (total - (floors total W ws).sum)
    ((List.range ws.length).insertionSort (RanksBefore (remainders total W ws))) = idxs
  have hperm := List.perm_insertionSort (RanksBefore (remainders total W ws))
    (List.range ws.length)
  have hcount : idxs.length = total - (floors total W ws).sum := by
    rw [← hidxs, List.length_take, hperm.length_eq, List.length_range]
    omega
  have hrange : ∀ i ∈ idxs, i < (floors total W ws).length := by
    intro i hi
    have hmem := List.mem_of_mem_take (hidxs ▸ hi)
    simpa using hperm.mem_iff.1 hmem
  refine (bumpLoop_meets total hrange (by omega) htotal).mono ?_ fun _ ht => ht
  rintro shares - ⟨hlength, hshares⟩
  refine ⟨hfit, by simpa using hlength, ?_⟩
  omega

/-! ## Returned shares

What a returned split satisfies whatever the sizes: the shares are within `total`, and a weight of
zero has a share of zero.
-/

theorem floorLoop_ok {total W : Nat} (hW : 0 < W) {ws : List Nat} {st out : FloorPass}
    (h : ws.foldlM (floorStep total W) st = .ok out) :
    out = ⟨st.base ++ floors total W ws, st.remainders ++ remainders total W ws,
      st.assigned + (floors total W ws).sum⟩ := by
  induction ws generalizing st with
  | nil =>
      cases h
      simp [floors, remainders]
  | cons w ws ih =>
      rw [List.foldlM_cons] at h
      rcases bind_eq_ok.1 h with ⟨st', hstep, hrest⟩
      unfold floorStep at hstep
      rcases bind_eq_ok.1 hstep with ⟨numerator, hnum, hstep⟩
      rcases bind_eq_ok.1 hstep with ⟨floor, hfloor, hstep⟩
      rcases bind_eq_ok.1 hstep with ⟨assigned, hassigned, hstep⟩
      have hnum' : numerator = total * w := by
        rw [okOr_eq_ok, checkedMul_eq_some] at hnum
        exact hnum.2.symm
      have hfloor' : floor = total * w / W := by
        rw [divU, if_neg (by omega), hnum'] at hfloor
        exact (Except.ok.inj hfloor).symm
      have hassigned' : assigned = st.assigned + total * w / W := by
        rw [addU_eq_ok, hfloor'] at hassigned
        exact hassigned.2.symm
      cases hstep
      rw [ih hrest, hnum', hfloor', hassigned']
      simp [floors, remainders, Nat.add_assoc]

theorem bumpLoop_ok {idxs base out : List Nat} (h : idxs.foldlM bumpAt base = .ok out) :
    out.length = base.length ∧ out.sum = base.sum + idxs.length ∧
      ∀ i : Nat, i ∉ idxs → out[i]? = base[i]? := by
  induction idxs generalizing base with
  | nil =>
      cases h
      simp
  | cons j idxs ih =>
      rw [List.foldlM_cons] at h
      rcases bind_eq_ok.1 h with ⟨base', hstep, hrest⟩
      rcases ih hrest with ⟨hlen, hsum, hsame⟩
      unfold bumpAt at hstep
      split at hstep
      · cases hstep
      · rename_i b hget
        rcases bind_eq_ok.1 hstep with ⟨b', hb', hset⟩
        have hsucc : b' = b + 1 := by
          rw [addU_eq_ok] at hb'
          exact hb'.2.symm
        cases hset
        rw [hsucc] at hlen hsum hsame
        refine ⟨by simpa using hlen, ?_, ?_⟩
        · rw [hsum, sum_set_succ hget, List.length_cons]
          omega
        · intro i hi
          rw [List.mem_cons, not_or] at hi
          rw [hsame i hi.2, List.getElem?_set_ne (Ne.symm hi.1)]

/-- Sorting by `RanksBefore` sorts: the comparison is total and transitive. -/
theorem pairwise_order (rs : List Nat) (n : Nat) :
    ((List.range n).insertionSort (RanksBefore rs)).Pairwise (RanksBefore rs) := by
  have htotal : Std.Total (RanksBefore rs) := by
    refine ⟨?_⟩
    intro a b
    unfold RanksBefore
    omega
  have htrans : IsTrans Nat (RanksBefore rs) := by
    refine ⟨?_⟩
    intro a b c hab hbc
    unfold RanksBefore at hab hbc ⊢
    omega
  exact List.pairwise_insertionSort (RanksBefore rs) (List.range n)

theorem RanksBefore.le {rs : List Nat} {a b : Nat} (h : RanksBefore rs a b) :
    rs.getD b 0 ≤ rs.getD a 0 := by
  rcases h with hlt | ⟨heq, -⟩
  · exact hlt.le
  · exact heq.le

/-- Units handed out at distinct positions raise each of them once. -/
theorem bumpLoop_getElem? {idxs base out : List Nat} (hnodup : idxs.Nodup)
    (h : idxs.foldlM bumpAt base = .ok out) {i b : Nat} (hi : i ∈ idxs) (hb : base[i]? = some b) :
    out[i]? = some (b + 1) := by
  induction idxs generalizing base with
  | nil => simp at hi
  | cons j idxs ih =>
      rw [List.nodup_cons] at hnodup
      rw [List.foldlM_cons] at h
      rcases bind_eq_ok.1 h with ⟨base', hstep, hrest⟩
      have hbase' : ∃ c, base[j]? = some c ∧ base' = base.set j (c + 1) := by
        unfold bumpAt at hstep
        split at hstep
        · cases hstep
        · rename_i c hget
          rcases bind_eq_ok.1 hstep with ⟨c', hc', hset⟩
          rw [addU_eq_ok] at hc'
          rw [← hc'.2] at hset
          cases hset
          exact ⟨c, hget, rfl⟩
      rcases hbase' with ⟨c, hget, rfl⟩
      by_cases hij : i = j
      · -- Raised here, and not again.
        subst hij
        rw [hget] at hb
        cases hb
        rw [(bumpLoop_ok hrest).2.2 i hnodup.1]
        exact List.getElem?_set_self (List.getElem?_eq_some_iff.1 hget).1
      · have hmem : i ∈ idxs := by
          rcases List.mem_cons.1 hi with heq | hmem
          · exact absurd heq hij
          · exact hmem
        refine ih hnodup.2 hrest hmem ?_
        rw [List.getElem?_set_ne (Ne.symm hij), hb]

/-- The positions that receive one of the left-over units: those that rank first, all of them with a
positive remainder. -/
structure Raised (total W : Nat) (ws idxs : List Nat) : Prop where
  nodup : idxs.Nodup
  length : idxs.length = (total - (floors total W ws).sum) % 2 ^ 64
  remainder_pos : ∀ i ∈ idxs, 0 < (remainders total W ws).getD i 0
  first : ∀ i ∈ idxs, ∀ j < ws.length, j ∉ idxs → RanksBefore (remainders total W ws) i j

theorem raised_take {total W : Nat} {ws : List Nat} (hW : 0 < W) (hsum : ws.sum = W) :
    Raised total W ws (((List.range ws.length).insertionSort
      (RanksBefore (remainders total W ws))).take
        ((total - (floors total W ws).sum) % 2 ^ 64)) := by
  have hmod : (total - (floors total W ws).sum) % 2 ^ 64 ≤ total - (floors total W ws).sum :=
    Nat.mod_le _ _
  have hperm := List.perm_insertionSort (RanksBefore (remainders total W ws))
    (List.range ws.length)
  have hsorted := pairwise_order (remainders total W ws) ws.length
  have hshort : total - (floors total W ws).sum < ws.length := leftover_lt_length hW hsum
  refine ⟨?_, ?_, ?_, ?_⟩
  · exact (hperm.nodup_iff.2 List.nodup_range).sublist (List.take_sublist _ _)
  · rw [List.length_take, hperm.length_eq, List.length_range]
    exact Nat.min_eq_left (hmod.trans hshort.le)
  · intro i hi
    exact remainder_pos_of_mem_take hW hsum hperm (hsorted.imp RanksBefore.le) hmod hi
  · intro i hi j hj hnot
    -- A position that is not taken comes after all that are.
    have hmem := hperm.mem_iff.2 (List.mem_range.2 hj)
    rw [← List.take_append_drop ((total - (floors total W ws).sum) % 2 ^ 64)
      ((List.range ws.length).insertionSort _), List.mem_append] at hmem
    exact hsorted.rel_of_mem_take_of_mem_drop hi (hmem.resolve_left hnot)

/-- A returned split is the floors with the left-over units handed out. -/
theorem apportion_returned {total W : Nat} {ws shares : List Nat} (hW : 0 < W) (hsum : ws.sum = W)
    (h : apportion total ws W = .ok shares) :
    (floors total W ws).sum ≤ total ∧ ∃ idxs : List Nat, Raised total W ws idxs ∧
      idxs.foldlM bumpAt (floors total W ws) = (.ok shares : Exec DaprError (List Nat)) := by
  unfold apportion at h
  rcases bind_eq_ok.1 h with ⟨st, hfloors, h⟩
  rcases bind_eq_ok.1 h with ⟨leftover, hleft, hbumps⟩
  have hst := floorLoop_ok hW hfloors
  have hleft' : st.assigned ≤ total ∧ leftover = total - st.assigned := by
    rw [subU_eq_ok] at hleft
    exact ⟨hleft.1, hleft.2.symm⟩
  rw [hst] at hbumps hleft'
  simp only [List.nil_append, Nat.zero_add] at hbumps hleft'
  rcases hleft' with ⟨hle, rfl⟩
  exact ⟨hle, _, raised_take hW hsum, hbumps⟩

/-- A weight of zero has no remainder. -/
theorem Raised.not_mem_of_zero {total W : Nat} {ws idxs : List Nat} (h : Raised total W ws idxs)
    {i : Nat} (hi : ws[i]? = some 0) : i ∉ idxs := by
  intro hmem
  have hrem := h.remainder_pos i hmem
  rw [getD_remainders hi] at hrem
  simp at hrem

/-- A share is the floor of the exact share, and the unit on top of it where one was handed out. -/
theorem Raised.share {total W : Nat} {ws idxs shares : List Nat} (h : Raised total W ws idxs)
    (hbumps : idxs.foldlM bumpAt (floors total W ws) = (.ok shares : Exec DaprError (List Nat)))
    {i w : Nat} (hi : ws[i]? = some w) :
    shares[i]? = some (total * w / W + if i ∈ idxs then 1 else 0) := by
  have hfloor := @getElem?_floors total W w ws i hi
  by_cases hmem : i ∈ idxs
  · rw [if_pos hmem]
    exact bumpLoop_getElem? h.nodup hbumps hmem hfloor
  · rw [if_neg hmem, (bumpLoop_ok hbumps).2.2 i hmem]
    exact hfloor

/-- The shares of a returned split are within `total`, and nothing goes to a weight of zero. -/
theorem apportion_ok {total W : Nat} {ws shares : List Nat} (hW : 0 < W) (hsum : ws.sum = W)
    (h : apportion total ws W = .ok shares) :
    shares.length = ws.length ∧ shares.sum ≤ total ∧
      ∀ i : Nat, ws[i]? = some 0 → shares[i]? = some 0 := by
  rcases apportion_returned hW hsum h with ⟨hle, idxs, hraised, hbumps⟩
  rcases bumpLoop_ok hbumps with ⟨hlen, htotal, -⟩
  have hmod := Nat.mod_le (total - (floors total W ws).sum) (2 ^ 64)
  refine ⟨by simpa using hlen, ?_, ?_⟩
  · rw [htotal, hraised.length]
    omega
  · intro i hi
    rw [hraised.share hbumps hi, if_neg (hraised.not_mem_of_zero hi)]
    simp

/-- They are together all of `total`, as long as the positions fit a machine word. -/
theorem apportion_sum {total W : Nat} {ws shares : List Nat} (hW : 0 < W) (hsum : ws.sum = W)
    (hlen : ws.length < 2 ^ 64) (h : apportion total ws W = .ok shares) : shares.sum = total := by
  rcases apportion_returned hW hsum h with ⟨hle, idxs, hraised, hbumps⟩
  have hshort : total - (floors total W ws).sum < ws.length := leftover_lt_length hW hsum
  rw [(bumpLoop_ok hbumps).2.1, hraised.length, Nat.mod_eq_of_lt (by omega)]
  omega

/-- A returned share is the floor of the exact share, or one more where the floor is not exact. -/
theorem apportion_share {total W : Nat} {ws shares : List Nat} (hW : 0 < W) (hsum : ws.sum = W)
    (h : apportion total ws W = .ok shares) {i w : Nat} (hi : ws[i]? = some w) :
    shares[i]? = some (total * w / W) ∨
      (shares[i]? = some (total * w / W + 1) ∧ 0 < total * w % W) := by
  rcases apportion_returned hW hsum h with ⟨-, idxs, hraised, hbumps⟩
  rw [hraised.share hbumps hi]
  by_cases hmem : i ∈ idxs
  · have hrem := hraised.remainder_pos i hmem
    rw [getD_remainders hi] at hrem
    exact Or.inr ⟨by rw [if_pos hmem], hrem⟩
  · exact Or.inl (by rw [if_neg hmem, Nat.add_zero])

end Dapr
end CleanWeb
