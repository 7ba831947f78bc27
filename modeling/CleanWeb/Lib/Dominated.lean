import CleanWeb.Lib.BTreeMap

/-!
# Dominated — maps compared entry by entry

`Dominated m m'` says that every key of `m` occurs in `m'`, with at least the same amount.  Sums
over any set of keys, and maps under monotone functions, then compare the same way.
-/

namespace CleanWeb
namespace Lib

open Std

variable {K : Type} [Ord K] [TransOrd K] [LawfulEqOrd K] {m m' : BTreeMap K Nat}

def Dominated (m m' : BTreeMap K Nat) : Prop :=
  ∀ (k : K) (v : Nat), m[k]? = some v → ∃ v', m'[k]? = some v' ∧ v ≤ v'

namespace Dominated

omit [LawfulEqOrd K] in
theorem getD_le (h : Dominated m m') (k : K) : m.getD k 0 ≤ m'.getD k 0 := by
  rw [ExtTreeMap.getD_eq_getD_getElem?, ExtTreeMap.getD_eq_getD_getElem?]
  cases hk : m[k]? with
  | none => exact Nat.zero_le _
  | some v =>
      rcases h k v hk with ⟨v', hk', hle⟩
      rw [hk']
      exact hle

omit [LawfulEqOrd K] in
theorem mem (h : Dominated m m') {k : K} (hk : k ∈ m) : k ∈ m' := by
  rw [ExtTreeMap.mem_iff_isSome_getElem?, Option.isSome_iff_exists] at hk ⊢
  rcases hk with ⟨v, hv⟩
  rcases h k v hv with ⟨v', hv', -⟩
  exact ⟨v', hv'⟩

omit [LawfulEqOrd K] in
theorem of_getD (hkeys : ∀ k, k ∈ m → k ∈ m') (hle : ∀ k, m.getD k 0 ≤ m'.getD k 0) :
    Dominated m m' := by
  intro k v hk
  have hmem : k ∈ m' := by
    refine hkeys k ?_
    rw [ExtTreeMap.mem_iff_isSome_getElem?, hk]
    rfl
  rw [ExtTreeMap.mem_iff_isSome_getElem?, Option.isSome_iff_exists] at hmem
  rcases hmem with ⟨v', hk'⟩
  have hvalue := hle k
  rw [ExtTreeMap.getD_eq_getD_getElem?, ExtTreeMap.getD_eq_getD_getElem?, hk, hk'] at hvalue
  exact ⟨v', hk', hvalue⟩

theorem map (h : Dominated m m') {f : Nat → Nat} (hf : Monotone f) :
    Dominated (m.map fun _ v => f v) (m'.map fun _ v => f v) := by
  intro k v hk
  rw [ExtTreeMap.getElem?_map, Option.map_eq_some_iff] at hk
  rcases hk with ⟨v₀, hk, rfl⟩
  rcases h k v₀ hk with ⟨v', hk', hle⟩
  refine ⟨f v', ?_, hf hle⟩
  rw [ExtTreeMap.getElem?_map, hk']
  rfl

/-- Over any set of keys the amounts sum up to no more. -/
theorem sum_filter_le (h : Dominated m m') (S : K → Prop) [DecidablePred S] :
    ((m.toList.filter fun e => S e.1).map Prod.snd).sum ≤
      ((m'.toList.filter fun e => S e.1).map Prod.snd).sum := by
  have hvalue : ∀ {n : BTreeMap K Nat} {e : K × Nat}, e ∈ n.toList → e.2 = n.getD e.1 0 := by
    rintro n ⟨k, v⟩ he
    rw [ExtTreeMap.getD_eq_getD_getElem?, BTreeMap.mem_toList.1 he]
    rfl
  have hkeys : ((m.toList.filter fun e => S e.1).map Prod.fst).Nodup :=
    (BTreeMap.nodup_keys m).sublist ((List.filter_sublist).map _)
  have hsub : ((m.toList.filter fun e => S e.1).map Prod.fst) ⊆
      ((m'.toList.filter fun e => S e.1).map Prod.fst) := by
    intro k hk
    rcases List.mem_map.1 hk with ⟨⟨k, v⟩, he, rfl⟩
    rcases List.mem_filter.1 he with ⟨hmem, hS⟩
    rcases h k v (BTreeMap.mem_toList.1 hmem) with ⟨v', hk', -⟩
    exact List.mem_map.2 ⟨(k, v'), List.mem_filter.2 ⟨BTreeMap.mem_toList.2 hk', hS⟩, rfl⟩
  rcases hkeys.subperm hsub with ⟨ks, hperm, hpart⟩
  -- Both sides are read off the keys, the left one with the larger amounts.
  calc
    ((m.toList.filter fun e => S e.1).map Prod.snd).sum
        ≤ ((m.toList.filter fun e => S e.1).map fun e => m'.getD e.1 0).sum := by
          refine List.sum_le_sum fun e he => ?_
          rw [hvalue (List.mem_filter.1 he).1]
          exact h.getD_le e.1
    _ = (((m.toList.filter fun e => S e.1).map Prod.fst).map fun k => m'.getD k 0).sum := by
          rw [List.map_map]
          rfl
    _ = (ks.map fun k => m'.getD k 0).sum := ((hperm.map _).sum_eq).symm
    _ ≤ (((m'.toList.filter fun e => S e.1).map Prod.fst).map fun k => m'.getD k 0).sum :=
          (hpart.map _).sum_le_sum fun _ _ => Nat.zero_le _
    _ = ((m'.toList.filter fun e => S e.1).map Prod.snd).sum := by
          rw [List.map_map]
          refine congrArg List.sum (List.map_congr_left ?_)
          intro e he
          exact (hvalue (List.mem_filter.1 he).1).symm

end Dominated
end Lib
end CleanWeb
