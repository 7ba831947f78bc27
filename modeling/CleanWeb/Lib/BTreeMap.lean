import Mathlib.Algebra.Order.Ring.Nat
import Mathlib.Data.List.Perm.Subperm
import Mathlib.Data.List.Nodup
import Mathlib.Algebra.BigOperators.Group.List.Basic
import Mathlib.Algebra.Order.BigOperators.Group.List
import Mathlib.Tactic.Common
import Std.Data.ExtTreeMap
import Std.Data.ExtTreeSet

/-!
# BTreeMap — totals of ordered maps

Ordered maps are `Std.ExtTreeMap` over the key order, so that two maps with the same entries are
equal.  This module adds what bookkeeping over such maps needs: the total of the values, how an
insertion changes it, and the total as a fold over the entries.
-/

namespace CleanWeb
namespace Lib

open Std

/-- An ordered map, iterated in increasing key order. -/
abbrev BTreeMap (K V : Type) [Ord K] := ExtTreeMap K V compare

/-- An ordered set. -/
abbrev BTreeSet (K : Type) [Ord K] := ExtTreeSet K compare

namespace BTreeMap

variable {K V : Type} [Ord K] [TransOrd K] [LawfulEqOrd K]

/-! ## Entries -/

theorem nodup_toList (m : BTreeMap K V) : m.toList.Nodup := by
  refine (ExtTreeMap.distinct_keys_toList (t := m)).imp ?_
  rintro a b hne rfl
  exact hne compare_self

theorem nodup_keys (m : BTreeMap K V) : (m.toList.map Prod.fst).Nodup := by
  refine List.pairwise_map.2 ((ExtTreeMap.distinct_keys_toList (t := m)).imp ?_)
  intro a b hne heq
  exact hne (by simp [heq])

theorem mem_toList {m : BTreeMap K V} {k : K} {v : V} : (k, v) ∈ m.toList ↔ m[k]? = some v :=
  ExtTreeMap.mem_toList_iff_getElem?_eq_some

/-- Two maps with the same entries have the same entry list, up to order. -/
theorem perm_of_getElem? {m : BTreeMap K V} {l : List (K × V)} (hl : l.Nodup)
    (h : ∀ k v, m[k]? = some v ↔ (k, v) ∈ l) : m.toList.Perm l := by
  refine (List.perm_ext_iff_of_nodup (nodup_toList m) hl).2 ?_
  rintro ⟨k, v⟩
  rw [mem_toList, h]

theorem toList_insert_empty (k : K) (v : V) :
    ((∅ : BTreeMap K V).insert k v).toList = [(k, v)] := by
  refine List.perm_singleton.1 (perm_of_getElem? (List.nodup_singleton _) ?_)
  intro k' v'
  by_cases hk : k = k'
  · subst hk
    simp [eq_comm]
  · simp [hk, Ne.symm hk]

/-- The entry of a present key, split off. -/
theorem toList_perm_cons_erase {m : BTreeMap K V} {k : K} {v : V} (h : m[k]? = some v) :
    m.toList.Perm ((k, v) :: (m.erase k).toList) := by
  have hnot : (k, v) ∉ (m.erase k).toList := by
    simp
  refine perm_of_getElem? (List.nodup_cons.2 ⟨hnot, nodup_toList _⟩) ?_
  intro k' v'
  by_cases hk : k = k'
  · subst hk
    simp [h, eq_comm]
  · simp [ExtTreeMap.getElem?_erase, hk, Ne.symm hk]

/-- Filtering distinct keys for one of them leaves its entry. -/
theorem filter_key_eq {K V : Type} [DecidableEq K] {l : List (K × V)}
    (hkeys : (l.map Prod.fst).Nodup) {k : K} {v : V} (h : (k, v) ∈ l) :
    l.filter (fun e => e.1 = k) = [(k, v)] := by
  induction l with
  | nil =>
      simp at h
  | cons e l ih =>
      rcases List.nodup_cons.1 hkeys with ⟨hnot, hrest⟩
      rcases List.mem_cons.1 h with rfl | hmem
      · have hnone : l.filter (fun e => e.1 = k) = [] := by
          rw [List.filter_eq_nil_iff]
          intro x hx hxk
          have hkey : x.1 = k := by simpa using hxk
          exact hnot (List.mem_map.2 ⟨x, hx, hkey⟩)
        simp [hnone]
      · have hne : e.1 ≠ k := by
          rintro rfl
          exact hnot (List.mem_map.2 ⟨(e.1, v), hmem, rfl⟩)
        simp [hne, ih hrest hmem]

theorem erase_of_getElem?_none {m : BTreeMap K V} {k : K} (h : m[k]? = none) : m.erase k = m := by
  refine ExtTreeMap.ext_getElem? ?_
  intro k'
  by_cases hk : k = k'
  · subst hk
    simp [h]
  · simp [ExtTreeMap.getElem?_erase, hk]

theorem erase_insert (m : BTreeMap K V) (k : K) (v : V) : (m.insert k v).erase k = m.erase k := by
  refine ExtTreeMap.ext_getElem? ?_
  intro k'
  by_cases hk : k = k'
  · subst hk
    simp
  · simp [ExtTreeMap.getElem?_erase, ExtTreeMap.getElem?_insert, hk]

/-! ## Totals -/

/-- The sum of all values. -/
def total (m : BTreeMap K Nat) : Nat :=
  (m.toList.map Prod.snd).sum

omit [LawfulEqOrd K] in
@[simp] theorem total_empty : total (∅ : BTreeMap K Nat) = 0 := by
  have hnil : (∅ : BTreeMap K Nat).toList = [] := ExtTreeMap.toList_eq_nil_iff.2 rfl
  simp [total, hnil]

/-- The total is the value at `k` plus the total of the rest. -/
theorem total_eq_getD_add (m : BTreeMap K Nat) (k : K) :
    total m = m.getD k 0 + total (m.erase k) := by
  rw [ExtTreeMap.getD_eq_getD_getElem?]
  cases h : m[k]? with
  | none =>
      simp [erase_of_getElem?_none h]
  | some v =>
      have hperm := ((toList_perm_cons_erase h).map Prod.snd).sum_eq
      simpa [total] using hperm

theorem getD_le_total (m : BTreeMap K Nat) (k : K) : m.getD k 0 ≤ total m := by
  rw [total_eq_getD_add m k]
  exact Nat.le_add_right _ _

/-- Raising the value at `k` by `v` raises the total by `v`. -/
theorem total_insert_add (m : BTreeMap K Nat) (k : K) (v : Nat) :
    total (m.insert k (m.getD k 0 + v)) = total m + v := by
  rw [total_eq_getD_add (m.insert k _) k, total_eq_getD_add m k, erase_insert,
    ExtTreeMap.getD_insert_self]
  omega

theorem getD_insert_add (m : BTreeMap K Nat) (k k' : K) (v : Nat) [DecidableEq K] :
    (m.insert k (m.getD k 0 + v)).getD k' 0 = m.getD k' 0 + if k = k' then v else 0 := by
  by_cases hk : k = k'
  · subst hk
    simp
  · simp [ExtTreeMap.getD_insert, hk]

end BTreeMap
end Lib
end CleanWeb
