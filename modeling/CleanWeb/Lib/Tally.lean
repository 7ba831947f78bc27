import Mathlib.Data.Set.Basic
import CleanWeb.Lib.BTreeMap

/-!
# Tally — maps that add up a list of entries

`Tallies m l` says that the map `m` holds, under exactly the keys that occur in `l`, the sum of the
amounts recorded for them.  A loop that adds entries one at a time tallies them; the tally depends
on the entries up to order only, and concatenating two lists adds their tallies pointwise.
-/

namespace CleanWeb
namespace Lib

open Std

variable {K : Type} [DecidableEq K]

/-! ## Amounts -/

/-- What the entries under the key `k` add up to. -/
def amountAt (k : K) (l : List (K × Nat)) : Nat :=
  ((l.filter fun e => e.1 = k).map Prod.snd).sum

@[simp] theorem amountAt_nil (k : K) : amountAt k [] = 0 := rfl

@[simp] theorem amountAt_append (k : K) (as bs : List (K × Nat)) :
    amountAt k (as ++ bs) = amountAt k as + amountAt k bs := by
  simp [amountAt]

@[simp] theorem amountAt_singleton (k k' : K) (v : Nat) :
    amountAt k [(k', v)] = if k' = k then v else 0 := by
  by_cases h : k' = k
  · simp [amountAt, h]
  · simp [amountAt, h]

theorem amountAt_flatMap {α : Type} (k : K) (l : List α) (f : α → List (K × Nat)) :
    amountAt k (l.flatMap f) = (l.map fun a => amountAt k (f a)).sum := by
  induction l with
  | nil => rfl
  | cons a l ih =>
      rw [List.flatMap_cons, amountAt_append, ih, List.map_cons, List.sum_cons]

theorem amountAt_perm (k : K) {as bs : List (K × Nat)} (h : as.Perm bs) :
    amountAt k as = amountAt k bs :=
  ((h.filter _).map Prod.snd).sum_eq

/-- Entries with an amount under one key only. -/
theorem amountAt_of_only {k : K} {l : List (K × Nat)} (h : ∀ e ∈ l, e.1 ≠ k → e.2 = 0) (k' : K) :
    amountAt k' l = if k' = k then (l.map Prod.snd).sum else 0 := by
  induction l with
  | nil => simp
  | cons e l ih =>
      have hrest := ih fun e' he' => h e' (List.mem_cons_of_mem _ he')
      have hzero := h e (List.mem_cons_self ..)
      rw [← List.singleton_append, amountAt_append, amountAt_singleton, hrest]
      by_cases he : e.1 = k
      · subst he
        by_cases hk : e.1 = k'
        · simp [hk]
        · simp [hk, Ne.symm hk]
      · simp [hzero he]

/-- The amounts under distinct keys are together those of the entries under these keys. -/
theorem sum_amountAt {ks : List K} (h : ks.Nodup) (l : List (K × Nat)) :
    (ks.map fun k => amountAt k l).sum = ((l.filter fun e => e.1 ∈ ks).map Prod.snd).sum := by
  induction l with
  | nil => simp
  | cons e l ih =>
      have hsplit : ∀ k, amountAt k (e :: l) = (if k = e.1 then e.2 else 0) + amountAt k l := by
        intro k
        rw [← List.singleton_append, amountAt_append, amountAt_singleton]
        simp [eq_comm]
      -- The key of `e` occurs among the keys once, or not at all.
      have hone : (ks.map fun k => if k = e.1 then e.2 else 0).sum =
          if e.1 ∈ ks then e.2 else 0 := by
        clear ih hsplit
        induction ks with
        | nil => simp
        | cons k ks ih =>
            rw [List.nodup_cons] at h
            rw [List.map_cons, List.sum_cons, ih h.2]
            by_cases hk : k = e.1
            · subst hk
              simp [h.1]
            · simp [hk, Ne.symm hk]
      simp only [hsplit, List.sum_map_add, ih, hone]
      by_cases hmem : e.1 ∈ ks
      · simp [hmem]
      · simp [hmem]

/-! ## Tallies -/

variable [Ord K] [TransOrd K] [LawfulEqOrd K]

/-- `m` is the tally of `l`. -/
structure Tallies (m : BTreeMap K Nat) (l : List (K × Nat)) : Prop where
  amount : ∀ k, m.getD k 0 = amountAt k l
  keys : ∀ k, k ∈ m ↔ k ∈ l.map Prod.fst

/-- `m` is the pointwise sum of `m₁` and `m₂`: it has the keys of both. -/
structure PointwiseSum (m₁ m₂ m : BTreeMap K Nat) : Prop where
  amount : ∀ k, m.getD k 0 = m₁.getD k 0 + m₂.getD k 0
  keys : ∀ k, k ∈ m ↔ k ∈ m₁ ∨ k ∈ m₂

namespace Tallies

variable {m m₁ m₂ : BTreeMap K Nat} {l l₁ l₂ : List (K × Nat)}

omit [LawfulEqOrd K] in
theorem empty : Tallies (∅ : BTreeMap K Nat) [] :=
  ⟨by simp, by simp⟩

/-- Adding `v` under `k` records one more entry. -/
theorem insert_add (h : Tallies m l) (k : K) (v : Nat) :
    Tallies (m.insert k (m.getD k 0 + v)) (l ++ [(k, v)]) := by
  refine ⟨?_, ?_⟩
  · intro k'
    rw [BTreeMap.getD_insert_add, h.amount, amountAt_append, amountAt_singleton]
  · intro k'
    rw [ExtTreeMap.mem_insert, h.keys, List.map_append, List.mem_append, or_comm]
    simp [@eq_comm _ k k']

omit [LawfulEqOrd K] in
theorem of_perm (h : Tallies m l₁) (hperm : l₁.Perm l₂) : Tallies m l₂ := by
  refine ⟨?_, ?_⟩
  · intro k
    rw [h.amount, amountAt_perm k hperm]
  · intro k
    rw [h.keys, (hperm.map Prod.fst).mem_iff]

/-- A tally is determined by its entries. -/
theorem unique (h₁ : Tallies m₁ l) (h₂ : Tallies m₂ l) : m₁ = m₂ := by
  refine ExtTreeMap.ext_getElem? ?_
  intro k
  have hamount : m₁.getD k 0 = m₂.getD k 0 := by
    rw [h₁.amount, h₂.amount]
  have hkeys : k ∈ m₁ ↔ k ∈ m₂ := by
    rw [h₁.keys, h₂.keys]
  by_cases hk : k ∈ m₁
  · have hk₂ : k ∈ m₂ := hkeys.1 hk
    rw [ExtTreeMap.getD_eq_getD_getElem?, ExtTreeMap.getD_eq_getD_getElem?,
      ExtTreeMap.getElem?_eq_some_getElem hk, ExtTreeMap.getElem?_eq_some_getElem hk₂] at hamount
    rw [ExtTreeMap.getElem?_eq_some_getElem hk, ExtTreeMap.getElem?_eq_some_getElem hk₂]
    exact congrArg some hamount
  · rw [ExtTreeMap.getElem?_eq_none hk, ExtTreeMap.getElem?_eq_none fun hk₂ => hk (hkeys.2 hk₂)]

omit [LawfulEqOrd K] in
/-- The tally of two lists together is the pointwise sum of their tallies. -/
theorem append (h : Tallies m (l₁ ++ l₂)) (h₁ : Tallies m₁ l₁) (h₂ : Tallies m₂ l₂) :
    PointwiseSum m₁ m₂ m := by
  refine ⟨?_, ?_⟩
  · intro k
    rw [h.amount, h₁.amount, h₂.amount, amountAt_append]
  · intro k
    rw [h.keys, h₁.keys, h₂.keys, List.map_append, List.mem_append]

/-- Over any set of keys, the tally adds up to the entries under these keys. -/
theorem sum_filter (h : Tallies m l) (S : K → Prop) [DecidablePred S] :
    ((m.toList.filter fun e => S e.1).map Prod.snd).sum =
      ((l.filter fun e => S e.1).map Prod.snd).sum := by
  have hentry : ∀ e ∈ m.toList, e.2 = amountAt e.1 l := by
    rintro ⟨k, v⟩ he
    rw [← h.amount, ExtTreeMap.getD_eq_getD_getElem?, BTreeMap.mem_toList.1 he]
    rfl
  have hmem : ∀ e ∈ l, e.1 ∈ (m.toList.filter fun e => S e.1).map Prod.fst ↔ S e.1 := by
    intro e he
    have hkey : e.1 ∈ m := (h.keys e.1).2 (List.mem_map_of_mem he)
    constructor
    · intro hin
      rcases List.mem_map.1 hin with ⟨e', he', heq⟩
      have hS : S e'.1 := by simpa using (List.mem_filter.1 he').2
      rwa [heq] at hS
    · intro hS
      have hget : (e.1, m[e.1]) ∈ m.toList :=
        BTreeMap.mem_toList.2 (ExtTreeMap.getElem?_eq_some_getElem hkey)
      exact List.mem_map.2 ⟨_, List.mem_filter.2 ⟨hget, by simpa using hS⟩, rfl⟩
  have hkeys : ((m.toList.filter fun e => S e.1).map Prod.fst).Nodup :=
    (BTreeMap.nodup_keys m).sublist ((List.filter_sublist).map _)
  calc
    ((m.toList.filter fun e => S e.1).map Prod.snd).sum
        = (((m.toList.filter fun e => S e.1).map Prod.fst).map fun k => amountAt k l).sum := by
          rw [List.map_map]
          refine congrArg List.sum (List.map_congr_left ?_)
          intro e he
          exact hentry e (List.mem_filter.1 he).1
    _ = ((l.filter fun e => e.1 ∈ (m.toList.filter fun e => S e.1).map Prod.fst).map
          Prod.snd).sum := sum_amountAt hkeys l
    _ = ((l.filter fun e => S e.1).map Prod.snd).sum := by
          refine congrArg (fun es : List (K × Nat) => (es.map Prod.snd).sum) (List.filter_congr ?_)
          intro e he
          exact decide_eq_decide.2 (hmem e he)

end Tallies

/-! ## Saturating tallies -/

/-- As a tally, with every amount cut off at `cap`. -/
structure TalliesUpTo (cap : Nat) (m : BTreeMap K Nat) (l : List (K × Nat)) : Prop where
  amount : ∀ k, m.getD k 0 = min (amountAt k l) cap
  keys : ∀ k, k ∈ m ↔ k ∈ l.map Prod.fst

namespace TalliesUpTo

variable {cap : Nat} {m : BTreeMap K Nat} {l : List (K × Nat)}

omit [LawfulEqOrd K] in
theorem empty : TalliesUpTo cap (∅ : BTreeMap K Nat) [] :=
  ⟨by simp, by simp⟩

/-- A saturating addition under `k` records one more entry. -/
theorem insert_add (h : TalliesUpTo cap m l) (k : K) (v : Nat) :
    TalliesUpTo cap (m.insert k (min (m.getD k 0 + v) cap)) (l ++ [(k, v)]) := by
  refine ⟨?_, ?_⟩
  · intro k'
    rw [amountAt_append, amountAt_singleton]
    by_cases hk : k = k'
    · subst hk
      rw [ExtTreeMap.getD_insert_self, h.amount, if_pos rfl]
      omega
    · simp [ExtTreeMap.getD_insert, hk, h.amount]
  · intro k'
    rw [ExtTreeMap.mem_insert, h.keys, List.map_append, List.mem_append, or_comm]
    simp [@eq_comm _ k k']

omit [LawfulEqOrd K] in
theorem le (h : TalliesUpTo cap m l) (k : K) : m.getD k 0 ≤ amountAt k l := by
  rw [h.amount]
  exact Nat.min_le_left _ _

end TalliesUpTo

end Lib
end CleanWeb
