import CleanWeb.Lib.BTreeMap

/-!
# SecondaryIndex — a lookup table kept beside a store

A store maps keys to values, and a second table maps a field of the values back to the keys.
`Indexes` says that the table has exactly the entries of the store; `reindex` is what an insertion
does to the table, and keeps it so when the field is not taken by another key.
-/

namespace CleanWeb
namespace Lib

open Std

variable {K V F : Type} [Ord K] [TransOrd K] [LawfulEqOrd K] [Ord F] [TransOrd F] [LawfulEqOrd F]

theorem getElem?_insert_of_ne (m : BTreeMap K V) {k k' : K} (v : V) (h : k ≠ k') :
    (m.insert k v)[k']? = m[k']? := by
  simp [ExtTreeMap.getElem?_insert, h]

/-- Storing what is there changes nothing. -/
theorem insert_eq_self {m : BTreeMap K V} {k : K} {v : V} (h : m[k]? = some v) :
    m.insert k v = m := by
  refine ExtTreeMap.ext_getElem? fun k' => ?_
  by_cases hk : k = k'
  · subst hk
    rw [ExtTreeMap.getElem?_insert_self, h]
  · exact getElem?_insert_of_ne m v hk

/-- The table lists the field of every stored value, and nothing else. -/
def Indexes (field : V → F) (store : BTreeMap K V) (table : BTreeMap F K) : Prop :=
  ∀ f k, table[f]? = some k ↔ ∃ v, store[k]? = some v ∧ field v = f

/-- The table after `v` is stored under `k`: the stale entry of `k` goes, the new one comes. -/
def reindex [DecidableEq F] (field : V → F) (store : BTreeMap K V) (table : BTreeMap F K) (k : K)
    (v : V) : BTreeMap F K :=
  (match store[k]? with
    | some prev => if field prev ≠ field v then table.erase (field prev) else table
    | none => table).insert (field v) k

omit [LawfulEqOrd K] in
theorem reindex_eq_self [DecidableEq F] {field : V → F} {store : BTreeMap K V}
    {table : BTreeMap F K} {k : K} {v : V} (hk : store[k]? = some v)
    (hfield : table[field v]? = some k) : reindex field store table k v = table := by
  rw [reindex, hk]
  simp only [ne_eq, not_true_eq_false, if_false]
  exact insert_eq_self hfield

omit [LawfulEqOrd K] [LawfulEqOrd F] in
theorem indexes_empty (field : V → F) : Indexes field (∅ : BTreeMap K V) ∅ := by
  intro f k
  simp

namespace Indexes

variable {field : V → F} {store : BTreeMap K V} {table : BTreeMap F K}

omit [LawfulEqOrd K] [LawfulEqOrd F] in
/-- No two keys share a field. -/
theorem unique (h : Indexes field store table) {k k' : K} {v v' : V} (hk : store[k]? = some v)
    (hk' : store[k']? = some v') (hfield : field v = field v') : k = k' := by
  have hfirst := (h (field v) k).2 ⟨v, hk, rfl⟩
  have hsecond := (h (field v) k').2 ⟨v', hk', hfield.symm⟩
  rw [hfirst] at hsecond
  exact Option.some.inj hsecond

/-- The value that has the field, through the table. -/
def lookup (store : BTreeMap K V) (table : BTreeMap F K) (f : F) : Option V :=
  table[f]?.bind fun k => store[k]?

omit [LawfulEqOrd K] [LawfulEqOrd F] in
theorem lookup_eq_some_iff (h : Indexes field store table) {f : F} {v : V} :
    lookup store table f = some v ↔ ∃ k : K, store[k]? = some v ∧ field v = f := by
  rw [lookup, Option.bind_eq_some_iff]
  constructor
  · rintro ⟨k, hk, hv⟩
    rcases (h f k).1 hk with ⟨v', hv', hfield⟩
    rw [hv] at hv'
    exact ⟨k, hv, Option.some.inj hv' ▸ hfield⟩
  · rintro ⟨k, hv, hfield⟩
    exact ⟨k, (h f k).2 ⟨v, hv, hfield⟩, hv⟩

omit [LawfulEqOrd K] [LawfulEqOrd F] in
theorem lookup_eq_none_iff (h : Indexes field store table) {f : F} :
    lookup store table f = none ↔ ∀ (k : K) (v : V), store[k]? = some v → field v ≠ f := by
  rw [Option.eq_none_iff_forall_ne_some]
  constructor
  · intro hnone k v hv hfield
    exact hnone v (h.lookup_eq_some_iff.2 ⟨k, hv, hfield⟩)
  · intro hfree v hv
    rcases h.lookup_eq_some_iff.1 hv with ⟨k, hk, hfield⟩
    exact hfree k v hk hfield

omit [LawfulEqOrd K] [LawfulEqOrd F] in
/-- The table has no other key under `f` exactly when no other stored value has the field. -/
theorem free_iff (h : Indexes field store table) {f : F} {k : K} :
    (∀ k', table[f]? = some k' → k' = k) ↔
      ∀ (k' : K) (v : V), store[k']? = some v → k' ≠ k → field v ≠ f := by
  constructor
  · intro hfree k' v hv hne hfield
    exact hne (hfree k' ((h f k').2 ⟨v, hv, hfield⟩))
  · intro hother k' hk'
    rcases (h f k').1 hk' with ⟨v, hv, hfield⟩
    by_contra hne
    exact hother k' v hv hne hfield

omit [LawfulEqOrd F] in
/-- Once another value is stored under its key, nothing has the field that a value had. -/
theorem released (h : Indexes field store table) {k : K} {prev v : V} (hk : store[k]? = some prev)
    (hchanged : field prev ≠ field v) {k' : K} {v' : V}
    (hv' : (store.insert k v)[k']? = some v') : field v' ≠ field prev := by
  intro hfield
  by_cases hsame : k = k'
  · subst hsame
    rw [ExtTreeMap.getElem?_insert_self] at hv'
    exact hchanged ((Option.some.inj hv') ▸ hfield.symm)
  · rw [getElem?_insert_of_ne store v hsame] at hv'
    exact hsame (h.unique hk hv' hfield.symm)

variable [DecidableEq F]

omit [LawfulEqOrd K] in
/-- The table without the stale entry of `k` lists the other keys. -/
theorem stale (h : Indexes field store table) {k : K} {v : V} {f : F} (hf : field v ≠ f) (k' : K) :
    (match store[k]? with
      | some prev => if field prev ≠ field v then table.erase (field prev) else table
      | none => table)[f]? = some k' ↔
      k' ≠ k ∧ ∃ v', store[k']? = some v' ∧ field v' = f := by
  rw [← h f k']
  cases hk : store[k]? with
  | none =>
      constructor
      · intro hentry
        refine ⟨?_, hentry⟩
        rintro rfl
        rcases (h f k').1 hentry with ⟨v', hv', -⟩
        rw [hk] at hv'
        cases hv'
      · exact fun hentry => hentry.2
  | some prev =>
      have hprev : table[field prev]? = some k := (h (field prev) k).2 ⟨prev, hk, rfl⟩
      by_cases hsame : field prev = f
      · -- The entry in question is the stale one.
        subst hsame
        simp only [ne_eq, hf.symm, not_false_eq_true, if_true]
        rw [hprev]
        simp [eq_comm]
      · have hkeep : (if field prev ≠ field v then table.erase (field prev) else table)[f]? =
            table[f]? := by
          split
          · rw [ExtTreeMap.getElem?_erase]
            simp [hsame]
          · rfl
        simp only [hkeep]
        constructor
        · intro hentry
          refine ⟨?_, hentry⟩
          rintro rfl
          rcases (h f k').1 hentry with ⟨v', hv', hfield⟩
          rw [hk] at hv'
          exact hsame (Option.some.inj hv' ▸ hfield)
        · exact fun hentry => hentry.2

/-- Storing a value whose field no other key has keeps the table exact. -/
theorem insert (h : Indexes field store table) {k : K} {v : V}
    (hfree : ∀ k', table[field v]? = some k' → k' = k) :
    Indexes field (store.insert k v) (reindex field store table k v) := by
  intro f k'
  rw [reindex]
  by_cases hf : field v = f
  · subst hf
    rw [ExtTreeMap.getElem?_insert_self, Option.some.injEq]
    constructor
    · rintro rfl
      exact ⟨v, by simp, rfl⟩
    · rintro ⟨v', hv', hfield⟩
      by_contra hne
      rw [getElem?_insert_of_ne store v hne] at hv'
      exact hne (hfree k' ((h (field v) k').2 ⟨v', hv', hfield⟩)).symm
  · rw [getElem?_insert_of_ne _ k hf, h.stale hf]
    constructor
    · rintro ⟨hne, v', hv', hfield⟩
      refine ⟨v', ?_, hfield⟩
      rw [getElem?_insert_of_ne store v hne.symm]
      exact hv'
    · rintro ⟨v', hv', hfield⟩
      by_cases hk : k = k'
      · subst hk
        rw [ExtTreeMap.getElem?_insert_self] at hv'
        exact absurd (Option.some.inj hv' ▸ hfield) hf
      · rw [getElem?_insert_of_ne store v hk] at hv'
        exact ⟨Ne.symm hk, v', hv', hfield⟩

end Indexes
end Lib
end CleanWeb
