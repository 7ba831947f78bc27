import Mathlib.Data.List.Induction
import Mathlib.Data.Set.Function
import Mathlib.Order.MinMax
import CleanWeb.Lib.LevelTree

/-!
# HashTree — trees of sorted pairs without domain separation

A leaf hashes a pair of words; an inner node hashes the ordered pair of its children's digests.
Both kinds of node hash the same kind of string, so a proof folded into a leaf may in principle
end at the root from three places: a leaf of the tree, the string of an inner node, or a step of
the walk that hashes the very string of a leaf.  `fold_eq_digest` shows that, without collisions
among the strings hashed, there is no fourth.
-/

namespace CleanWeb
namespace Lib
namespace HashTree

inductive Tree (D : Type) where
  | leaf (a b : D)
  | inner (l r : Tree D)
  deriving DecidableEq

variable {D : Type} [LinearOrder D]

/-- The node above two digests. -/
def node (hash : D → D → D) (x y : D) : D :=
  hash (min x y) (max x y)

theorem node_comm (hash : D → D → D) (x y : D) : node hash x y = node hash y x := by
  unfold node
  rw [min_comm, max_comm]

namespace Tree

def digest (hash : D → D → D) : Tree D → D
  | leaf a b => hash a b
  | inner l r => node hash (l.digest hash) (r.digest hash)

/-- The strings of the leaves, left to right. -/
def leaves : Tree D → List (D × D)
  | leaf a b => [(a, b)]
  | inner l r => l.leaves ++ r.leaves

/-- The strings of the inner nodes. -/
def inners (hash : D → D → D) : Tree D → List (D × D)
  | leaf _ _ => []
  | inner l r =>
      (min (l.digest hash) (r.digest hash), max (l.digest hash) (r.digest hash)) ::
        (l.inners hash ++ r.inners hash)

end Tree

/-- The strings hashed while folding a proof into `d`. -/
def walk (hash : D → D → D) : D → List D → List (D × D)
  | _, [] => []
  | d, s :: proof => (min d s, max d s) :: walk hash (node hash d s) proof

theorem walk_append_singleton (hash : D → D → D) (d s : D) (proof : List D) :
    walk hash d (proof ++ [s]) = walk hash d proof ++
      [(min (proof.foldl (node hash) d) s, max (proof.foldl (node hash) d) s)] := by
  induction proof generalizing d with
  | nil =>
      rfl
  | cons s' proof ih =>
      simp [walk, ih]

/-! ## Where a proof can start -/

/-- Every string that a tree, a walk into it and the walk's starting leaf hash. -/
def hashed (hash : D → D → D) (t : Tree D) (a b : D) (proof : List D) : Set (D × D) :=
  { q | q ∈ t.leaves ∨ q ∈ t.inners hash ∨ q ∈ walk hash (hash a b) proof ∨ q = (a, b) }

/-- The pair `(a, b)` is a leaf or an inner string of `t`, or the walk hashes a leaf's string. -/
def Accounted (hash : D → D → D) (t : Tree D) (a b : D) (proof : List D) : Prop :=
  (a, b) ∈ t.leaves ∨ (a, b) ∈ t.inners hash ∨ ∃ q ∈ walk hash (hash a b) proof, q ∈ t.leaves

/-- Everything `t'` hashes, `t` hashes too. -/
structure Within (hash : D → D → D) (t' t : Tree D) : Prop where
  leaves : t'.leaves ⊆ t.leaves
  inners : t'.inners hash ⊆ t.inners hash

theorem within_left (hash : D → D → D) (l r : Tree D) : Within hash l (.inner l r) := by
  refine ⟨List.subset_append_left _ _, ?_⟩
  exact List.Subset.trans (List.subset_append_left _ _) (List.subset_cons_self _ _)

theorem within_right (hash : D → D → D) (l r : Tree D) : Within hash r (.inner l r) := by
  refine ⟨List.subset_append_right _ _, ?_⟩
  exact List.Subset.trans (List.subset_append_right _ _) (List.subset_cons_self _ _)

section Walks

variable {hash : D → D → D} {t t' : Tree D} {a b : D} {proof : List D}

theorem walk_subset_snoc (d s : D) (proof : List D) :
    walk hash d proof ⊆ walk hash d (proof ++ [s]) := by
  rw [walk_append_singleton]
  exact List.subset_append_left _ _

theorem hashed_subset (h : Within hash t' t) (s : D) :
    hashed hash t' a b proof ⊆ hashed hash t a b (proof ++ [s]) := by
  intro q hq
  rcases hq with hq | hq | hq | hq
  · exact Or.inl (h.leaves hq)
  · exact Or.inr (Or.inl (h.inners hq))
  · exact Or.inr (Or.inr (Or.inl (walk_subset_snoc _ s _ hq)))
  · exact Or.inr (Or.inr (Or.inr hq))

theorem Accounted.widen (hacc : Accounted hash t' a b proof) (h : Within hash t' t) (s : D) :
    Accounted hash t a b (proof ++ [s]) := by
  rcases hacc with hacc | hacc | ⟨q, hq, hqt⟩
  · exact Or.inl (h.leaves hacc)
  · exact Or.inr (Or.inl (h.inners hacc))
  · exact Or.inr (Or.inr ⟨q, walk_subset_snoc _ s _ hq, h.leaves hqt⟩)

theorem sorted_pair_cases {x y u v : D} (h : (min x y, max x y) = (min u v, max u v)) :
    x = u ∨ x = v := by
  have hmin : min x y = min u v := congrArg Prod.fst h
  have hmax : max x y = max u v := congrArg Prod.snd h
  rcases le_total x y with hxy | hxy
  · rw [min_eq_left hxy] at hmin
    rcases min_choice u v with huv | huv
    · exact Or.inl (hmin.trans huv)
    · exact Or.inr (hmin.trans huv)
  · rw [max_eq_left hxy] at hmax
    rcases max_choice u v with huv | huv
    · exact Or.inl (hmax.trans huv)
    · exact Or.inr (hmax.trans huv)

/-- A proof that folds to the digest of `t` starts from a string that `t` accounts for. -/
theorem fold_eq_digest
    (hinj : Set.InjOn (fun q : D × D => hash q.1 q.2) (hashed hash t a b proof))
    (h : proof.foldl (node hash) (hash a b) = t.digest hash) : Accounted hash t a b proof := by
  -- Peel the walk from its end while descending the tree from its root.
  induction proof using List.reverseRecOn generalizing t with
  | nil =>
      cases t with
      | leaf a' b' =>
          have heq : (a, b) = (a', b') :=
            hinj (by simp [hashed]) (by simp [hashed, Tree.leaves]) h
          exact Or.inl (by simp [Tree.leaves, heq])
      | inner l r =>
          have heq : (a, b) = (min (l.digest hash) (r.digest hash),
              max (l.digest hash) (r.digest hash)) :=
            hinj (by simp [hashed]) (by simp [hashed, Tree.inners]) h
          exact Or.inr (Or.inl (by simp [Tree.inners, heq]))
  | append_singleton proof s ih =>
      rw [List.foldl_append] at h
      have hlast : (min (proof.foldl (node hash) (hash a b)) s,
          max (proof.foldl (node hash) (hash a b)) s) ∈ walk hash (hash a b) (proof ++ [s]) := by
        simp [walk_append_singleton]
      cases t with
      | leaf a' b' =>
          have heq := hinj (Or.inr (Or.inr (Or.inl hlast)))
            (Or.inl (by simp [Tree.leaves] : (a', b') ∈ (Tree.leaf a' b').leaves)) h
          exact Or.inr (Or.inr ⟨_, hlast, by simp [Tree.leaves, heq]⟩)
      | inner l r =>
          have heq := hinj (Or.inr (Or.inr (Or.inl hlast)))
            (Or.inr (Or.inl (List.mem_cons_self ..))) h
          rcases sorted_pair_cases heq with hl | hr
          · have hin := within_left hash l r
            exact (ih (hinj.mono (hashed_subset hin s)) hl).widen hin s
          · have hin := within_right hash l r
            exact (ih (hinj.mono (hashed_subset hin s)) hr).widen hin s

end Walks

/-! ## The tree that the levels build -/

omit [LinearOrder D] in
theorem flatMap_leaves_pairUp (l : List (Tree D)) :
    (LevelTree.pairUp Tree.inner l).flatMap Tree.leaves = l.flatMap Tree.leaves := by
  induction l using LevelTree.pairUp.induct with
  | case1 a b rest ih =>
      simp [LevelTree.pairUp, Tree.leaves, ih]
  | case2 a =>
      rfl
  | case3 =>
      rfl

/-- The ordered pair of two digests. -/
def sorted (p : D × D) : D × D :=
  (min p.1 p.2, max p.1 p.2)

/-- The levels over the leaf digests end in the digest of a tree with exactly these leaves, and
its inner strings are the pairs joined on the way up. -/
theorem exists_tree (hash : D → D → D) (strings : List (D × D)) (hne : strings ≠ []) (fuel : Nat)
    (hfuel : strings.length ≤ fuel + 1) :
    let levels := LevelTree.levels (node hash) fuel (strings.map fun q => hash q.1 q.2)
    ∃ t : Tree D, t.leaves = strings ∧ levels.getLast? = some [t.digest hash] ∧
      ∀ q ∈ t.inners hash, ∃ level ∈ levels, ∃ p ∈ LevelTree.pairs level, q = sorted p := by
  intro levels
  let start := strings.map fun q => Tree.leaf q.1 q.2
  have hstart : start.flatMap Tree.leaves = strings := by
    simp [start, List.flatMap_map, Tree.leaves]
  have hdigests : start.map (Tree.digest hash) = strings.map fun q => hash q.1 q.2 := by
    simp [start, Function.comp_def, Tree.digest]
  have hnatural : ∀ a b : Tree D, (Tree.inner a b).digest hash =
      node hash (a.digest hash) (b.digest hash) := fun _ _ => rfl
  have hlevels : levels =
      (LevelTree.levels Tree.inner fuel start).map (List.map (Tree.digest hash)) := by
    rw [← LevelTree.levels_map hnatural, hdigests]
  rcases LevelTree.exists_root Tree.inner
    (fun l => l.flatMap Tree.leaves = strings)
    (fun l hl => (flatMap_leaves_pairUp l).trans hl) fuel (l := start)
    (by simpa [start] using hne) (by simpa [start] using hfuel) hstart with ⟨t, hroot, ht⟩
  refine ⟨t, by simpa using ht, ?_, ?_⟩
  · rw [hlevels, List.getLast?_map, hroot]
    rfl
  have hleaf : ∀ t ∈ start, t.inners hash = [] := by
    intro t ht
    rcases List.mem_map.1 ht with ⟨q, -, rfl⟩
    rfl
  -- Every node of every level of trees only hashes pairs of the levels below it.
  have hall := LevelTree.levels_forall Tree.inner
    (fun t => ∀ q ∈ t.inners hash, ∃ level ∈ levels, ∃ p ∈ LevelTree.pairs level, q = sorted p)
    fuel (l := start) (fun t ht q hq => by simp [hleaf t ht] at hq) ?_
  · exact hall [t] (List.mem_of_getLast? hroot) t (by simp)
  · intro level hlevel p hp hl hr q hq
    rcases List.mem_cons.1 hq with rfl | hq
    · refine ⟨level.map (Tree.digest hash), ?_, ?_⟩
      · rw [hlevels]
        exact List.mem_map_of_mem hlevel
      · refine ⟨(p.1.digest hash, p.2.digest hash), ?_, rfl⟩
        rw [LevelTree.pairs_map]
        exact List.mem_map_of_mem (f := Prod.map (Tree.digest hash) (Tree.digest hash)) hp
    · rcases List.mem_append.1 hq with hq | hq
      · exact hl q hq
      · exact hr q hq

/-! ## The steps of a walk -/

/-- A step of the walk joins the digest computed so far with the next sibling. -/
theorem exists_of_mem_walk {hash : D → D → D} {d : D} {proof : List D} {q : D × D}
    (h : q ∈ walk hash d proof) :
    ∃ k s, proof[k]? = some s ∧ q = sorted ((proof.take k).foldl (node hash) d, s) := by
  induction proof generalizing d with
  | nil =>
      simp [walk] at h
  | cons s proof ih =>
      rcases List.mem_cons.1 h with rfl | hrest
      · exact ⟨0, s, rfl, rfl⟩
      · rcases ih hrest with ⟨k, s', hs', hq⟩
        exact ⟨k + 1, s', by simpa using hs', by simpa using hq⟩

end HashTree
end Lib
end CleanWeb
