import Mathlib.Data.List.Basic
import Mathlib.Data.Nat.Bitwise

/-!
# LevelTree — trees built level by level

A tree over a list of leaves is built by joining neighbours, level after level; a level of odd
length carries its last node up unchanged.  The proof for a leaf lists, level by level, the sibling
of the node above it, where there is one.

* `fold_siblings`: folding the proof of a leaf into that leaf gives the root, for every commutative
  node operation and every shape of tree;
* `levels_map`: the construction is natural in the node operation.
-/

namespace CleanWeb
namespace Lib
namespace LevelTree

variable {D E : Type}

/-- One level up. -/
def pairUp (node : D → D → D) : List D → List D
  | a :: b :: rest => node a b :: pairUp node rest
  | [a] => [a]
  | [] => []

/-- The levels from `l` to the root.  The fuel bounds how many levels lie above `l`. -/
def levels (node : D → D → D) : Nat → List D → List (List D)
  | 0, l => [l]
  | fuel + 1, l => if 1 < l.length then l :: levels node fuel (pairUp node l) else [l]

/-- The neighbours that are joined on the way up from a level. -/
def pairs : List D → List (D × D)
  | a :: b :: rest => (a, b) :: pairs rest
  | [_] => []
  | [] => []

/-- The siblings met on the way up from index `idx` of the first level. -/
def siblings : List (List D) → Nat → List D
  | [], _ => []
  | level :: rest, idx => level[idx ^^^ 1]?.toList ++ siblings rest (idx / 2)

theorem length_pairUp (node : D → D → D) (l : List D) :
    (pairUp node l).length = (l.length + 1) / 2 := by
  induction l using pairUp.induct with
  | case1 a b rest ih =>
      simp only [pairUp, List.length_cons, ih]
      omega
  | case2 a =>
      simp [pairUp]
  | case3 =>
      simp [pairUp]

theorem levels_ne_nil (node : D → D → D) (fuel : Nat) (l : List D) :
    levels node fuel l ≠ [] := by
  cases fuel with
  | zero =>
      simp [levels]
  | succ fuel =>
      unfold levels
      split <;> simp

/-- With enough fuel the last level is a single root, and it keeps what joining keeps. -/
theorem exists_root (node : D → D → D) (P : List D → Prop)
    (hstep : ∀ l, P l → P (pairUp node l)) (fuel : Nat) {l : List D} (hne : l ≠ [])
    (hfuel : l.length ≤ fuel + 1) (hl : P l) :
    ∃ r, (levels node fuel l).getLast? = some [r] ∧ P [r] := by
  have hpos : 0 < l.length := List.length_pos_of_ne_nil hne
  have hsingle : l.length ≤ 1 → ∃ r, l = [r] := by
    intro hle
    exact List.length_eq_one_iff.1 (by omega)
  induction fuel generalizing l with
  | zero =>
      rcases hsingle (by omega) with ⟨r, rfl⟩
      exact ⟨r, rfl, hl⟩
  | succ fuel ih =>
      unfold levels
      split
      · have hlen := length_pairUp node l
        have hup : 0 < (pairUp node l).length := by omega
        rw [List.getLast?_cons_of_ne_nil (levels_ne_nil node fuel _)]
        refine ih (List.ne_nil_of_length_pos hup) (by omega) (hstep l hl) hup ?_
        intro hle
        exact List.length_eq_one_iff.1 (by omega)
      · rcases hsingle (by omega) with ⟨r, rfl⟩
        exact ⟨r, rfl, hl⟩

/-! ## The siblings lead to the root -/

theorem xor_one_add_two (i : Nat) : (i + 2) ^^^ 1 = (i ^^^ 1) + 2 := by
  rcases Nat.even_or_odd i with hi | hi
  · have hi' : Even (i + 2) := hi.add (by decide)
    rw [Nat.xor_one_of_even hi, Nat.xor_one_of_even hi']
  · have hi' : Odd (i + 2) := hi.add_even (by decide)
    rw [Nat.xor_one_of_odd hi, Nat.xor_one_of_odd hi']
    rcases hi with ⟨k, hk⟩
    omega

/-- The node above index `i` joins `l[i]` with its sibling, if it has one. -/
theorem pairUp_getElem? {node : D → D → D} (hcomm : ∀ a b, node a b = node b a) (l : List D)
    {i : Nat} {d : D} (hd : l[i]? = some d) :
    (pairUp node l)[i / 2]? = some (l[i ^^^ 1]?.toList.foldl node d) := by
  induction l using pairUp.induct generalizing i with
  | case1 a b rest ih =>
      -- The first two indices share the first parent; the others are those of `rest`.
      rcases i with _ | _ | i
      · have ha : a = d := by simpa using hd
        simp [pairUp, ha]
      · have hb : b = d := by simpa using hd
        simp [pairUp, hb, hcomm a d]
      · have hrest : rest[i]? = some d := by simpa using hd
        have hhalf : (i + 1 + 1) / 2 = i / 2 + 1 := by omega
        rw [hhalf, xor_one_add_two]
        simpa [pairUp] using ih hrest
  | case2 a =>
      rcases i with _ | i
      · have ha : a = d := by simpa using hd
        simp [pairUp, ha]
      · simp at hd
  | case3 =>
      simp at hd

/-- Folding the proof of a leaf into the leaf gives the root. -/
theorem fold_siblings {node : D → D → D} (hcomm : ∀ a b, node a b = node b a) (fuel : Nat)
    {l : List D} {i : Nat} {d : D} (hfuel : l.length ≤ fuel + 1) (hd : l[i]? = some d) :
    (levels node fuel l).getLast? =
      some [(siblings (levels node fuel l).dropLast i).foldl node d] := by
  have hsingle : l.length ≤ 1 → l = [d] := by
    intro hle
    rcases l with _ | ⟨a, _ | ⟨b, rest⟩⟩
    · simp at hd
    · rcases i with _ | i
      · simpa using hd
      · simp at hd
    · simp at hle
  induction fuel generalizing l i d with
  | zero =>
      simp [levels, siblings, hsingle (by omega)]
  | succ fuel ih =>
      unfold levels
      split
      · rename_i hlong
        have hlen : (pairUp node l).length = (l.length + 1) / 2 := length_pairUp node l
        have hup := pairUp_getElem? hcomm l hd
        have hrec := ih (l := pairUp node l) (i := i / 2) (by omega) hup ?_
        · rw [List.getLast?_cons_of_ne_nil (levels_ne_nil node fuel _), hrec,
            List.dropLast_cons_of_ne_nil (levels_ne_nil node fuel _), siblings,
            List.foldl_append]
        · intro hle
          rcases hp : pairUp node l with _ | ⟨a, _ | ⟨b, rest⟩⟩
          · simp [hp] at hup
          · rw [hp] at hup
            have hzero : i / 2 = 0 := by
              rw [hp] at hlen
              have hi := (List.getElem?_eq_some_iff.1 hd).1
              simp only [List.length_singleton] at hlen
              omega
            rw [hzero] at hup
            simpa using hup
          · rw [hp] at hle
            simp at hle
      · rename_i hshort
        simp [siblings, hsingle (by omega)]

/-! ## Naturality -/

theorem pairUp_map {f : D → E} {node : D → D → D} {node' : E → E → E}
    (h : ∀ a b, f (node a b) = node' (f a) (f b)) (l : List D) :
    pairUp node' (l.map f) = (pairUp node l).map f := by
  induction l using pairUp.induct with
  | case1 a b rest ih =>
      simp [pairUp, h, ih]
  | case2 a =>
      rfl
  | case3 =>
      rfl

theorem levels_map {f : D → E} {node : D → D → D} {node' : E → E → E}
    (h : ∀ a b, f (node a b) = node' (f a) (f b)) (fuel : Nat) (l : List D) :
    levels node' fuel (l.map f) = (levels node fuel l).map (List.map f) := by
  induction fuel generalizing l with
  | zero =>
      rfl
  | succ fuel ih =>
      unfold levels
      rw [List.length_map, pairUp_map h, ih]
      split <;> rfl

theorem pairs_map (f : D → E) (l : List D) :
    pairs (l.map f) = (pairs l).map (Prod.map f f) := by
  induction l using pairs.induct with
  | case1 a b rest ih =>
      simp [pairs, ih]
  | case2 a =>
      rfl
  | case3 =>
      rfl

/-- A node of the next level was carried up or joins a pair of this one. -/
theorem mem_pairUp {node : D → D → D} {l : List D} {d : D} (h : d ∈ pairUp node l) :
    d ∈ l ∨ ∃ p ∈ pairs l, d = node p.1 p.2 := by
  induction l using pairUp.induct with
  | case1 a b rest ih =>
      rcases List.mem_cons.1 h with rfl | hrest
      · exact Or.inr ⟨(a, b), by simp [pairs], rfl⟩
      · rcases ih hrest with hd | ⟨p, hp, rfl⟩
        · exact Or.inl (by simp [hd])
        · exact Or.inr ⟨p, by simp [pairs, hp], rfl⟩
  | case2 a =>
      exact Or.inl h
  | case3 =>
      exact Or.inl h

theorem mem_of_mem_pairs {l : List D} {p : D × D} (h : p ∈ pairs l) : p.1 ∈ l ∧ p.2 ∈ l := by
  induction l using pairs.induct with
  | case1 a b rest ih =>
      rcases List.mem_cons.1 h with rfl | hrest
      · simp
      · have hp := ih hrest
        simp [hp]
  | case2 a =>
      simp [pairs] at h
  | case3 =>
      simp [pairs] at h

/-- What holds of the first level and is kept by joining the pairs of any level holds of every
node of every level. -/
theorem levels_forall (node : D → D → D) (P : D → Prop) (fuel : Nat) {l : List D}
    (h0 : ∀ d ∈ l, P d)
    (hstep : ∀ level ∈ levels node fuel l, ∀ p ∈ pairs level, P p.1 → P p.2 → P (node p.1 p.2)) :
    ∀ level ∈ levels node fuel l, ∀ d ∈ level, P d := by
  induction fuel generalizing l with
  | zero =>
      intro level hlevel
      have hl : level = l := by simpa [levels] using hlevel
      exact hl ▸ h0
  | succ fuel ih =>
      unfold levels at hstep ⊢
      split at hstep
      · rename_i hlong
        rw [if_pos hlong]
        have hup : ∀ d ∈ pairUp node l, P d := by
          intro d hd
          rcases mem_pairUp hd with hd | ⟨p, hp, rfl⟩
          · exact h0 d hd
          · have hmem := mem_of_mem_pairs hp
            exact hstep l (by simp) p hp (h0 _ hmem.1) (h0 _ hmem.2)
        have hrest := ih hup fun level hlevel => hstep level (List.mem_cons_of_mem _ hlevel)
        intro level hlevel
        rcases List.mem_cons.1 hlevel with rfl | hlevel
        · exact h0
        · exact hrest level hlevel
      · rename_i hshort
        rw [if_neg hshort]
        intro level hlevel
        have hl : level = l := by simpa using hlevel
        exact hl ▸ h0

end LevelTree
end Lib
end CleanWeb
