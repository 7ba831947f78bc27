import Mathlib.Order.Lattice

/-!
# Greatest — the last of the greatest elements of a list

`maxBy score` is the element of the largest score, the last one where several share it.
-/

namespace CleanWeb
namespace Lib

variable {α β : Type} [LinearOrder β]

/-- One turn: the newcomer wins ties. -/
def better (score : α → β) (best x : α) : α :=
  if score x < score best then best else x

/-- `Iterator::max_by` on the scores. -/
def maxBy (score : α → β) : List α → Option α
  | [] => none
  | a :: as => some (as.foldl (better score) a)

variable {score : α → β}

theorem foldl_better_of_unique {as : List α} {best a : α} (hmem : a = best ∨ a ∈ as)
    (hbest : best = a ∨ score best < score a) (has : ∀ b ∈ as, b = a ∨ score b < score a) :
    as.foldl (better score) best = a := by
  induction as generalizing best with
  | nil =>
      rcases hmem with rfl | hmem
      · rfl
      · cases hmem
  | cons x as ih =>
      rw [List.foldl_cons]
      have hrest : ∀ b ∈ as, b = a ∨ score b < score a :=
        fun b hb => has b (List.mem_cons_of_mem x hb)
      -- The best so far stays below `a` until `a` comes, and `a` stays once it is there.
      rcases has x List.mem_cons_self with rfl | hx
      · have hnew : better score best x = x := by
          rcases hbest with rfl | hbest
          · simp [better]
          · simp [better, hbest.le.not_gt]
        exact ih (Or.inl hnew.symm) (Or.inl hnew) hrest
      · rcases hbest with rfl | hbest
        · have hkeep : better score best x = best := by
            simp [better, hx]
          exact ih (Or.inl hkeep.symm) (Or.inl hkeep) hrest
        · have hstill : score (better score best x) < score a := by
            unfold better
            split
            · exact hbest
            · exact hx
          refine ih (Or.inr ?_) (Or.inr hstill) hrest
          rcases hmem with rfl | hmem
          · exact absurd hbest (lt_irrefl _)
          · rcases List.mem_cons.1 hmem with rfl | hmem
            · exact absurd hx (lt_irrefl _)
            · exact hmem

/-- An element that beats all others is the greatest. -/
theorem maxBy_of_unique {l : List α} {a : α} (ha : a ∈ l)
    (h : ∀ b ∈ l, b = a ∨ score b < score a) : maxBy score l = some a := by
  cases l with
  | nil =>
      cases ha
  | cons x l =>
      refine congrArg some (foldl_better_of_unique (List.mem_cons.1 ha) (h x List.mem_cons_self) ?_)
      exact fun b hb => h b (List.mem_cons_of_mem x hb)

/-! ## What the greatest is -/

theorem foldl_better_mem (as : List α) (best : α) :
    as.foldl (better score) best = best ∨ as.foldl (better score) best ∈ as := by
  induction as generalizing best with
  | nil =>
      exact Or.inl rfl
  | cons x as ih =>
      rw [List.foldl_cons]
      rcases ih (better score best x) with heq | hmem
      · rw [heq, better]
        split
        · exact Or.inl rfl
        · exact Or.inr List.mem_cons_self
      · exact Or.inr (List.mem_cons_of_mem x hmem)

theorem le_foldl_better (as : List α) (best : α) :
    ∀ b, b = best ∨ b ∈ as → score b ≤ score (as.foldl (better score) best) := by
  induction as generalizing best with
  | nil =>
      rintro b (rfl | hb)
      · exact le_refl _
      · cases hb
  | cons x as ih =>
      have hstep : score best ≤ score (better score best x) ∧
          score x ≤ score (better score best x) := by
        unfold better
        split
        · rename_i hlt
          exact ⟨le_refl _, hlt.le⟩
        · rename_i hge
          exact ⟨not_lt.1 hge, le_refl _⟩
      intro b hb
      rw [List.foldl_cons]
      have hrest := ih (better score best x)
      rcases hb with rfl | hb
      · exact hstep.1.trans (hrest _ (Or.inl rfl))
      · rcases List.mem_cons.1 hb with rfl | hb
        · exact hstep.2.trans (hrest _ (Or.inl rfl))
        · exact hrest b (Or.inr hb)

/-- The greatest is one of the elements, and no other scores higher. -/
theorem maxBy_eq_some {l : List α} {a : α} (h : maxBy score l = some a) :
    a ∈ l ∧ ∀ b ∈ l, score b ≤ score a := by
  cases l with
  | nil =>
      cases h
  | cons x l =>
      have ha : l.foldl (better score) x = a := Option.some.inj h
      subst ha
      refine ⟨List.mem_cons.2 (foldl_better_mem l x), ?_⟩
      intro b hb
      exact le_foldl_better l x b (List.mem_cons.1 hb)

theorem maxBy_eq_none_iff {l : List α} : maxBy score l = none ↔ l = [] := by
  cases l with
  | nil => simp [maxBy]
  | cons x l => simp [maxBy]

end Lib
end CleanWeb
