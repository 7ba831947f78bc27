import CleanWeb.Lib.Exec

/-!
# Agree — two computations that go through together

`Agree R x y` says of two computations that they both return, and return related values, or both
stop; for what reason each of them stops is left open.  There is one rule for sequencing, one for
loops over the same list and one for each way of rewording an error.  It names no program.
-/

namespace CleanWeb
namespace Lib
namespace Exec

variable {ε ε' ε'' α α' β β' σ τ ι : Type}

/-- Both return related values, or both stop. -/
def Agree (R : α → β → Prop) : Exec ε α → Exec ε' β → Prop
  | .ok a, .ok b => R a b
  | .error _, .error _ => True
  | _, _ => False

section Rules

variable {R : α → β → Prop} {S : α' → β' → Prop} {x : Exec ε α} {y : Exec ε' β}

@[simp] theorem agree_ok {a : α} {b : β} :
    Agree R (.ok a : Exec ε α) (.ok b : Exec ε' β) ↔ R a b := Iff.rfl

@[simp] theorem agree_pure {a : α} {b : β} :
    Agree R (pure a : Exec ε α) (pure b : Exec ε' β) ↔ R a b := Iff.rfl

@[simp] theorem agree_error {t : Trap ε} {t' : Trap ε'} :
    Agree R (.error t : Exec ε α) (.error t' : Exec ε' β) := trivial

/-- One computation agrees with itself. -/
theorem Agree.self (x : Exec ε α) : Agree Eq x x := by
  cases x with
  | ok a => rfl
  | error t => trivial

theorem Agree.mono {R' : α → β → Prop} (h : Agree R x y) (hR : ∀ a b, R a b → R' a b) :
    Agree R' x y := by
  cases x with
  | ok a =>
      cases y with
      | ok b => exact hR a b h
      | error t => exact h.elim
  | error t =>
      cases y with
      | ok b => exact h.elim
      | error t' => trivial

/-- Sequencing: related values, then computations that agree from them on. -/
theorem Agree.bind {f : α → Exec ε α'} {g : β → Exec ε' β'} (h : Agree R x y)
    (hfg : ∀ a b, R a b → Agree S (f a) (g b)) : Agree S (x >>= f) (y >>= g) := by
  cases x with
  | ok a =>
      cases y with
      | ok b => exact hfg a b h
      | error t => exact h.elim
  | error t =>
      cases y with
      | ok b => exact h.elim
      | error t' => trivial

/-- Two loops over one list, whose steps keep the accumulators related. -/
theorem Agree.foldlM {R : σ → τ → Prop} {f : σ → ι → Exec ε σ} {g : τ → ι → Exec ε' τ}
    {l : List ι} {s : σ} {t : τ} (h : R s t)
    (hstep : ∀ a ∈ l, ∀ s t, R s t → Agree R (f s a) (g t a)) :
    Agree R (l.foldlM f s) (l.foldlM g t) := by
  induction l generalizing s t with
  | nil => exact h
  | cons a l ih =>
      rw [List.foldlM_cons, List.foldlM_cons]
      refine (hstep a List.mem_cons_self s t h).bind ?_
      intro s' t' h'
      exact ih h' fun b hb => hstep b (List.mem_cons_of_mem a hb)

/-- The errors of either side may be reworded. -/
theorem Agree.mapErr_left {e : ε → ε''} (h : Agree R x y) : Agree R (mapErr e x) y := by
  cases x with
  | ok a =>
      cases y with
      | ok b => exact h
      | error t => exact h.elim
  | error t =>
      cases y with
      | ok b => exact h.elim
      | error t' => cases t <;> trivial

theorem Agree.mapErr_right {e : ε' → ε''} (h : Agree R x y) : Agree R x (mapErr e y) := by
  cases y with
  | ok b =>
      cases x with
      | ok a => exact h
      | error t => exact h.elim
  | error t =>
      cases x with
      | ok a => exact h.elim
      | error t' => cases t <;> trivial

/-- Computations that agree on the value return the same values. -/
theorem Agree.ok_iff {y : Exec ε' α} (h : Agree Eq x y) (a : α) : x = .ok a ↔ y = .ok a := by
  cases x with
  | ok b =>
      cases y with
      | ok c =>
          have hbc : b = c := h
          rw [hbc]
          exact ⟨congrArg Except.ok ∘ Except.ok.inj, congrArg Except.ok ∘ Except.ok.inj⟩
      | error t => exact h.elim
  | error t =>
      cases y with
      | ok c => exact h.elim
      | error t' => exact ⟨nofun, nofun⟩

end Rules

end Exec
end Lib
end CleanWeb
