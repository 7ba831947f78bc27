import Mathlib.Data.List.Induction

/-!
# History — what holds at every point of a log

`Ordered P h` says of every event of the log `h` that `P` relates it to the events before it.  A
log that grows by lawful events stays ordered.
-/

namespace CleanWeb
namespace Lib

variable {α : Type} {P Q : List α → α → Prop} {h : List α}

def Ordered (P : List α → α → Prop) (h : List α) : Prop :=
  ∀ pre a post, h = pre ++ a :: post → P pre a

namespace Ordered

theorem nil : Ordered P [] := by
  intro pre a post heq
  simp at heq

theorem append_singleton {a : α} (hh : Ordered P h) (ha : P h a) : Ordered P (h ++ [a]) := by
  intro pre b post heq
  rcases List.eq_nil_or_concat post with rfl | ⟨init, last, rfl⟩
  · have hlast := List.append_inj' heq rfl
    rw [← hlast.1, ← (List.cons.inj hlast.2).1]
    exact ha
  · refine hh pre b init ?_
    have hshift : h ++ [a] = (pre ++ b :: init) ++ [last] := by
      rw [heq]
      simp
    exact (List.append_inj' hshift rfl).1

theorem append {l : List α} (hh : Ordered P h)
    (hl : ∀ pre a post, l = pre ++ a :: post → P (h ++ pre) a) : Ordered P (h ++ l) := by
  induction l using List.reverseRecOn with
  | nil => rwa [List.append_nil]
  | append_singleton l b ih =>
      rw [← List.append_assoc]
      refine append_singleton (ih ?_) (hl l b [] rfl)
      rintro pre a post rfl
      exact hl pre a (post ++ [b]) (by simp)

theorem mono (hh : Ordered P h) (hPQ : ∀ pre a, P pre a → Q pre a) : Ordered Q h :=
  fun pre a post heq => hPQ pre a (hh pre a post heq)

end Ordered
end Lib
end CleanWeb
