import Mathlib.Data.List.Forall2
import Mathlib.Tactic.Common

/-!
# Synth — constraint-system synthesis

A program that allocates public inputs and witnesses and enforces constraints on them.  Each
allocation carries the value the honest prover gives it; a verifier's view forgets these values
and runs the program on an arbitrary assignment.  It names no program and no field.

* `check m s`: run `m` on the assignment `s`;
* `Ensures m Q`: in every assignment that satisfies `m`, the result satisfies `Q` (soundness), with
  one rule for each construct;
* `honest m`, `accepted m`: the prover's own assignment, and whether it satisfies the constraints
  (completeness); `check_honest` connects the two readings.
-/

namespace CleanWeb
namespace Lib

theorem exists_left_of_forall₂ {α β : Type} {R : α → β → Prop} {as : List α} {bs : List β} {b : β}
    (h : List.Forall₂ R as bs) (hb : b ∈ bs) : ∃ a ∈ as, R a b := by
  induction h with
  | nil => cases hb
  | cons hab _ ih =>
      rcases List.mem_cons.1 hb with rfl | hb
      · exact ⟨_, List.mem_cons_self, hab⟩
      · rcases ih hb with ⟨a, ha, hrel⟩
        exact ⟨a, List.mem_cons_of_mem _ ha, hrel⟩

theorem exists_right_of_forall₂ {α β : Type} {R : α → β → Prop} {as : List α} {bs : List β} {a : α}
    (h : List.Forall₂ R as bs) (ha : a ∈ as) : ∃ b ∈ bs, R a b :=
  exists_left_of_forall₂ h.flip ha

/-- A synthesis program over the field `F`. -/
inductive Synth (F α : Type) where
  | done (a : α)
  | input (value : F) (next : F → Synth F α)
  | witness (value : F) (next : F → Synth F α)
  | enforce (holds : Bool) (next : Synth F α)

/-- The values of the public inputs and of the witnesses, in order of allocation. -/
structure Assignment (F : Type) where
  inputs : List F
  witnesses : List F
  deriving DecidableEq, Repr

namespace Synth

variable {F α β : Type}

/-! ## Programs -/

def bind : Synth F α → (α → Synth F β) → Synth F β
  | .done a, f => f a
  | .input v next, f => .input v fun x => (next x).bind f
  | .witness v next, f => .witness v fun x => (next x).bind f
  | .enforce b next, f => .enforce b (next.bind f)

instance : Monad (Synth F) where
  pure := .done
  bind := .bind

theorem bind_done (m : Synth F α) : m.bind .done = m := by
  induction m with
  | done a => rfl
  | input v next ih => exact congrArg _ (funext ih)
  | witness v next ih => exact congrArg _ (funext ih)
  | enforce b next ih => exact congrArg _ ih

theorem bind_bind {γ : Type} (m : Synth F α) (f : α → Synth F β) (g : β → Synth F γ) :
    (m.bind f).bind g = m.bind fun a => (f a).bind g := by
  induction m with
  | done a => rfl
  | input v next ih => exact congrArg _ (funext ih)
  | witness v next ih => exact congrArg _ (funext ih)
  | enforce b next ih => exact congrArg _ ih

instance : LawfulMonad (Synth F) :=
  LawfulMonad.mk' (Synth F) bind_done (fun _ _ => rfl) bind_bind

/-- Allocate a public input. -/
def newInput (value : F) : Synth F F :=
  .input value .done

/-- Allocate a witness. -/
def newWitness (value : F) : Synth F F :=
  .witness value .done

/-- Enforce a constraint on values already allocated. -/
def require (p : Prop) [Decidable p] : Synth F Unit :=
  .enforce p (.done ())

/-! ## Running on an assignment -/

/-- The result and what is left of the assignment, if every constraint holds. -/
def check : Synth F α → Assignment F → Option (α × Assignment F)
  | .done a, s => some (a, s)
  | .input _ next, s =>
      match s.inputs with
      | [] => none
      | x :: xs => (next x).check { s with inputs := xs }
  | .witness _ next, s =>
      match s.witnesses with
      | [] => none
      | x :: xs => (next x).check { s with witnesses := xs }
  | .enforce b next, s => if b then next.check s else none

theorem check_bind (m : Synth F α) (f : α → Synth F β) (s : Assignment F) :
    (m >>= f).check s = (m.check s).bind fun r => (f r.1).check r.2 := by
  change (m.bind f).check s = _
  induction m generalizing s with
  | done a => rfl
  | input v next ih =>
      rcases s with ⟨_ | ⟨x, xs⟩, ws⟩
      · rfl
      · exact ih x ⟨xs, ws⟩
  | witness v next ih =>
      rcases s with ⟨is, _ | ⟨x, xs⟩⟩
      · rfl
      · exact ih x ⟨is, xs⟩
  | enforce b next ih =>
      cases b with
      | true => exact ih s
      | false => rfl

/-- The assignment satisfies the constraints, and no value of it is left over. -/
def Reads (m : Synth F α) (s : Assignment F) (a : α) : Prop :=
  m.check s = some (a, ⟨[], []⟩)

/-! ## Soundness -/

/-- In every assignment that satisfies `m`, the result satisfies `Q`. -/
def Ensures (m : Synth F α) (Q : α → Prop) : Prop :=
  ∀ s a t, m.check s = some (a, t) → Q a

section Rules

variable {m : Synth F α} {f : α → Synth F β} {Q Q' : α → Prop} {R : β → Prop}

theorem Ensures.of_reads {s : Assignment F} {a : α} (h : Ensures m Q) (hs : m.Reads s a) : Q a :=
  h s a _ hs

theorem Ensures.mono (h : Ensures m Q) (hQ : ∀ a, Q a → Q' a) : Ensures m Q' := by
  intro s a t hs
  exact hQ a (h s a t hs)

theorem ensures_pure {a : α} (h : Q a) : Ensures (pure a : Synth F α) Q := by
  intro s b t hs
  cases hs
  exact h

theorem Ensures.bind (h : Ensures m Q) (hf : ∀ a, Q a → Ensures (f a) R) :
    Ensures (m >>= f) R := by
  intro s b t hs
  rw [check_bind, Option.bind_eq_some_iff] at hs
  rcases hs with ⟨⟨a, u⟩, ha, hb⟩
  exact hf a (h s a u ha) u b t hb

/-- An allocated value is arbitrary. -/
theorem ensures_newWitness_bind {v : F} {f : F → Synth F β} (hf : ∀ x, Ensures (f x) R) :
    Ensures (newWitness v >>= f) R := by
  rintro ⟨is, _ | ⟨x, ws⟩⟩ b t hs
  · cases hs
  · exact hf x ⟨is, ws⟩ b t hs

theorem ensures_newInput_bind {v : F} {f : F → Synth F β} (hf : ∀ x, Ensures (f x) R) :
    Ensures (newInput v >>= f) R := by
  rintro ⟨_ | ⟨x, is⟩, ws⟩ b t hs
  · cases hs
  · exact hf x ⟨is, ws⟩ b t hs

theorem ensures_require {p : Prop} [Decidable p] :
    Ensures (require p : Synth F Unit) fun _ => p := by
  intro s a t hs
  by_cases hp : p
  · exact hp
  · simp [require, check, hp] at hs

theorem ensures_require_bind {p : Prop} [Decidable p] {f : Unit → Synth F β}
    (hf : p → Ensures (f ()) R) : Ensures (require p >>= f) R :=
  ensures_require.bind fun _ => hf

/-- Loops: each result is related to the element it came from. -/
theorem ensures_mapM {g : α → Synth F β} {Q : α → β → Prop} {l : List α}
    (hg : ∀ a ∈ l, Ensures (g a) (Q a)) : Ensures (l.mapM g) (List.Forall₂ Q l) := by
  induction l with
  | nil =>
      rw [List.mapM_nil]
      exact ensures_pure List.Forall₂.nil
  | cons a l ih =>
      rw [List.mapM_cons]
      refine (hg a (by simp)).bind ?_
      intro b hb
      refine (ih fun x hx => hg x (by simp [hx])).bind ?_
      intro out hout
      exact ensures_pure (List.Forall₂.cons hb hout)

/-- Loops that only enforce: each iteration leaves its constraint. -/
theorem ensures_forM {g : α → Synth F PUnit} {P : α → Prop} {l : List α}
    (hg : ∀ a ∈ l, Ensures (g a) fun _ => P a) :
    Ensures (forM l g) fun _ => ∀ a ∈ l, P a := by
  induction l with
  | nil =>
      exact ensures_pure (by simp)
  | cons a l ih =>
      rw [List.forM_cons]
      refine (hg a (by simp)).bind ?_
      intro _ ha
      refine (ih fun x hx => hg x (by simp [hx])).mono ?_
      intro _ hl
      exact List.forall_mem_cons.2 ⟨ha, hl⟩

end Rules

/-! ## Public inputs -/

/-- The program allocates no public input. -/
inductive InputFree : Synth F α → Prop where
  | done (a : α) : InputFree (.done a)
  | witness (v : F) (next : F → Synth F α) (h : ∀ x, InputFree (next x)) :
      InputFree (.witness v next)
  | enforce (b : Bool) (next : Synth F α) (h : InputFree next) : InputFree (.enforce b next)

section InputFree

variable {m : Synth F α} {f : α → Synth F β}

theorem inputFree_pure (a : α) : (pure a : Synth F α).InputFree :=
  .done a

theorem inputFree_newWitness (v : F) : (newWitness v).InputFree :=
  .witness v _ fun x => .done x

theorem inputFree_require (p : Prop) [Decidable p] : (require p : Synth F Unit).InputFree :=
  .enforce _ _ (.done ())

theorem InputFree.bind (hm : m.InputFree) (hf : ∀ a, (f a).InputFree) : (m >>= f).InputFree := by
  induction hm with
  | done a => exact hf a
  | witness v next _ ih => exact .witness v _ ih
  | enforce b next _ ih => exact .enforce b _ ih

theorem inputFree_mapM {g : α → Synth F β} (hg : ∀ a, (g a).InputFree) (l : List α) :
    (l.mapM g).InputFree := by
  induction l with
  | nil => exact inputFree_pure []
  | cons a l ih =>
      rw [List.mapM_cons]
      exact (hg a).bind fun b => ih.bind fun out => inputFree_pure _

theorem inputFree_forM {g : α → Synth F PUnit} (hg : ∀ a, (g a).InputFree) (l : List α) :
    (forM l g).InputFree := by
  induction l with
  | nil => exact inputFree_pure ()
  | cons a l ih =>
      rw [List.forM_cons]
      exact (hg a).bind fun _ => ih

theorem inputFree_foldlM {g : β → α → Synth F β} (hg : ∀ b a, (g b a).InputFree) (l : List α)
    (b : β) : (l.foldlM g b).InputFree := by
  induction l generalizing b with
  | nil => exact inputFree_pure b
  | cons a l ih =>
      rw [List.foldlM_cons]
      exact (hg b a).bind ih

/-- Such a program leaves the public inputs where they are. -/
theorem InputFree.inputs_eq {s t : Assignment F} {a : α} (hm : m.InputFree)
    (hs : m.check s = some (a, t)) : t.inputs = s.inputs := by
  induction hm generalizing s with
  | done b =>
      cases hs
      rfl
  | witness v next _ ih =>
      rcases s with ⟨is, _ | ⟨x, xs⟩⟩
      · cases hs
      · exact ih x (s := ⟨is, xs⟩) hs
  | enforce b next _ ih =>
      cases b with
      | true => exact ih hs
      | false => cases hs

/-- A program that starts with its only public input. -/
theorem InputFree.inputs_of_reads {f : F → Synth F β} {v : F} {s : Assignment F} {b : β}
    (hf : ∀ x, (f x).InputFree) (hs : (newInput v >>= f).Reads s b) :
    ∃ x ws, s = ⟨[x], ws⟩ ∧ (f x).Reads ⟨[], ws⟩ b := by
  rcases s with ⟨_ | ⟨x, is⟩, ws⟩
  · cases hs
  · have hrest : (f x).check ⟨is, ws⟩ = some (b, ⟨[], []⟩) := hs
    have hnil : is = [] := ((hf x).inputs_eq hrest).symm
    subst hnil
    exact ⟨x, ws, rfl, hrest⟩

end InputFree

/-! ## Completeness -/

/-- The result when every allocation takes the prover's value. -/
def value : Synth F α → α
  | .done a => a
  | .input v next => (next v).value
  | .witness v next => (next v).value
  | .enforce _ next => next.value

/-- The prover's assignment. -/
def honest : Synth F α → Assignment F
  | .done _ => ⟨[], []⟩
  | .input v next => let s := (next v).honest; { s with inputs := v :: s.inputs }
  | .witness v next => let s := (next v).honest; { s with witnesses := v :: s.witnesses }
  | .enforce _ next => next.honest

/-- The prover's values satisfy every constraint. -/
def Accepted : Synth F α → Prop
  | .done _ => True
  | .input v next => (next v).Accepted
  | .witness v next => (next v).Accepted
  | .enforce b next => b = true ∧ next.Accepted

/-- The prover's assignment satisfies the constraints exactly when each of them holds of the
prover's values. -/
theorem check_honest_iff (m : Synth F α) :
    m.Reads m.honest m.value ↔ m.Accepted := by
  unfold Reads
  induction m with
  | done a => exact ⟨fun _ => trivial, fun _ => rfl⟩
  | input v next ih => exact ih v
  | witness v next ih => exact ih v
  | enforce b next ih =>
      cases b with
      | true => simpa [check, honest, value, Accepted] using ih
      | false => simp [check, Accepted]

section Simp

variable (m : Synth F α) (f : α → Synth F β)

@[simp] theorem value_pure (a : α) : (pure a : Synth F α).value = a := rfl

@[simp] theorem value_newWitness (v : F) : (newWitness v).value = v := rfl

@[simp] theorem value_newInput (v : F) : (newInput v).value = v := rfl

@[simp] theorem value_bind : (m >>= f).value = (f m.value).value := by
  change (m.bind f).value = _
  induction m with
  | done a => rfl
  | input v next ih => exact ih v
  | witness v next ih => exact ih v
  | enforce b next ih => exact ih

@[simp] theorem accepted_pure (a : α) : (pure a : Synth F α).Accepted := trivial

@[simp] theorem accepted_newWitness (v : F) : (newWitness v).Accepted := trivial

@[simp] theorem accepted_newInput (v : F) : (newInput v).Accepted := trivial

@[simp] theorem accepted_require (p : Prop) [Decidable p] :
    (require p : Synth F Unit).Accepted ↔ p := by
  simp [require, Accepted]

@[simp] theorem accepted_bind : (m >>= f).Accepted ↔ m.Accepted ∧ (f m.value).Accepted := by
  change (m.bind f).Accepted ↔ _
  induction m with
  | done a => exact (true_and _).symm.to_iff
  | input v next ih => exact ih v
  | witness v next ih => exact ih v
  | enforce b next ih =>
      change (b = true ∧ (next.bind f).Accepted) ↔ (b = true ∧ next.Accepted) ∧ _
      rw [ih, and_assoc]
      exact Iff.rfl

@[simp] theorem value_map (h : α → β) : (h <$> m).value = h m.value := by
  rw [map_eq_pure_bind, value_bind, value_pure]

@[simp] theorem accepted_map (h : α → β) : (h <$> m).Accepted ↔ m.Accepted := by
  rw [map_eq_pure_bind, accepted_bind]
  exact and_iff_left trivial

@[simp] theorem value_mapM (g : α → Synth F β) (l : List α) :
    (l.mapM g).value = l.map fun a => (g a).value := by
  induction l with
  | nil => rw [List.mapM_nil]; rfl
  | cons a l ih => simp [List.mapM_cons, ih]

@[simp] theorem accepted_mapM (g : α → Synth F β) (l : List α) :
    (l.mapM g).Accepted ↔ ∀ a ∈ l, (g a).Accepted := by
  induction l with
  | nil => simp [List.mapM_nil]
  | cons a l ih => simp [List.mapM_cons, ih]

@[simp] theorem accepted_forM (g : α → Synth F PUnit) (l : List α) :
    (forM l g).Accepted ↔ ∀ a ∈ l, (g a).Accepted := by
  induction l with
  | nil => simp [List.forM_nil]
  | cons a l ih => simp [List.forM_cons, ih]

end Simp

end Synth
end Lib
end CleanWeb
