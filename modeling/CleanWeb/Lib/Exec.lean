import Mathlib.Algebra.Order.Ring.Nat
import Mathlib.Data.List.Forall2
import Mathlib.Tactic.Common

/-!
# Exec — computations over fixed-width integers

A small calculus for code that computes with bounded machine integers, in the style of a
pre/postcondition logic.  It names no program.

* `Exec ε α`: a result, a returned error `ε`, or a *panic* (an unchecked operator left its
  range, an index left its array);
* `addU`, `subU`, `mulU`: the plain operators, which panic when they leave the range;
* `checkedAdd`, `checkedSub`, `checkedMul`: their `Option`-valued forms;
* `Meets x Q E`: if `x` returns a value it satisfies `Q`, if it stops the reason satisfies `E`,
  with one rule for sequencing (`Meets.bind`) and one for loops (`Meets.foldlM`).
-/

namespace CleanWeb
namespace Lib

variable {ε ε' α β σ : Type}

/-! ## Results -/

/-- Why a computation stopped without a value. -/
inductive Trap (ε : Type) where
  | err (e : ε)
  | panic
  deriving DecidableEq, Repr

/-- A computation that returns a value, returns an error, or panics. -/
abbrev Exec (ε α : Type) := Except (Trap ε) α

namespace Exec

/-- Return the error `e`. -/
def fail (e : ε) : Exec ε α :=
  .error (.err e)

/-- Stop with a panic. -/
def panics : Exec ε α :=
  .error .panic

/-- `ok_or`: an absent value becomes the error `e`. -/
def okOr (o : Option α) (e : ε) : Exec ε α :=
  match o with
  | some a => .ok a
  | none => fail e

/-- The error conversion performed by `?`. -/
def mapErr (g : ε → ε') : Exec ε α → Exec ε' α
  | .ok a => .ok a
  | .error (.err e) => .error (.err (g e))
  | .error .panic => .error .panic

/-- A call that returns no error of its own: only its panics remain. -/
def infallible : Exec ε α → Exec ε' α
  | .ok a => .ok a
  | .error _ => .error .panic

/-- `l[i]`, which panics outside the list. -/
def index (l : List α) (i : Nat) : Exec ε α :=
  match l[i]? with
  | some a => .ok a
  | none => panics

/-- `l[a..b]`, which panics outside the list. -/
def slice (l : List α) (a b : Nat) : Exec ε (List α) :=
  if a ≤ b ∧ b ≤ l.length then .ok ((l.drop a).take (b - a)) else panics

/-- Why a computation stopped, if it did. -/
def trap : Exec ε α → Option (Trap ε)
  | .ok _ => none
  | .error t => some t

theorem eq_error_of_trap {x : Exec ε α} {t : Trap ε} (h : trap x = some t) : x = .error t := by
  cases x with
  | ok a => cases h
  | error t' => rw [Option.some.inj h]

theorem exists_ok_of_trap {x : Exec ε α} (h : trap x = none) : ∃ a, x = .ok a := by
  cases x with
  | ok a => exact ⟨a, rfl⟩
  | error t => cases h

/-! ## Bounded arithmetic -/

def checkedAdd (w a b : Nat) : Option Nat :=
  if a + b < 2 ^ w then some (a + b) else none

def checkedSub (a b : Nat) : Option Nat :=
  if b ≤ a then some (a - b) else none

def checkedMul (w a b : Nat) : Option Nat :=
  if a * b < 2 ^ w then some (a * b) else none

/-- Plain `a + b` on `w`-bit integers. -/
def addU (w a b : Nat) : Exec ε Nat :=
  if a + b < 2 ^ w then .ok (a + b) else panics

/-- Plain `a - b` on unsigned integers. -/
def subU (a b : Nat) : Exec ε Nat :=
  if b ≤ a then .ok (a - b) else panics

/-- Plain `a * b` on `w`-bit integers. -/
def mulU (w a b : Nat) : Exec ε Nat :=
  if a * b < 2 ^ w then .ok (a * b) else panics

/-- Plain `a * b` on `w`-bit integers, in a build with or without overflow checks. -/
def mulBuild (checks : Bool) (w a b : Nat) : Exec ε Nat :=
  if a * b < 2 ^ w then .ok (a * b) else if checks then panics else .ok (a * b % 2 ^ w)

/-- Plain `a + b` on `w`-bit integers, in a build with or without overflow checks. -/
def addBuild (checks : Bool) (w a b : Nat) : Exec ε Nat :=
  if a + b < 2 ^ w then .ok (a + b) else if checks then panics else .ok ((a + b) % 2 ^ w)

/-- Plain `a / b`, which panics on a zero divisor. -/
def divU (a b : Nat) : Exec ε Nat :=
  if b = 0 then panics else .ok (a / b)

/-- `iter().sum()` on `w`-bit integers. -/
def sumU (w : Nat) (l : List Nat) : Exec ε Nat :=
  l.foldlM (addU w) 0

/-! ## Postconditions -/

/-- If `x` returns a value it satisfies `Q`; if it stops, the reason satisfies `E`. -/
def Meets (x : Exec ε α) (Q : α → Prop) (E : Trap ε → Prop) : Prop :=
  match x with
  | .ok a => Q a
  | .error t => E t

/-- The reasons other than a panic. -/
def Returned (t : Trap ε) : Prop :=
  t ≠ .panic

@[simp] theorem returned_err (e : ε) : Returned (Trap.err e) := by
  simp [Returned]

@[simp] theorem not_returned_panic : ¬ Returned (Trap.panic : Trap ε) := by
  simp [Returned]

section Rules

variable {x : Exec ε α} {f : α → Exec ε β} {Q Q' : α → Prop} {R : β → Prop}
variable {E E' : Trap ε → Prop}

@[simp] theorem meets_ok (a : α) : Meets (.ok a : Exec ε α) Q E ↔ Q a := Iff.rfl

@[simp] theorem meets_pure (a : α) : Meets (pure a : Exec ε α) Q E ↔ Q a := Iff.rfl

@[simp] theorem meets_error (t : Trap ε) : Meets (.error t : Exec ε α) Q E ↔ E t := Iff.rfl

@[simp] theorem meets_fail (e : ε) : Meets (fail e : Exec ε α) Q E ↔ E (.err e) := Iff.rfl

@[simp] theorem meets_panics : Meets (panics : Exec ε α) Q E ↔ E .panic := Iff.rfl

theorem meets_iff :
    Meets x Q E ↔ (∀ a, x = .ok a → Q a) ∧ ∀ t, x = .error t → E t := by
  cases x with
  | ok a => simp
  | error t => simp

theorem Meets.of_ok {a : α} (h : Meets x Q E) (hx : x = .ok a) : Q a :=
  (meets_iff.1 h).1 a hx

theorem Meets.of_error {t : Trap ε} (h : Meets x Q E) (hx : x = .error t) : E t :=
  (meets_iff.1 h).2 t hx

/-- Without a trap to end in, the computation returns. -/
theorem Meets.exists_ok (h : Meets x Q E) (hE : ∀ t, ¬ E t) : ∃ a, x = .ok a ∧ Q a := by
  cases x with
  | ok a => exact ⟨a, rfl, h⟩
  | error t => exact absurd h (hE t)

theorem Meets.mono (h : Meets x Q E) (hQ : ∀ a, x = .ok a → Q a → Q' a)
    (hE : ∀ t, E t → E' t) : Meets x Q' E' := by
  cases x with
  | ok a => exact hQ a rfl h
  | error t => exact hE t h

theorem meets_bind_iff : Meets (x >>= f) R E ↔ Meets x (fun a => Meets (f a) R E) E := by
  cases x with
  | ok a => exact Iff.rfl
  | error t => exact Iff.rfl

/-- Sequencing: establish the postcondition of the first part, then continue from it. -/
theorem Meets.bind (h : Meets x Q E) (hf : ∀ a, Q a → Meets (f a) R E) :
    Meets (x >>= f) R E :=
  meets_bind_iff.2 (h.mono (fun a _ ha => hf a ha) fun _ ht => ht)

/-- Loops: `P done s` holds of the elements consumed so far and the accumulator. -/
theorem Meets.foldlM {g : σ → α → Exec ε σ} (P : List α → σ → Prop) {l : List α} {s : σ}
    (h0 : P [] s)
    (hstep : ∀ done a rest s, l = done ++ a :: rest → P done s →
      Meets (g s a) (P (done ++ [a])) E) :
    Meets (l.foldlM g s) (P l) E := by
  -- Generalise over the consumed prefix; the induction is on what is left.
  suffices key : ∀ (rest done : List α) (s : σ), l = done ++ rest → P done s →
      Meets (rest.foldlM g s) (P l) E from key l [] s rfl h0
  intro rest
  induction rest with
  | nil =>
      intro done s hl hP
      have hdone : l = done := by simpa using hl
      simpa [hdone] using hP
  | cons a rest ih =>
      intro done s hl hP
      rw [List.foldlM_cons]
      refine (hstep done a rest s hl hP).bind ?_
      intro s' hs'
      exact ih (done ++ [a]) s' (by simpa using hl) hs'

/-- Mapping: each result is related to the element it came from. -/
theorem meets_mapM {g : α → Exec ε β} {Q : α → β → Prop} {l : List α}
    (hg : ∀ a ∈ l, Meets (g a) (Q a) E) : Meets (l.mapM g) (List.Forall₂ Q l) E := by
  induction l with
  | nil =>
      simp
  | cons a l ih =>
      rw [List.mapM_cons]
      refine (hg a (by simp)).bind ?_
      intro b hb
      refine (ih fun x hx => hg x (by simp [hx])).bind ?_
      intro out hout
      exact List.Forall₂.cons hb hout

end Rules

/-- Mapping succeeds when every element does. -/
theorem exists_mapM {g : α → Exec ε β} {l : List α} (hg : ∀ a ∈ l, ∃ b, g a = .ok b) :
    ∃ bs, l.mapM g = .ok bs := by
  have hmeets : Meets (l.mapM g) (List.Forall₂ (fun _ _ => True) l) (fun _ => False) := by
    refine meets_mapM ?_
    intro a ha
    rcases hg a ha with ⟨b, hb⟩
    rw [hb]
    trivial
  cases hl : l.mapM g with
  | ok bs => exact ⟨bs, rfl⟩
  | error t => exact absurd (hmeets.of_error hl) id

/-- Mapping returns the results of the elements, in order. -/
theorem forall₂_of_mapM {g : α → Exec ε β} {l : List α} {bs : List β} (h : l.mapM g = .ok bs) :
    List.Forall₂ (fun a b => g a = .ok b) l bs := by
  have hmeets : Meets (l.mapM g) (List.Forall₂ (fun a b => g a = .ok b) l) (fun _ => True) := by
    refine meets_mapM ?_
    intro a _
    exact meets_iff.2 ⟨fun b hb => hb, fun _ _ => trivial⟩
  exact hmeets.of_ok h

/-- Where no element stops, mapping returns what the elements return. -/
theorem mapM_eq_ok {g : α → Exec ε β} {f : α → β} {l : List α} (h : ∀ a ∈ l, g a = .ok (f a)) :
    l.mapM g = .ok (l.map f) := by
  induction l with
  | nil =>
      rfl
  | cons a l ih =>
      rw [List.mapM_cons, h a List.mem_cons_self, ih fun b hb => h b (List.mem_cons_of_mem _ hb)]
      rfl

/-- Where mapping returns, every element has a result. -/
theorem exists_of_mapM {g : α → Exec ε β} {l : List α} {bs : List β} (h : l.mapM g = .ok bs)
    {a : α} (ha : a ∈ l) : ∃ b, g a = .ok b := by
  have hall := forall₂_of_mapM h
  clear h
  induction hall with
  | nil => cases ha
  | cons hab _ ih =>
      rcases List.mem_cons.1 ha with rfl | ha
      · exact ⟨_, hab⟩
      · exact ih ha

theorem mapM_congr {g g' : α → Exec ε β} {l : List α} (h : ∀ a ∈ l, g a = g' a) :
    l.mapM g = l.mapM g' := by
  induction l with
  | nil =>
      rfl
  | cons a l ih =>
      rw [List.mapM_cons, List.mapM_cons, h a (by simp), ih fun b hb => h b (by simp [hb])]

/-! ## Inversion -/

@[simp] theorem ok_bind (a : α) (f : α → Exec ε β) : ((.ok a : Exec ε α) >>= f) = f a := rfl

@[simp] theorem error_bind (t : Trap ε) (f : α → Exec ε β) :
    ((.error t : Exec ε α) >>= f) = .error t := rfl

@[simp] theorem fail_bind (e : ε) (f : α → Exec ε β) : (fail e >>= f) = fail e := rfl

@[simp] theorem panics_bind (f : α → Exec ε β) : (panics >>= f) = panics := rfl

theorem bind_eq_ok {x : Exec ε α} {f : α → Exec ε β} {b : β} :
    (x >>= f) = .ok b ↔ ∃ a, x = .ok a ∧ f a = .ok b := by
  cases x with
  | ok a => simp [Bind.bind, Except.bind]
  | error t => simp [Bind.bind, Except.bind]

/-! ## Simulation -/

section Simulation

variable {g : σ → α → Exec ε σ} {R : σ → σ → Prop} {l l₀ : List α} {s s₀ s' : σ}

/-- A loop that returns from one state returns from every state that its steps simulate. -/
theorem foldlM_simulates
    (hstep : ∀ s₀ s a s', R s₀ s → g s a = .ok s' → ∃ s₀', g s₀ a = .ok s₀' ∧ R s₀' s')
    (h : R s₀ s) (hl : l.foldlM g s = .ok s') :
    ∃ s₀', l.foldlM g s₀ = .ok s₀' ∧ R s₀' s' := by
  induction l generalizing s s₀ with
  | nil =>
      cases hl
      exact ⟨s₀, rfl, h⟩
  | cons a l ih =>
      rw [List.foldlM_cons] at hl
      rcases bind_eq_ok.1 hl with ⟨t, ht, hrest⟩
      rcases hstep s₀ s a t h ht with ⟨t₀, ht₀, hR⟩
      rcases ih hR hrest with ⟨s₀', hs₀', hR'⟩
      refine ⟨s₀', ?_, hR'⟩
      rw [List.foldlM_cons, ht₀]
      exact hs₀'

/-- It also returns on fewer elements, when leaving one out keeps the states related. -/
theorem foldlM_simulates_sublist
    (hstep : ∀ s₀ s a s', R s₀ s → g s a = .ok s' → ∃ s₀', g s₀ a = .ok s₀' ∧ R s₀' s')
    (hskip : ∀ s₀ s a s', R s₀ s → g s a = .ok s' → R s₀ s')
    (hsub : l₀.Sublist l) (h : R s₀ s) (hl : l.foldlM g s = .ok s') :
    ∃ s₀', l₀.foldlM g s₀ = .ok s₀' ∧ R s₀' s' := by
  induction hsub generalizing s s₀ with
  | slnil =>
      cases hl
      exact ⟨s₀, rfl, h⟩
  | cons a _ ih =>
      rw [List.foldlM_cons] at hl
      rcases bind_eq_ok.1 hl with ⟨t, ht, hrest⟩
      exact ih (hskip s₀ s a t h ht) hrest
  | cons_cons a _ ih =>
      rw [List.foldlM_cons] at hl
      rcases bind_eq_ok.1 hl with ⟨t, ht, hrest⟩
      rcases hstep s₀ s a t h ht with ⟨t₀, ht₀, hR⟩
      rcases ih hR hrest with ⟨s₀', hs₀', hR'⟩
      refine ⟨s₀', ?_, hR'⟩
      rw [List.foldlM_cons, ht₀]
      exact hs₀'

end Simulation

@[simp] theorem okOr_eq_ok {o : Option α} {e : ε} {a : α} :
    okOr o e = .ok a ↔ o = some a := by
  cases o with
  | none => simp [okOr, fail]
  | some b => simp [okOr]

@[simp] theorem mapErr_eq_ok {g : ε → ε'} {x : Exec ε α} {a : α} :
    mapErr g x = .ok a ↔ x = .ok a := by
  rcases x with (_ | _) | _ <;> simp [mapErr]

@[simp] theorem infallible_eq_ok {x : Exec ε α} {a : α} :
    (infallible x : Exec ε' α) = .ok a ↔ x = .ok a := by
  cases x <;> simp [infallible]

@[simp] theorem index_eq_ok {l : List α} {i : Nat} {a : α} :
    (index l i : Exec ε α) = .ok a ↔ l[i]? = some a := by
  cases h : l[i]? <;> simp [index, panics, h]

@[simp] theorem slice_eq_ok {l out : List α} {i j : Nat} :
    (slice l i j : Exec ε (List α)) = .ok out ↔
      (i ≤ j ∧ j ≤ l.length) ∧ (l.drop i).take (j - i) = out := by
  unfold slice
  split <;> simp_all [panics]

theorem meets_mapErr {g : ε → ε'} {x : Exec ε α} {Q : α → Prop} {E : Trap ε' → Prop} :
    Meets (mapErr g x) Q E ↔
      Meets x Q fun t => match t with
        | .err e => E (.err (g e))
        | .panic => E .panic := by
  rcases x with (_ | _) | _ <;> rfl

@[simp] theorem mapErr_eq_panic {g : ε → ε'} {x : Exec ε α} :
    mapErr g x = .error .panic ↔ x = .error .panic := by
  rcases x with (_ | _) | _ <;> simp [mapErr]

@[simp] theorem checkedAdd_eq_some {w a b c : Nat} :
    checkedAdd w a b = some c ↔ a + b < 2 ^ w ∧ a + b = c := by
  simp [checkedAdd]

@[simp] theorem checkedMul_eq_some {w a b c : Nat} :
    checkedMul w a b = some c ↔ a * b < 2 ^ w ∧ a * b = c := by
  simp [checkedMul]

@[simp] theorem checkedSub_eq_some {a b c : Nat} :
    checkedSub a b = some c ↔ b ≤ a ∧ a - b = c := by
  simp [checkedSub]

@[simp] theorem addU_eq_ok {w a b c : Nat} :
    (addU w a b : Exec ε Nat) = .ok c ↔ a + b < 2 ^ w ∧ a + b = c := by
  unfold addU panics
  by_cases h : a + b < 2 ^ w
  · simp [h]
  · simp [h]

@[simp] theorem subU_eq_ok {a b c : Nat} :
    (subU a b : Exec ε Nat) = .ok c ↔ b ≤ a ∧ a - b = c := by
  unfold subU panics
  by_cases h : b ≤ a
  · simp [h]
  · simp [h]

theorem addBuild_of_lt {checks : Bool} {w a b : Nat} (h : a + b < 2 ^ w) :
    (addBuild checks w a b : Exec ε Nat) = .ok (a + b) :=
  if_pos h

theorem mulBuild_of_lt {checks : Bool} {w a b : Nat} (h : a * b < 2 ^ w) :
    (mulBuild checks w a b : Exec ε Nat) = .ok (a * b) :=
  if_pos h

/-- With overflow checks, a sum that is returned fits. -/
theorem addBuild_checked {w a b c : Nat} (h : (addBuild true w a b : Exec ε Nat) = .ok c) :
    a + b < 2 ^ w ∧ c = a + b := by
  unfold addBuild at h
  split at h
  · rename_i hfits
    cases h
    exact ⟨hfits, rfl⟩
  · cases h

theorem mulBuild_checked {w a b c : Nat} (h : (mulBuild true w a b : Exec ε Nat) = .ok c) :
    a * b < 2 ^ w ∧ c = a * b := by
  unfold mulBuild at h
  split at h
  · rename_i hfits
    cases h
    exact ⟨hfits, rfl⟩
  · cases h

@[simp] theorem mulU_eq_ok {w a b c : Nat} :
    (mulU w a b : Exec ε Nat) = .ok c ↔ a * b < 2 ^ w ∧ a * b = c := by
  unfold mulU panics
  by_cases h : a * b < 2 ^ w
  · simp [h]
  · simp [h]

/-! ## Postconditions of the arithmetic -/

section Arithmetic

variable {w a b : Nat} {E : Trap ε → Prop} {Q : Nat → Prop}

theorem meets_addU (h : a + b < 2 ^ w) (hQ : Q (a + b)) : Meets (addU w a b) Q E := by
  simpa [addU, h] using hQ

theorem meets_subU (h : b ≤ a) (hQ : Q (a - b)) : Meets (subU a b) Q E := by
  simpa [subU, h] using hQ

theorem meets_divU (h : 0 < b) (hQ : Q (a / b)) : Meets (divU a b) Q E := by
  simpa [divU, Nat.ne_of_gt h] using hQ

theorem meets_checkedAdd {e : ε} :
    Meets (okOr (checkedAdd w a b) e) Q E ↔
      if a + b < 2 ^ w then Q (a + b) else E (.err e) := by
  unfold checkedAdd
  split <;> simp [okOr]

theorem meets_checkedMul {e : ε} :
    Meets (okOr (checkedMul w a b) e) Q E ↔
      if a * b < 2 ^ w then Q (a * b) else E (.err e) := by
  unfold checkedMul
  split <;> simp [okOr]

theorem meets_checkedSub {e : ε} :
    Meets (okOr (checkedSub a b) e) Q E ↔ if b ≤ a then Q (a - b) else E (.err e) := by
  unfold checkedSub
  split <;> simp [okOr]

/-- A bounded sum is the sum, or panics because the sum does not fit. -/
theorem meets_sumU (w : Nat) (l : List Nat) :
    Meets (sumU w l : Exec ε Nat) (fun s => s = l.sum ∧ ∀ a ∈ l, a < 2 ^ w)
      (fun t => t = .panic ∧ 2 ^ w ≤ l.sum) := by
  refine Meets.foldlM (fun done s => s = done.sum ∧ ∀ a ∈ done, a < 2 ^ w) (by simp) ?_
  rintro done a rest s hl ⟨rfl, hdone⟩
  have hle : done.sum + a ≤ l.sum := by
    subst hl
    simp only [List.sum_append, List.sum_cons]
    omega
  unfold addU
  split
  · refine ⟨by simp, ?_⟩
    intro x hx
    rcases List.mem_append.1 hx with hx | hx
    · exact hdone x hx
    · have hxa : x = a := by simpa using hx
      omega
  · exact ⟨rfl, by omega⟩

theorem sumU_eq_ok {w : Nat} {l : List Nat} (h : l.sum < 2 ^ w) :
    (sumU w l : Exec ε Nat) = .ok l.sum := by
  have hm : Meets (sumU w l : Exec ε Nat) _ _ := meets_sumU w l
  cases hx : (sumU w l : Exec ε Nat) with
  | ok s => rw [(hm.of_ok hx).1]
  | error t => exact absurd (hm.of_error hx).2 (by omega)

end Arithmetic

end Exec
end Lib
end CleanWeb
