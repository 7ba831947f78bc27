import Mathlib.Data.List.Induction
import CleanWeb.Lib.Exec

/-!
# Callback — transactions that hand over control

A transaction system whose calls may stop half way to run foreign code, which may itself call
back, to any depth, before it returns.  It names no program.

* `Machine`: what a call does until it ends or hands over, and what it does when the foreign code
  returns; a call that stops without a value, or whose foreign code refuses, leaves no trace;
* `run`: the configuration after a list of actions, each a call or a return;
* `run_inv`: an invariant that every call and every resumption keeps holds after every run, undone
  calls included.
-/

namespace CleanWeb
namespace Lib

variable {σ κ ω ε : Type}

/-- A system of calls on a world `σ`; a call that hands over leaves an obligation `ω`. -/
structure Machine (σ κ ω ε : Type) where
  /-- Whether the environment can make the call while these obligations are open. -/
  admits : σ → List ω → κ → Bool
  call : σ → κ → Exec ε (σ × Option ω)
  resume : σ → ω → Exec ε (σ × Option ω)

/-- A call that waits for foreign code, with the world to go back to if it is undone. -/
structure Frame (σ ω : Type) where
  snapshot : σ
  pending : ω

/-- The world and the calls that are under way, innermost first. -/
structure Config (σ ω : Type) where
  world : σ
  frames : List (Frame σ ω)

/-- What the environment does next. -/
inductive Action (κ : Type) where
  | call (k : κ)
  | returns (accepted : Bool)
  deriving DecidableEq, Repr

namespace Config

def init (s : σ) : Config σ ω :=
  ⟨s, []⟩

/-- The obligations of the calls under way. -/
def pending (c : Config σ ω) : List ω :=
  c.frames.map Frame.pending

/-- No call is under way. -/
def AtRest (c : Config σ ω) : Prop :=
  c.frames = []

instance (c : Config σ ω) : Decidable c.AtRest :=
  decidable_of_iff (c.frames.isEmpty = true) List.isEmpty_iff

/-- Put a call that started in `snapshot` back on the stack if it hands over once more. -/
def enter (snapshot : σ) (frames : List (Frame σ ω)) (out : σ × Option ω) : Config σ ω :=
  match out.2 with
  | none => ⟨out.1, frames⟩
  | some p => ⟨out.1, ⟨snapshot, p⟩ :: frames⟩

@[simp] theorem pending_init (s : σ) : (init s : Config σ ω).pending = [] := rfl

@[simp] theorem enter_none (snapshot w : σ) (frames : List (Frame σ ω)) :
    enter snapshot frames (w, none) = ⟨w, frames⟩ := rfl

@[simp] theorem enter_some (snapshot w : σ) (frames : List (Frame σ ω)) (p : ω) :
    enter snapshot frames (w, some p) = ⟨w, ⟨snapshot, p⟩ :: frames⟩ := rfl

@[simp] theorem world_enter (snapshot : σ) (frames : List (Frame σ ω)) (out : σ × Option ω) :
    (enter snapshot frames out).world = out.1 := by
  rcases out with ⟨w, _ | p⟩ <;> rfl

theorem AtRest.pending {c : Config σ ω} (h : c.AtRest) : c.pending = [] := by
  rw [Config.pending, show c.frames = [] from h, List.map_nil]

end Config

namespace Machine

variable (m : Machine σ κ ω ε)

/-- One action.  What fails is undone; what the environment cannot do changes nothing. -/
def next (c : Config σ ω) : Action κ → Config σ ω
  | .call k =>
      if m.admits c.world c.pending k then
        match m.call c.world k with
        | .ok out => Config.enter c.world c.frames out
        | .error _ => c
      else c
  | .returns accepted =>
      match c.frames with
      | [] => c
      | f :: fs =>
          if accepted then
            match m.resume c.world f.pending with
            | .ok out => Config.enter f.snapshot fs out
            | .error _ => ⟨f.snapshot, fs⟩
          else ⟨f.snapshot, fs⟩

def run (s : σ) (acts : List (Action κ)) : Config σ ω :=
  acts.foldl m.next (Config.init s)

/-- From `c` on, every action is made where `C` allows it. -/
def StepsFrom (C : Config σ ω → Action κ → Prop) : Config σ ω → List (Action κ) → Prop
  | _, [] => True
  | c, a :: acts => C c a ∧ StepsFrom C (m.next c a) acts

/-- Every action of the run is made where `C` allows it. -/
def Steps (C : Config σ ω → Action κ → Prop) (s : σ) (acts : List (Action κ)) : Prop :=
  m.StepsFrom C (Config.init s) acts

instance StepsFrom.decidable (C : Config σ ω → Action κ → Prop) [∀ c a, Decidable (C c a)] :
    ∀ c acts, Decidable (m.StepsFrom C c acts)
  | _, [] => .isTrue trivial
  | c, a :: acts =>
      have := StepsFrom.decidable C (m.next c a) acts
      inferInstanceAs (Decidable (C c a ∧ m.StepsFrom C (m.next c a) acts))

instance (C : Config σ ω → Action κ → Prop) [∀ c a, Decidable (C c a)] (s : σ)
    (acts : List (Action κ)) : Decidable (m.Steps C s acts) :=
  StepsFrom.decidable m C (Config.init s) acts

variable {m} {C : Config σ ω → Action κ → Prop} {s : σ} {acts : List (Action κ)}

@[simp] theorem run_nil : m.run s [] = Config.init s := rfl

theorem run_append_singleton (a : Action κ) : m.run s (acts ++ [a]) = m.next (m.run s acts) a := by
  simp [run]

theorem run_append (more : List (Action κ)) :
    m.run s (acts ++ more) = more.foldl m.next (m.run s acts) := by
  simp [run]

theorem next_call_ok {c : Config σ ω} {k : κ} {out : σ × Option ω}
    (hallowed : m.admits c.world c.pending k = true) (hout : m.call c.world k = .ok out) :
    m.next c (.call k) = Config.enter c.world c.frames out := by
  simp only [next, hallowed, if_true, hout]

theorem stepsFrom_of_forall (h : ∀ c a, C c a) (c : Config σ ω) : m.StepsFrom C c acts := by
  induction acts generalizing c with
  | nil => trivial
  | cons a acts ih => exact ⟨h c a, ih (m.next c a)⟩

theorem stepsFrom_append_singleton {c : Config σ ω} {a : Action κ} :
    m.StepsFrom C c (acts ++ [a]) ↔ m.StepsFrom C c acts ∧ C (acts.foldl m.next c) a := by
  induction acts generalizing c with
  | nil =>
      simp [StepsFrom]
  | cons b acts ih =>
      simp only [List.cons_append, StepsFrom, ih, List.foldl_cons, and_assoc]

theorem steps_append_singleton {a : Action κ} :
    m.Steps C s (acts ++ [a]) ↔ m.Steps C s acts ∧ C (m.run s acts) a :=
  stepsFrom_append_singleton

/-! ## Invariants -/

section Invariant

variable {P : Config σ ω → Prop}

/-- `P` holds now, and held where each call under way started. -/
structure Sound (P : Config σ ω → Prop) (c : Config σ ω) : Prop where
  here : P c
  snapshots : ∀ f fs, (f :: fs) <:+ c.frames → P ⟨f.snapshot, fs⟩

theorem Sound.unwind {c : Config σ ω} {f : Frame σ ω} {fs : List (Frame σ ω)} (h : Sound P c)
    (hc : c.frames = f :: fs) : Sound P ⟨f.snapshot, fs⟩ := by
  refine ⟨h.snapshots f fs (hc ▸ List.suffix_rfl), ?_⟩
  intro g gs hsuffix
  refine h.snapshots g gs (hsuffix.trans ?_)
  rw [hc]
  exact List.suffix_cons f fs

theorem sound_enter {snapshot : σ} {frames : List (Frame σ ω)} {out : σ × Option ω}
    (hback : Sound P ⟨snapshot, frames⟩) (hout : P (Config.enter snapshot frames out)) :
    Sound P (Config.enter snapshot frames out) := by
  rcases out with ⟨w, _ | p⟩
  · exact ⟨hout, hback.snapshots⟩
  · refine ⟨hout, ?_⟩
    intro g gs hsuffix
    rcases List.suffix_cons_iff.1 hsuffix with heq | hsuffix
    · rcases List.cons.inj heq with ⟨rfl, rfl⟩
      exact hback.here
    · exact hback.snapshots g gs hsuffix

/-- One action keeps `Sound P` if the calls and the resumptions keep `P`. -/
theorem sound_next {c : Config σ ω} {a : Action κ} (hc : Sound P c)
    (hcall : ∀ k out, a = .call k → m.admits c.world c.pending k = true →
      m.call c.world k = .ok out → P (Config.enter c.world c.frames out))
    (hresume : ∀ f fs out, a = .returns true → c.frames = f :: fs →
      m.resume c.world f.pending = .ok out → P (Config.enter f.snapshot fs out)) :
    Sound P (m.next c a) := by
  cases a with
  | call k =>
      simp only [next]
      split
      · rename_i hallowed
        cases hout : m.call c.world k with
        | ok out => exact sound_enter hc (hcall k out rfl hallowed hout)
        | error t => exact hc
      · exact hc
  | returns accepted =>
      simp only [next]
      cases hframes : c.frames with
      | nil => exact hc
      | cons f fs =>
          have hback := hc.unwind hframes
          cases accepted with
          | false => exact hback
          | true =>
              simp only [if_true]
              cases hout : m.resume c.world f.pending with
              | ok out => exact sound_enter hback (hresume f fs out rfl hframes hout)
              | error t => exact hback

/-- An invariant of the runs whose every action is made where `C` allows it. -/
theorem run_sound_of_steps (h0 : P (Config.init s))
    (hcall : ∀ c k out, P c → C c (.call k) → m.admits c.world c.pending k = true →
      m.call c.world k = .ok out → P (Config.enter c.world c.frames out))
    (hresume : ∀ c f fs out, P c → C c (.returns true) → c.frames = f :: fs →
      m.resume c.world f.pending = .ok out → P (Config.enter f.snapshot fs out))
    (hacts : m.Steps C s acts) : Sound P (m.run s acts) := by
  induction acts using List.reverseRecOn with
  | nil =>
      refine ⟨h0, ?_⟩
      intro f fs hsuffix
      simp [Config.init] at hsuffix
  | append_singleton acts a ih =>
      rcases steps_append_singleton.1 hacts with ⟨hpre, ha⟩
      have hc := ih hpre
      rw [run_append_singleton]
      refine sound_next hc ?_ ?_
      · rintro k out rfl hallowed hout
        exact hcall _ k out hc.here ha hallowed hout
      · rintro f fs out rfl hframes hout
        exact hresume _ f fs out hc.here ha hframes hout

theorem run_inv_of_steps (h0 : P (Config.init s))
    (hcall : ∀ c k out, P c → C c (.call k) → m.admits c.world c.pending k = true →
      m.call c.world k = .ok out → P (Config.enter c.world c.frames out))
    (hresume : ∀ c f fs out, P c → C c (.returns true) → c.frames = f :: fs →
      m.resume c.world f.pending = .ok out → P (Config.enter f.snapshot fs out))
    (hacts : m.Steps C s acts) : P (m.run s acts) :=
  (run_sound_of_steps h0 hcall hresume hacts).here

/-- An invariant of every run. -/
theorem run_inv (h0 : P (Config.init s))
    (hcall : ∀ c k out, P c → m.admits c.world c.pending k = true →
      m.call c.world k = .ok out → P (Config.enter c.world c.frames out))
    (hresume : ∀ c f fs out, P c → c.frames = f :: fs →
      m.resume c.world f.pending = .ok out → P (Config.enter f.snapshot fs out))
    (acts : List (Action κ)) : P (m.run s acts) := by
  refine run_inv_of_steps (C := fun _ _ => True) h0 ?_ ?_
    (stepsFrom_of_forall (fun _ _ => trivial) _)
  · intro c k out hP _ hallowed hout
    exact hcall c k out hP hallowed hout
  · intro c f fs out hP _ hframes hout
    exact hresume c f fs out hP hframes hout

/-- An invariant of everything that follows a configuration at rest. -/
theorem foldl_inv {c : Config σ ω} (hrest : c.AtRest) (h0 : P c)
    (hcall : ∀ c k out, P c → m.admits c.world c.pending k = true →
      m.call c.world k = .ok out → P (Config.enter c.world c.frames out))
    (hresume : ∀ c f fs out, P c → c.frames = f :: fs →
      m.resume c.world f.pending = .ok out → P (Config.enter f.snapshot fs out))
    (acts : List (Action κ)) : P (acts.foldl m.next c) := by
  have hsound : Sound P (acts.foldl m.next c) := by
    induction acts using List.reverseRecOn with
    | nil =>
        refine ⟨h0, ?_⟩
        intro f fs hsuffix
        simp [show c.frames = [] from hrest] at hsuffix
    | append_singleton acts a ih =>
        rw [List.foldl_append, List.foldl_cons, List.foldl_nil]
        refine sound_next ih ?_ ?_
        · rintro k out rfl hallowed hout
          exact hcall _ k out ih.here hallowed hout
        · rintro f fs out rfl hframes hout
          exact hresume _ f fs out ih.here hframes hout
  exact hsound.here

end Invariant

end Machine
end Lib
end CleanWeb
