import CleanWeb.Lib.Callback

/-!
# Observed — a machine with a record kept beside its world

`observed m observe` runs `m` and keeps, next to the world, a record that each call and each
resumption updates from the worlds before and after it.  What is undone is undone with its record.
`erase_run` says that the record changes nothing: forgetting it gives back the run of `m`.
-/

namespace CleanWeb
namespace Lib

variable {σ κ ω ε γ : Type}

namespace Machine

/-- `m`, with a record that `observe` updates after each step that goes through. -/
def observed (m : Machine σ κ ω ε) (observe : σ → σ → γ → γ) : Machine (σ × γ) κ ω ε :=
  { admits := fun s pending k => m.admits s.1 pending k
    call := fun s k => do
      let out ← m.call s.1 k
      pure ((out.1, observe s.1 out.1 s.2), out.2)
    resume := fun s p => do
      let out ← m.resume s.1 p
      pure ((out.1, observe s.1 out.1 s.2), out.2) }

end Machine

namespace Config

/-- The configuration without the record. -/
def erase (c : Config (σ × γ) ω) : Config σ ω :=
  ⟨c.world.1, c.frames.map fun f => ⟨f.snapshot.1, f.pending⟩⟩

@[simp] theorem erase_init (s : σ) (g : γ) :
    (init (s, g) : Config (σ × γ) ω).erase = init s := rfl

@[simp] theorem pending_erase (c : Config (σ × γ) ω) : c.erase.pending = c.pending := by
  simp [erase, pending, Function.comp_def]

@[simp] theorem erase_enter (snapshot : σ × γ) (frames : List (Frame (σ × γ) ω)) (w : σ) (g : γ)
    (p : Option ω) :
    (enter snapshot frames ((w, g), p)).erase =
      enter snapshot.1 (frames.map fun f => ⟨f.snapshot.1, f.pending⟩) (w, p) := by
  cases p <;> rfl

end Config

namespace Machine

variable {m : Machine σ κ ω ε} {observe : σ → σ → γ → γ}

theorem observed_call {s : σ × γ} {k : κ} {out : (σ × γ) × Option ω}
    (h : (m.observed observe).call s k = .ok out) :
    m.call s.1 k = .ok (out.1.1, out.2) ∧ out.1.2 = observe s.1 out.1.1 s.2 := by
  rcases Exec.bind_eq_ok.1 h with ⟨o, hcall, h⟩
  cases h
  exact ⟨hcall, rfl⟩

theorem observed_resume {s : σ × γ} {p : ω} {out : (σ × γ) × Option ω}
    (h : (m.observed observe).resume s p = .ok out) :
    m.resume s.1 p = .ok (out.1.1, out.2) ∧ out.1.2 = observe s.1 out.1.1 s.2 := by
  rcases Exec.bind_eq_ok.1 h with ⟨o, hresume, h⟩
  cases h
  exact ⟨hresume, rfl⟩

theorem observed_call_eq (s : σ × γ) (k : κ) :
    (m.observed observe).call s k =
      match m.call s.1 k with
      | .ok out => .ok ((out.1, observe s.1 out.1 s.2), out.2)
      | .error t => .error t := by
  simp only [observed]
  cases m.call s.1 k <;> rfl

theorem observed_resume_eq (s : σ × γ) (p : ω) :
    (m.observed observe).resume s p =
      match m.resume s.1 p with
      | .ok out => .ok ((out.1, observe s.1 out.1 s.2), out.2)
      | .error t => .error t := by
  simp only [observed]
  cases m.resume s.1 p <;> rfl

/-- The record decides nothing: one step, erased, is the step of the erased configuration. -/
theorem erase_next (c : Config (σ × γ) ω) (a : Action κ) :
    ((m.observed observe).next c a).erase = m.next c.erase a := by
  cases a with
  | call k =>
      simp only [next, Config.pending_erase, observed_call_eq]
      change (if m.admits c.world.1 c.pending k then _ else _ : Config (σ × γ) ω).erase =
        if m.admits c.world.1 c.pending k then _ else _
      split
      · change _ = match m.call c.world.1 k with
          | .ok out => Config.enter c.world.1 c.erase.frames out
          | .error _ => c.erase
        cases m.call c.world.1 k with
        | ok out => exact Config.erase_enter c.world c.frames out.1 _ out.2
        | error t => rfl
      · rfl
  | returns accepted =>
      rcases c with ⟨w, _ | ⟨f, fs⟩⟩
      · rfl
      · cases accepted with
        | false => rfl
        | true =>
            simp only [next, Config.erase, List.map_cons, if_true, observed_resume_eq]
            cases m.resume w.1 f.pending with
            | ok out => exact Config.erase_enter f.snapshot fs out.1 _ out.2
            | error t => rfl

/-- Forgetting the record gives back the run of `m`. -/
theorem erase_run (m : Machine σ κ ω ε) (observe : σ → σ → γ → γ) (s : σ) (g : γ)
    (acts : List (Action κ)) :
    ((m.observed observe).run (s, g) acts).erase = m.run s acts := by
  induction acts using List.reverseRecOn with
  | nil =>
      rfl
  | append_singleton acts a ih =>
      rw [run_append_singleton, run_append_singleton, erase_next, ih]

/-- An invariant of the configurations and their records, over every run. -/
theorem observed_inv {P : Config σ ω → γ → Prop} {s : σ} {g : γ} (h0 : P (Config.init s) g)
    (hcall : ∀ c r k out, P c r → m.admits c.world c.pending k = true → m.call c.world k = .ok out →
      P (Config.enter c.world c.frames out) (observe c.world out.1 r))
    (hresume : ∀ c r f fs out, P c r → c.frames = f :: fs → m.resume c.world f.pending = .ok out →
      P (Config.enter f.snapshot fs out) (observe c.world out.1 r))
    (acts : List (Action κ)) :
    P (m.run s acts) ((m.observed observe).run (s, g) acts).world.2 := by
  rw [← erase_run m observe s g acts]
  refine run_inv (P := fun c : Config (σ × γ) ω => P c.erase c.world.2) ?_ ?_ ?_ acts
  · exact h0
  · intro c k out hP hallowed hout
    rcases observed_call hout with ⟨hcall', hrecord⟩
    rcases out with ⟨⟨w, r⟩, p⟩
    dsimp only at hrecord
    subst hrecord
    rw [Config.world_enter, Config.erase_enter]
    refine hcall c.erase c.world.2 k (w, p) hP ?_ hcall'
    rw [Config.pending_erase]
    exact hallowed
  · intro c f fs out hP hframes hout
    rcases observed_resume hout with ⟨hresume', hrecord⟩
    rcases out with ⟨⟨w, r⟩, p⟩
    dsimp only at hrecord
    subst hrecord
    rw [Config.world_enter, Config.erase_enter]
    refine hresume c.erase c.world.2 ⟨f.snapshot.1, f.pending⟩ _ (w, p) hP ?_ hresume'
    rw [Config.erase, hframes]
    rfl

end Machine
end Lib
end CleanWeb
