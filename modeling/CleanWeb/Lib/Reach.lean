import Mathlib.Data.Set.Card
import CleanWeb.Lib.Callback

/-!
# Reach — what can still be brought about

`Reaches A c c'` says that actions which `A` allows lead a machine from `c` to `c'`.  A machine
that can always deal with one of finitely many open tasks, without opening another, can deal with
all of them (`reaches_empty`).  It names no program.
-/

namespace CleanWeb
namespace Lib

variable {σ κ ω ε ι : Type}

namespace Machine

variable (m : Machine σ κ ω ε) (A : Action κ → Prop)

/-- Actions that `A` allows lead from `c` to `c'`. -/
def Reaches (c c' : Config σ ω) : Prop :=
  ∃ acts : List (Action κ), (∀ a ∈ acts, A a) ∧ acts.foldl m.next c = c'

variable {m A} {c c' c'' : Config σ ω} {s : σ} {acts : List (Action κ)}

theorem Reaches.refl (c : Config σ ω) : m.Reaches A c c :=
  ⟨[], by simp, rfl⟩

theorem Reaches.trans (h : m.Reaches A c c') (h' : m.Reaches A c' c'') : m.Reaches A c c'' := by
  rcases h with ⟨acts, hacts, rfl⟩
  rcases h' with ⟨more, hmore, rfl⟩
  refine ⟨acts ++ more, ?_, List.foldl_append⟩
  intro a ha
  rcases List.mem_append.1 ha with hleft | hright
  · exact hacts a hleft
  · exact hmore a hright

theorem Reaches.action {a : Action κ} (ha : A a) : m.Reaches A c (m.next c a) := by
  refine ⟨[a], ?_, rfl⟩
  intro b hb
  rw [List.mem_singleton.1 hb]
  exact ha

/-- A call that goes through. -/
theorem Reaches.call {k : κ} {out : σ × Option ω} (ha : A (.call k))
    (hallowed : m.admits c.world c.pending k = true) (hout : m.call c.world k = .ok out) :
    m.Reaches A c (Config.enter c.world c.frames out) := by
  rw [← next_call_ok hallowed hout]
  exact Reaches.action ha

/-- Foreign code that accepts, and a call that goes on. -/
theorem Reaches.resume {f : Frame σ ω} {fs : List (Frame σ ω)} {out : σ × Option ω}
    (ha : A (.returns true)) (hframes : c.frames = f :: fs)
    (hout : m.resume c.world f.pending = .ok out) :
    m.Reaches A c (Config.enter f.snapshot fs out) := by
  have hnext : m.next c (.returns true) = Config.enter f.snapshot fs out := by
    simp only [next, hframes, if_true, hout]
  rw [← hnext]
  exact Reaches.action ha

/-- What a run can reach is where a longer run ends. -/
theorem Reaches.run (h : m.Reaches A (m.run s acts) c') :
    ∃ more, (∀ a ∈ more, A a) ∧ m.run s (acts ++ more) = c' := by
  rcases h with ⟨more, hmore, rfl⟩
  exact ⟨more, hmore, run_append more⟩

/-- If some open task can always be dealt with and no other is opened, none need stay open. -/
theorem reaches_empty {P : Config σ ω → Prop} {tasks : Config σ ω → Set ι}
    (hfinite : ∀ c, P c → (tasks c).Finite)
    (hprogress : ∀ c k, P c → k ∈ tasks c →
      ∃ c', m.Reaches A c c' ∧ P c' ∧ tasks c' ⊆ tasks c \ {k}) (hc : P c) :
    ∃ c', m.Reaches A c c' ∧ P c' ∧ tasks c' = ∅ := by
  induction hn : (tasks c).ncard using Nat.strong_induction_on generalizing c with
  | _ n ih =>
      rcases (tasks c).eq_empty_or_nonempty with hempty | ⟨k, hk⟩
      · exact ⟨c, Reaches.refl c, hc, hempty⟩
      · rcases hprogress c k hc hk with ⟨c', hreach, hc', hsub⟩
        have hfewer : (tasks c').ncard < n := by
          rw [← hn]
          apply Set.ncard_lt_ncard _ (hfinite c hc)
          exact hsub.trans_ssubset (Set.sdiff_singleton_ssubset.2 hk)
        rcases ih _ hfewer hc' rfl with ⟨c'', hreach', hc'', hempty⟩
        exact ⟨c'', hreach.trans hreach', hc'', hempty⟩

end Machine
end Lib
end CleanWeb
