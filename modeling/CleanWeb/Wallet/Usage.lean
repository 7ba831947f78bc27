import CleanWeb.Wallet.Session

/-!
# What a flush reports

`Played` is what a listener did since the last flush, as lists: the time added for each work and the
works that were started.  The store is a saturating tally of it, so that a flush reports the minutes
exactly; it reports plays for the works that were started since the last flush, and for no other.
-/

namespace CleanWeb
namespace Wallet

open Lib

inductive Op where
  | start (sessionId : String) (workId : Bytes32)
  | addTime (sessionId : String) (dtSecs : Nat)
  | stop (sessionId : String)
  | flush
  deriving DecidableEq, Repr

namespace SessionStore

/-- The store after one call. -/
def next (st : SessionStore) : Op → SessionStore
  | .start sessionId workId => st.start sessionId workId
  | .addTime sessionId dtSecs => (st.addTime sessionId dtSecs).2
  | .stop sessionId => (st.stop sessionId).2
  | .flush => st.flush.2

/-- The store after a list of calls. -/
def run (nowSecs : Nat) (ops : List Op) : SessionStore :=
  ops.foldl next (new nowSecs)

end SessionStore

/-! ## What was played -/

/-- The works that the open sessions point at, and since the last flush the seconds added to them
and the works started. -/
structure Played where
  pointing : String → Option Bytes32
  seconds : List (Bytes32 × Nat)
  starts : List Bytes32

namespace Played

def none : Played :=
  ⟨fun _ => Option.none, [], []⟩

def next (p : Played) : Op → Played
  | .start sessionId workId =>
      { p with
        pointing := Function.update p.pointing sessionId (some workId)
        starts := p.starts ++ [workId] }
  | .addTime sessionId dtSecs =>
      { p with seconds := p.seconds ++ ((p.pointing sessionId).map (·, dtSecs)).toList }
  | .stop sessionId =>
      { p with pointing := Function.update p.pointing sessionId Option.none }
  | .flush => { p with seconds := [], starts := [] }

def of (ops : List Op) : Played :=
  ops.foldl next none

/-- The seconds of a work since the last flush, up to the maximum. -/
def secondsOf (p : Played) (workId : Bytes32) : Nat :=
  min (amountAt workId p.seconds) u64Max

theorem of_append_singleton (ops : List Op) (op : Op) : of (ops ++ [op]) = (of ops).next op := by
  simp [of]

end Played

/-! ## The store tallies what was played -/

structure Tracks (st : SessionStore) (p : Played) : Prop where
  active : ∀ sessionId : String, st.active[sessionId]? = p.pointing sessionId
  secs : TalliesUpTo u64Max st.perWorkSecs p.seconds
  plays : TalliesUpTo u64Max st.perWorkPlays (p.starts.map (·, 1))

namespace Tracks

variable {st : SessionStore} {p : Played}

theorem new (nowSecs : Nat) : Tracks (SessionStore.new nowSecs) Played.none :=
  ⟨fun _ => by simp [SessionStore.new, Played.none], TalliesUpTo.empty, TalliesUpTo.empty⟩

theorem start (h : Tracks st p) (sessionId : String) (workId : Bytes32) :
    Tracks (st.start sessionId workId) (p.next (.start sessionId workId)) := by
  refine ⟨?_, h.secs, ?_⟩
  · intro other
    by_cases heq : sessionId = other
    · subst heq
      simp [SessionStore.start, Played.next]
    · simp [SessionStore.start, Played.next, Std.ExtTreeMap.getElem?_insert, heq, Ne.symm heq,
        h.active]
  · have hadd := h.plays.insert_add workId 1
    simpa [SessionStore.start, Played.next, saturatingAdd] using hadd

theorem addTime (h : Tracks st p) (sessionId : String) (dtSecs : Nat) :
    Tracks (st.addTime sessionId dtSecs).2 (p.next (.addTime sessionId dtSecs)) := by
  cases hopen : st.active[sessionId]? with
  | none =>
      have hpoints : p.pointing sessionId = Option.none := by
        rw [← h.active, hopen]
      simpa [SessionStore.addTime, Played.next, hopen, hpoints] using h
  | some workId =>
      have hpoints : p.pointing sessionId = some workId := by
        rw [← h.active, hopen]
      refine ⟨?_, ?_, ?_⟩
      · simpa [SessionStore.addTime, Played.next, hopen] using h.active
      · have hadd := h.secs.insert_add workId dtSecs
        simpa [SessionStore.addTime, Played.next, hopen, hpoints, saturatingAdd] using hadd
      · simpa [SessionStore.addTime, Played.next, hopen] using h.plays

theorem stop (h : Tracks st p) (sessionId : String) :
    Tracks (st.stop sessionId).2 (p.next (.stop sessionId)) := by
  refine ⟨?_, h.secs, h.plays⟩
  intro other
  by_cases heq : sessionId = other
  · subst heq
    simp [SessionStore.stop, Played.next]
  · simp [SessionStore.stop, Played.next, Std.ExtTreeMap.getElem?_erase, heq, Ne.symm heq,
      h.active]

theorem flush (h : Tracks st p) : Tracks st.flush.2 (p.next .flush) :=
  ⟨h.active, TalliesUpTo.empty, TalliesUpTo.empty⟩

theorem next (h : Tracks st p) (op : Op) : Tracks (st.next op) (p.next op) := by
  cases op with
  | start sessionId workId => exact h.start sessionId workId
  | addTime sessionId dtSecs => exact h.addTime sessionId dtSecs
  | stop sessionId => exact h.stop sessionId
  | flush => exact h.flush

theorem run (nowSecs : Nat) (ops : List Op) : Tracks (SessionStore.run nowSecs ops) (.of ops) := by
  induction ops using List.reverseRecOn with
  | nil => exact new nowSecs
  | append_singleton ops op ih =>
      rw [SessionStore.run, List.foldl_append, Played.of_append_singleton]
      exact ih.next op

/-- A work's stored seconds are what was played of it. -/
theorem getD_secs (h : Tracks st p) (workId : Bytes32) :
    st.perWorkSecs.getD workId 0 = p.secondsOf workId :=
  h.secs.amount workId

/-- A work has plays exactly if it was started since the last flush. -/
theorem plays_pos_iff (h : Tracks st p) (workId : Bytes32) :
    1 ≤ st.perWorkPlays.getD workId 0 ↔ workId ∈ p.starts := by
  have hcount : amountAt workId (p.starts.map (·, 1)) = p.starts.count workId := by
    simp [amountAt, List.count_eq_length_filter, List.filter_map, Function.comp_def, beq_eq_decide]
  have hcap : 1 ≤ u64Max := by
    decide
  rw [h.plays.amount, hcount, ← List.count_pos_iff]
  omega

end Tracks

/-! ## Exact usage -/

/-- The entries report the usage `p`: one for each work with a minute or more of it, with the full
minutes and at least one play. -/
structure Reports (p : Played) (entries : List UsageEntry) : Prop where
  distinct : (entries.map UsageEntry.workId).Nodup
  minutes : ∀ e ∈ entries, e.minutes = p.secondsOf e.workId / 60 ∧ 1 ≤ e.minutes
  complete : ∀ w, 60 ≤ p.secondsOf w → ∃ e ∈ entries, e.workId = w
  plays : ∀ e ∈ entries, 1 ≤ e.plays

namespace Tracks

variable {st : SessionStore} {p : Played}

/-- The entries of a flush, in terms of what was played. -/
theorem mem_flush (h : Tracks st p) {e : UsageEntry} :
    e ∈ st.flush.1 ↔ 60 ≤ p.secondsOf e.workId ∧ e.minutes = p.secondsOf e.workId / 60 ∧
      e.plays = st.perWorkPlays.getD e.workId 0 := by
  rw [SessionStore.mem_flush, ← h.getD_secs, Std.ExtTreeMap.getD_eq_getD_getElem?]
  constructor
  · rintro ⟨w, secs, hget, hlong, rfl⟩
    simpa [hget] using hlong
  · rintro ⟨hlong, hminutes, hplays⟩
    cases hget : st.perWorkSecs[e.workId]? with
    | none =>
        simp [hget] at hlong
    | some secs =>
        rw [hget] at hlong hminutes
        exact ⟨e.workId, secs, hget, hlong, by rw [← hplays]; cases e; simp_all⟩

/-- A flush reports the usage exactly if the works it reports were started since the last one. -/
theorem reports_iff (h : Tracks st p) :
    Reports p st.flush.1 ↔ ∀ w, 60 ≤ p.secondsOf w → w ∈ p.starts := by
  constructor
  · intro hreports w hlong
    rcases hreports.complete w hlong with ⟨e, he, rfl⟩
    have hplays := hreports.plays e he
    rw [(h.mem_flush.1 he).2.2, h.plays_pos_iff] at hplays
    exact hplays
  · intro hstarted
    refine ⟨SessionStore.nodup_flush st, ?_, ?_, ?_⟩
    · intro e he
      rcases h.mem_flush.1 he with ⟨hlong, hminutes, -⟩
      refine ⟨hminutes, ?_⟩
      rw [hminutes]
      omega
    · intro w hlong
      exact ⟨⟨w, p.secondsOf w / 60, st.perWorkPlays.getD w 0⟩,
        h.mem_flush.2 ⟨hlong, rfl, rfl⟩, rfl⟩
    · intro e he
      rcases h.mem_flush.1 he with ⟨hlong, -, hplays⟩
      rw [hplays, h.plays_pos_iff]
      exact hstarted e.workId hlong

end Tracks

/-- Over any calls, every flush reports the usage exactly when each work with a minute or more since
the flush before it was also started since then. -/
theorem flush_reports_iff (nowSecs : Nat) (ops : List Op) :
    (∀ before, before ++ [.flush] <+: ops →
        Reports (.of before) (SessionStore.run nowSecs before).flush.1) ↔
      ∀ before, before ++ [.flush] <+: ops →
        ∀ w, 60 ≤ (Played.of before).secondsOf w → w ∈ (Played.of before).starts := by
  constructor
  · intro h before hbefore
    exact (Tracks.run nowSecs before).reports_iff.1 (h before hbefore)
  · intro h before hbefore
    exact (Tracks.run nowSecs before).reports_iff.2 (h before hbefore)

/-- A session that stays open over a flush and plays on. -/
def samplePlayingOn : List Op :=
  [.start "s1" 10, .addTime "s1" 120, .flush, .addTime "s1" 120, .flush]

/-- The second flush reports two minutes of the work, and no play. -/
theorem samplePlayingOn_not_reported :
    ¬ ∀ before, before ++ [.flush] <+: samplePlayingOn →
      Reports (.of before) (SessionStore.run 0 before).flush.1 := by
  intro h
  have hreports := h (samplePlayingOn.take 4) (by decide)
  have hlong : 60 ≤ (Played.of (samplePlayingOn.take 4)).secondsOf 10 := by
    decide
  have hstarted := (Tracks.run 0 (samplePlayingOn.take 4)).reports_iff.1 hreports 10 hlong
  exact absurd hstarted (by decide)

end Wallet
end CleanWeb
