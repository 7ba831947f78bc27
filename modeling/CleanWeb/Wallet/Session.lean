import CleanWeb.Lib.Tally
import CleanWeb.Wallet.Bytes32

/-!
# Session accounting (`libs/wallet-zk/src/session.rs`)

The store keeps seconds and plays for each work, and the work each open session points at.  A flush
takes both accumulators and turns them into usage entries; the sessions stay open.
-/

namespace CleanWeb
namespace Wallet

open Lib

/-- One work's usage over an epoch. -/
structure UsageEntry where
  workId : Bytes32
  minutes : Nat
  plays : Nat
  deriving DecidableEq, Repr

def epochLengthSecs : Nat := 30 * 24 * 60 * 60

def epochOf (timestampSecs : Nat) : Nat :=
  timestampSecs / epochLengthSecs

def u64Max : Nat := 2 ^ 64 - 1

def saturatingAdd (a b : Nat) : Nat :=
  min (a + b) u64Max

structure SessionStore where
  epoch : Nat
  perWorkSecs : BTreeMap Bytes32 Nat
  perWorkPlays : BTreeMap Bytes32 Nat
  active : BTreeMap String Bytes32

namespace SessionStore

def new (nowSecs : Nat) : SessionStore :=
  ⟨epochOf nowSecs, ∅, ∅, ∅⟩

def start (st : SessionStore) (sessionId : String) (workId : Bytes32) : SessionStore :=
  { st with
    active := st.active.insert sessionId workId
    perWorkPlays :=
      st.perWorkPlays.insert workId (saturatingAdd (st.perWorkPlays.getD workId 0) 1) }

/-- With whether the session was open. -/
def addTime (st : SessionStore) (sessionId : String) (dtSecs : Nat) : Bool × SessionStore :=
  match st.active[sessionId]? with
  | some workId =>
      (true, { st with
        perWorkSecs := st.perWorkSecs.insert workId
          (saturatingAdd (st.perWorkSecs.getD workId 0) dtSecs) })
  | none => (false, st)

/-- With whether a session was open. -/
def stop (st : SessionStore) (sessionId : String) : Bool × SessionStore :=
  (st.active[sessionId]?.isSome, { st with active := st.active.erase sessionId })

/-- One turn of the loop of `flush`: the play counts that are left, and the entries so far. -/
def flushStep (acc : BTreeMap Bytes32 Nat × List UsageEntry) (e : Bytes32 × Nat) :
    BTreeMap Bytes32 Nat × List UsageEntry :=
  let minutes := e.2 / 60
  if minutes = 0 then acc
  else (acc.1.erase e.1, acc.2 ++ [⟨e.1, minutes, acc.1.getD e.1 0⟩])

def flush (st : SessionStore) : List UsageEntry × SessionStore :=
  ((st.perWorkSecs.toList.foldl flushStep (st.perWorkPlays, [])).2,
    { st with perWorkSecs := ∅, perWorkPlays := ∅ })

/-! ## The entries of a flush -/

/-- The entry of a work, absent below a minute. -/
def entryOf (plays : BTreeMap Bytes32 Nat) (e : Bytes32 × Nat) : Option UsageEntry :=
  if e.2 / 60 = 0 then none else some ⟨e.1, e.2 / 60, plays.getD e.1 0⟩

/-- Taking a play count out does not change what later works find. -/
theorem foldl_flushStep (plays left : BTreeMap Bytes32 Nat) (done : List UsageEntry)
    (es : List (Bytes32 × Nat)) (hkeys : (es.map Prod.fst).Nodup)
    (hleft : ∀ e ∈ es, left.getD e.1 0 = plays.getD e.1 0) :
    (es.foldl flushStep (left, done)).2 = done ++ es.filterMap (entryOf plays) := by
  induction es generalizing left done with
  | nil => simp
  | cons e es ih =>
      rcases List.nodup_cons.1 hkeys with ⟨hnew, hrest⟩
      have hhead := hleft e List.mem_cons_self
      have htail : ∀ e' ∈ es, left.getD e'.1 0 = plays.getD e'.1 0 :=
        fun e' he' => hleft e' (List.mem_cons_of_mem _ he')
      rw [List.foldl_cons]
      by_cases hshort : e.2 / 60 = 0
      · have hnone : entryOf plays e = none := if_pos hshort
        have hskip : flushStep (left, done) e = (left, done) := if_pos hshort
        rw [hskip, ih left done hrest htail, List.filterMap_cons_none hnone]
      · have hsome : entryOf plays e = some ⟨e.1, e.2 / 60, plays.getD e.1 0⟩ := if_neg hshort
        have htake : flushStep (left, done) e =
            (left.erase e.1, done ++ [⟨e.1, e.2 / 60, left.getD e.1 0⟩]) := if_neg hshort
        -- No later work has the key that was taken out.
        have herased : ∀ e' ∈ es, (left.erase e.1).getD e'.1 0 = plays.getD e'.1 0 := by
          intro e' he'
          have hne : e.1 ≠ e'.1 := by
            intro heq
            exact hnew (List.mem_map.2 ⟨e', he', heq.symm⟩)
          rw [Std.ExtTreeMap.getD_erase]
          simpa [hne] using htail e' he'
        rw [htake, ih _ _ hrest herased, List.filterMap_cons_some hsome, hhead,
          List.append_assoc, List.singleton_append]

theorem flush_entries (st : SessionStore) :
    st.flush.1 = st.perWorkSecs.toList.filterMap (entryOf st.perWorkPlays) := by
  have hkeys := BTreeMap.nodup_keys st.perWorkSecs
  have h := foldl_flushStep st.perWorkPlays st.perWorkPlays [] st.perWorkSecs.toList hkeys
    (fun _ _ => rfl)
  simpa [flush] using h

theorem entryOf_eq_some {plays : BTreeMap Bytes32 Nat} {e : Bytes32 × Nat} {entry : UsageEntry} :
    entryOf plays e = some entry ↔
      60 ≤ e.2 ∧ entry = ⟨e.1, e.2 / 60, plays.getD e.1 0⟩ := by
  unfold entryOf
  split
  · simp
    omega
  · simp [eq_comm]
    omega

theorem mem_flush {st : SessionStore} {entry : UsageEntry} :
    entry ∈ st.flush.1 ↔ ∃ w secs, st.perWorkSecs[w]? = some secs ∧ 60 ≤ secs ∧
      entry = ⟨w, secs / 60, st.perWorkPlays.getD w 0⟩ := by
  rw [flush_entries, List.mem_filterMap]
  constructor
  · rintro ⟨⟨w, secs⟩, hmem, hentry⟩
    exact ⟨w, secs, BTreeMap.mem_toList.1 hmem, entryOf_eq_some.1 hentry⟩
  · rintro ⟨w, secs, hget, hentry⟩
    exact ⟨⟨w, secs⟩, BTreeMap.mem_toList.2 hget, entryOf_eq_some.2 hentry⟩

/-- The entries of a flush are for distinct works. -/
theorem nodup_flush (st : SessionStore) : (st.flush.1.map UsageEntry.workId).Nodup := by
  have hkeys : st.perWorkSecs.toList.Pairwise (fun a b => a.1 ≠ b.1) :=
    List.pairwise_map.1 (BTreeMap.nodup_keys st.perWorkSecs)
  rw [flush_entries]
  refine List.pairwise_map.2 (hkeys.filterMap _ ?_)
  intro a b hne entry ha entry' hb heq
  rw [entryOf_eq_some] at ha hb
  rw [ha.2, hb.2] at heq
  exact hne heq

end SessionStore
end Wallet
end CleanWeb
