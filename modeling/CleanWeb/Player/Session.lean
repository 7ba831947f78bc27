import CleanWeb.Wallet.Usage

/-!
# The player's session (`clients/player-plugin/src/session.rs`)

The agent keeps its state in a JSON file between commands.  A save writes a sibling file and renames
it over the state; either of the two steps may fail, and a write may fail half way.  `Holds` says
which plays a session accounts for.
-/

namespace CleanWeb
namespace Player

open Lib Lib.Exec Wallet

/-! ## Files -/

/-- What a file of a given format holds. -/
inductive File (α : Type) where
  | absent
  | damaged
  | holds (content : α)

inductive WriteOutcome where
  | written
  | refused
  | torn
  deriving DecidableEq, Repr

/-- The file after a write. -/
def File.write {α : Type} (file : File α) (content : α) : WriteOutcome → File α
  | .written => .holds content
  | .refused => file
  | .torn => .damaged

/-! ## Sessions -/

/-- The persisted state. -/
structure PlayerState where
  session : SessionStore
  escrowWorks : BTreeSet Bytes32

/-- The accrual store and the works recognised only by fingerprint. -/
structure Session where
  store : SessionStore
  escrowWorks : BTreeSet Bytes32

inductive SessionError where
  | io
  | parse
  deriving DecidableEq, Repr

/-- The state file and the sibling that a save writes first. -/
structure StateFiles where
  state : File PlayerState
  tmp : File PlayerState

structure SaveOutcome where
  write : WriteOutcome
  renamed : Bool
  deriving DecidableEq, Repr

namespace Session

/-- `readable` is whether an existing file can be read. -/
def load (files : StateFiles) (readable : Bool) (nowSecs : Nat) : Exec SessionError Session :=
  match files.state with
  | .absent => .ok ⟨SessionStore.new nowSecs, ∅⟩
  | .damaged => if readable then fail .parse else fail .io
  | .holds st => if readable then .ok ⟨st.session, st.escrowWorks⟩ else fail .io

/-- With the files it leaves. -/
def save (s : Session) (files : StateFiles) (o : SaveOutcome) :
    Exec SessionError Unit × StateFiles :=
  let state : PlayerState := ⟨s.store, s.escrowWorks⟩
  let tmp := files.tmp.write state o.write
  match o.write with
  | .written =>
      if o.renamed then (.ok (), ⟨.holds state, .absent⟩) else (fail .io, { files with tmp := tmp })
  | _ => (fail .io, { files with tmp := tmp })

/-- `format!("play:{work_id}")`. -/
def playId (hex : HexCodec) (workId : Bytes32) : String :=
  "play:" ++ Bytes32.display hex workId

def accrue (hex : HexCodec) (s : Session) (workId : Bytes32) (secs : Nat) (fingerprint : Bool) :
    Session :=
  let sid := playId hex workId
  let store := (((s.store.start sid workId).addTime sid secs).2.stop sid).2
  { store := store
    escrowWorks := if fingerprint then s.escrowWorks.insert workId else s.escrowWorks }

def flushUsage (s : Session) : List UsageEntry × Session :=
  (s.store.flush.1, { s with store := s.store.flush.2 })

def takeEscrowWorks (s : Session) : List Bytes32 × Session :=
  (s.escrowWorks.toList, { s with escrowWorks := ∅ })

end Session

/-! ## What a session accounts for -/

/-- One playback, as it was recognised. -/
structure Play where
  workId : Bytes32
  secs : Nat
  fingerprint : Bool
  deriving DecidableEq, Repr

/-- The calls of the store that record the plays, with no session left open. -/
def playedOf (plays : List Play) : Played :=
  ⟨fun _ => none, plays.map fun p => (p.workId, p.secs), plays.map Play.workId⟩

/-- The seconds of a work, up to the maximum. -/
def secondsOf (plays : List Play) (workId : Bytes32) : Nat :=
  (playedOf plays).secondsOf workId

/-- How often a work was played, up to the maximum. -/
def playsOf (plays : List Play) (workId : Bytes32) : Nat :=
  min (plays.countP fun p => p.workId = workId) u64Max

/-- Some play of the work was recognised only by fingerprint. -/
def HeardUnsigned (plays : List Play) (workId : Bytes32) : Prop :=
  ∃ p ∈ plays, p.workId = workId ∧ p.fingerprint = true

structure Holds (s : Session) (plays : List Play) : Prop where
  tracks : Tracks s.store (playedOf plays)
  escrow : ∀ w, w ∈ s.escrowWorks ↔ HeardUnsigned plays w

theorem playedOf_append_singleton (sid : String) (plays : List Play) (p : Play) :
    (((playedOf plays).next (.start sid p.workId)).next (.addTime sid p.secs)).next (.stop sid) =
      playedOf (plays ++ [p]) := by
  have hclosed : Function.update (Function.update (fun _ => none) sid (some p.workId)) sid none =
      fun _ : String => (none : Option Bytes32) := by
    funext other
    by_cases h : other = sid
    · simp [h]
    · simp [h]
  simp [playedOf, Played.next, hclosed]

theorem holds_fresh (nowSecs : Nat) : Holds ⟨SessionStore.new nowSecs, ∅⟩ [] := by
  refine ⟨Tracks.new nowSecs, ?_⟩
  intro w
  simp [HeardUnsigned]

theorem Holds.accrue {s : Session} {plays : List Play} (h : Holds s plays) (hex : HexCodec)
    (p : Play) : Holds (s.accrue hex p.workId p.secs p.fingerprint) (plays ++ [p]) := by
  refine ⟨?_, ?_⟩
  · have hstore := ((h.tracks.start (Session.playId hex p.workId) p.workId).addTime
      (Session.playId hex p.workId) p.secs).stop (Session.playId hex p.workId)
    rw [playedOf_append_singleton] at hstore
    exact hstore
  · intro w
    have hold := h.escrow w
    unfold Session.accrue HeardUnsigned at *
    cases hfp : p.fingerprint with
    | false => simp [hold, hfp]
    | true => simp [hold, hfp, or_comm]

/-- A settlement takes everything out of the session. -/
theorem Holds.drained {s : Session} {plays : List Play} (h : Holds s plays) :
    Holds s.flushUsage.2.takeEscrowWorks.2 [] := by
  refine ⟨?_, ?_⟩
  · exact h.tracks.flush
  · intro w
    simp [Session.takeEscrowWorks, HeardUnsigned]

/-! ## The usage of a session -/

theorem playsOf_eq {s : Session} {plays : List Play} (h : Holds s plays) (w : Bytes32) :
    s.store.perWorkPlays.getD w 0 = playsOf plays w := by
  have hcount : amountAt w ((plays.map Play.workId).map (·, 1)) =
      plays.countP fun p => p.workId = w := by
    rw [amountAt, List.filter_map, List.filter_map, List.map_map, List.map_map,
      List.countP_eq_length_filter]
    simp [Function.comp_def]
  rw [h.tracks.plays.amount, playsOf]
  exact congrArg (min · u64Max) hcount

/-- The entries that a flush returns, in terms of the plays. -/
theorem Holds.mem_flushUsage {s : Session} {plays : List Play} (h : Holds s plays)
    {e : UsageEntry} : e ∈ s.flushUsage.1 ↔ 60 ≤ secondsOf plays e.workId ∧
      e.minutes = secondsOf plays e.workId / 60 ∧ e.plays = playsOf plays e.workId := by
  rw [← playsOf_eq h]
  exact h.tracks.mem_flush

end Player
end CleanWeb
