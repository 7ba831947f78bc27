import CleanWeb.Hub.Anchored

/-!
# Whether an ingest is all or nothing

The handler inserts into the index in memory and then writes the snapshot.  When the write fails it
answers 500 and the index keeps the manifest: `atomic_iff` says for which requests the answer still
tells what happened.
-/

namespace CleanWeb
namespace Hub

open Lib

/-- The manifest is stored as it is, and both its keys point at it. -/
structure Index.Has (idx : Index) (m : WorkManifest) : Prop where
  work : idx.works[m.workId]? = some m
  fingerprint : idx.byFingerprint[m.fingerprint]? = some m.workId
  content : idx.byContent[m.contentId]? = some m.workId

theorem Index.updated_eq_self_iff {idx : Index} {m : WorkManifest} :
    idx.updated m = idx ↔ idx.Has m := by
  constructor
  · intro hsame
    refine ⟨?_, ?_, ?_⟩
    · rw [← hsame, works_updated, if_pos rfl]
    · rw [← hsame]
      exact Std.ExtTreeMap.getElem?_insert_self
    · rw [← hsame]
      exact Std.ExtTreeMap.getElem?_insert_self
  · intro h
    rw [updated, insert_eq_self h.work, reindex_eq_self h.work h.fingerprint,
      reindex_eq_self h.work h.content]

namespace State

/-- After 201 the index and the snapshot have the manifest; after any other answer both are as they
were. -/
def Atomic (signing : Signing) (s : State) (r : Request) : Prop :=
  match s.ingest signing r with
  | (.created _, s') => s'.index.works[r.stored.workId]? = some r.stored ∧
      ∃ idx : Index, s'.snapshot = .holds idx ∧ idx.works[r.stored.workId]? = some r.stored
  | (_, s') => s' = s

/-- A request that is refused leaves everything as it was. -/
theorem atomic_of_refused {signing : Signing} {s : State} {r : Request}
    (hsame : (s.ingest signing r).2 = s)
    (hrefused : ∀ workId, (s.ingest signing r).1 ≠ .created workId) : Atomic signing s r := by
  unfold Atomic
  split
  · rename_i workId s' heq
    rw [heq] at hrefused
    exact absurd rfl (hrefused workId)
  · rename_i response s' _ heq
    rw [heq] at hsame
    exact hsame

/-- A request that is taken in is answered truly when the snapshot is written, or when there was
nothing to write and the old one is still there. -/
theorem atomic_taken_iff {signing : Signing} {s : State} {r : Request}
    (h : s.ingest signing r = s.taken r) :
    Atomic signing s r ↔ r.save = .written ∨
      s.index.updated r.stored = s.index ∧ ∃ message, r.save = .failed message s.snapshot := by
  have hstored : (s.index.updated r.stored).works[r.stored.workId]? = some r.stored := by
    rw [Index.works_updated, if_pos rfl]
  unfold Atomic
  rw [h]
  unfold taken
  cases hsave : r.save with
  | written =>
      constructor
      · exact fun _ => Or.inl rfl
      · exact fun _ => ⟨hstored, _, rfl, hstored⟩
  | failed message left =>
      dsimp only
      constructor
      · intro hsame
        have hindex := congrArg State.index hsame
        have hsnapshot := congrArg State.snapshot hsame
        dsimp only at hindex hsnapshot
        exact Or.inr ⟨hindex, message, by rw [hsnapshot]⟩
      · rintro (hwritten | ⟨hindex, message', hleft⟩)
        · cases hwritten
        · injection hleft with _ hleft
          rw [hindex, hleft]

/-- Ingest is all or nothing exactly for the requests that are refused before the insertion, those
whose snapshot is written, and those whose manifest the index has and whose failed write left the
old snapshot in place. -/
theorem atomic_iff (signing : Signing) (s : State) (r : Request) :
    Atomic signing s r ↔ ¬ Passes signing s r ∨ r.save = .written ∨
      s.index.Has r.stored ∧ ∃ message, r.save = .failed message s.snapshot := by
  rw [← Index.updated_eq_self_iff]
  rcases ingest_eq signing s r with ⟨hpasses, heq⟩ | ⟨hnot, hsame, hrefused⟩
  · rw [atomic_taken_iff heq]
    constructor
    · exact Or.inr
    · exact fun h => h.resolve_left (not_not.2 hpasses)
  · exact iff_of_true (atomic_of_refused hsame hrefused) (Or.inl hnot)

/-- The request of work 1, on a disk that refuses the write. -/
def sampleUnsaved : Request :=
  { sampleRequest with save := .failed "Permission denied (os error 13)" .absent }

/-- The hub answers 500 and serves the manifest from then on. -/
theorem sampleUnsaved_not_atomic : ¬ Atomic sampleSigning init sampleUnsaved := by
  have hpasses : Passes sampleSigning init sampleUnsaved := by
    have h := sampleRequest_passes
    exact ⟨h.up, h.registered, h.signature, h.agrees, h.price, h.rate, h.admits⟩
  rcases ingest_eq sampleSigning init sampleUnsaved with ⟨-, heq⟩ | ⟨hnot, -⟩
  · rw [atomic_taken_iff heq]
    rintro (hwritten | ⟨hindex, -⟩)
    · cases hwritten
    · -- The new index has the work, the empty one has not.
      have hwork : (init.index.updated sampleUnsaved.stored).works[sampleUnsaved.stored.workId]? =
          some sampleUnsaved.stored := by
        rw [Index.works_updated, if_pos rfl]
      rw [hindex] at hwork
      simp [init, Index.new] at hwork
  · exact absurd hpasses hnot

end State
end Hub
end CleanWeb
