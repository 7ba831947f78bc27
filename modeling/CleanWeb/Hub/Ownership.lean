import CleanWeb.Hub.Index

/-!
# Who has a fingerprint or a content id

After any upserts the two tables of the index are exactly those of its works, so both lookups give
the one work that has the key now, and a key that a work gave up can be taken by another.
-/

namespace CleanWeb
namespace Hub

open Lib Lib.Exec

namespace Index

theorem resolve_eq (idx : Index) (fingerprint : String) :
    idx.resolve fingerprint =
      (Indexes.lookup idx.works idx.byFingerprint fingerprint).map resolvedOf := by
  unfold resolve Indexes.lookup
  cases idx.byFingerprint[fingerprint]? with
  | none => rfl
  | some w =>
      change (idx.works[w]?.bind fun m => some (resolvedOf m)) = idx.works[w]?.map resolvedOf
      cases idx.works[w]? <;> rfl

theorem resolveContent_eq (idx : Index) (contentId : Bytes32) :
    idx.resolveContent contentId =
      (Indexes.lookup idx.works idx.byContent contentId).map resolvedOf := by
  unfold resolveContent Indexes.lookup
  cases idx.byContent[contentId]? with
  | none => rfl
  | some w =>
      change (idx.works[w]?.bind fun m => some (resolvedOf m)) = idx.works[w]?.map resolvedOf
      cases idx.works[w]? <;> rfl

/-- A lookup gives what is asked of a work from the one that has the key. -/
theorem lookup_resolved {F : Type} [Ord F] {field : WorkManifest → F}
    {works : BTreeMap Bytes32 WorkManifest} [Std.TransOrd F] {table : BTreeMap F Bytes32}
    (h : Indexes field works table) (key : F) (r : Resolved) :
    (Indexes.lookup works table key).map resolvedOf = some r ↔
      ∃ (w : Bytes32) (m : WorkManifest),
        works[w]? = some m ∧ field m = key ∧ r = resolvedOf m := by
  rw [Option.map_eq_some_iff]
  constructor
  · rintro ⟨m, hm, rfl⟩
    rcases h.lookup_eq_some_iff.1 hm with ⟨w, hw, hfield⟩
    exact ⟨w, m, hw, hfield, rfl⟩
  · rintro ⟨w, m, hw, hfield, rfl⟩
    exact ⟨m, h.lookup_eq_some_iff.2 ⟨w, hw, hfield⟩, rfl⟩

/-! ## The tables and the lookups -/

/-- Each work is under its id, the tables are those of the works, no two works share a key, and the
lookups say so. -/
structure Consistent (idx : Index) : Prop where
  keyed : ∀ (w : Bytes32) (m : WorkManifest), idx.works[w]? = some m → m.workId = w
  byFingerprint : ∀ (f : String) (w : Bytes32), idx.byFingerprint[f]? = some w ↔
    ∃ m : WorkManifest, idx.works[w]? = some m ∧ m.fingerprint = f
  byContent : ∀ c w : Bytes32, idx.byContent[c]? = some w ↔
    ∃ m : WorkManifest, idx.works[w]? = some m ∧ m.contentId = c
  fingerprint_unique : ∀ (w w' : Bytes32) (m m' : WorkManifest), idx.works[w]? = some m →
    idx.works[w']? = some m' → m.fingerprint = m'.fingerprint → w = w'
  contentId_unique : ∀ (w w' : Bytes32) (m m' : WorkManifest), idx.works[w]? = some m →
    idx.works[w']? = some m' → m.contentId = m'.contentId → w = w'
  resolve_some : ∀ (f : String) (r : Resolved), idx.resolve f = some r ↔
    ∃ (w : Bytes32) (m : WorkManifest), idx.works[w]? = some m ∧ m.fingerprint = f ∧
      r = resolvedOf m
  resolve_none : ∀ f : String, idx.resolve f = none ↔
    ∀ (w : Bytes32) (m : WorkManifest), idx.works[w]? = some m → m.fingerprint ≠ f
  resolveContent_some : ∀ (c : Bytes32) (r : Resolved), idx.resolveContent c = some r ↔
    ∃ (w : Bytes32) (m : WorkManifest), idx.works[w]? = some m ∧ m.contentId = c ∧ r = resolvedOf m
  resolveContent_none : ∀ c : Bytes32, idx.resolveContent c = none ↔
    ∀ (w : Bytes32) (m : WorkManifest), idx.works[w]? = some m → m.contentId ≠ c

theorem Exact.consistent {idx : Index} (h : idx.Exact) : Consistent idx where
  keyed := h.keyed
  byFingerprint := h.fingerprints
  byContent := h.contents
  fingerprint_unique _ _ _ _ hw hw' hfield := h.fingerprints.unique hw hw' hfield
  contentId_unique _ _ _ _ hw hw' hfield := h.contents.unique hw hw' hfield
  resolve_some f r := by
    rw [resolve_eq]
    exact lookup_resolved h.fingerprints f r
  resolve_none f := by
    rw [resolve_eq, Option.map_eq_none_iff]
    exact h.fingerprints.lookup_eq_none_iff
  resolveContent_some c r := by
    rw [resolveContent_eq]
    exact lookup_resolved h.contents c r
  resolveContent_none c := by
    rw [resolveContent_eq, Option.map_eq_none_iff]
    exact h.contents.lookup_eq_none_iff

/-! ## What can be claimed -/

/-- No work but its own has the key that `field` reads off `m`. -/
def Free {F : Type} (field : WorkManifest → F) (idx : Index) (m : WorkManifest) : Prop :=
  ∀ (w : Bytes32) (m' : WorkManifest), idx.works[w]? = some m' → w ≠ m.workId → field m' ≠ field m

theorem Exact.admits_iff {idx : Index} (h : idx.Exact) (m : WorkManifest) :
    idx.Admits m ↔ (∃ f, Fingerprint.parse m.fingerprint = .ok f) ∧
      Free WorkManifest.fingerprint idx m ∧ Free WorkManifest.contentId idx m := by
  constructor
  · intro hm
    exact ⟨hm.parses, h.fingerprints.free_iff.1 hm.fingerprint, h.contents.free_iff.1 hm.content⟩
  · rintro ⟨hparses, hfingerprint, hcontent⟩
    exact ⟨hparses, h.fingerprints.free_iff.2 hfingerprint, h.contents.free_iff.2 hcontent⟩

theorem upsert_of_ok {idx : Index} {m : WorkManifest} (hok : (idx.upsert m).1 = .ok ()) :
    idx.Admits m ∧ (idx.upsert m).2 = idx.updated m := by
  rcases upsert_cases idx m with ⟨hm, heq⟩ | ⟨-, e, heq⟩
  · rw [heq]
    exact ⟨hm, rfl⟩
  · rw [heq] at hok
    cases hok

theorem upsert_of_admits {idx : Index} {m : WorkManifest} (hm : idx.Admits m) :
    idx.upsert m = (.ok (), idx.updated m) := by
  rcases upsert_cases idx m with ⟨-, heq⟩ | ⟨hnot, -⟩
  · exact heq
  · exact absurd hm hnot

/-- What an upsert is refused for, and what it leaves. -/
structure Guarded (idx : Index) : Prop where
  accepts : ∀ m, (idx.upsert m).1 = .ok () ↔ (∃ f, Fingerprint.parse m.fingerprint = .ok f) ∧
    Free WorkManifest.fingerprint idx m ∧ Free WorkManifest.contentId idx m
  stores : ∀ (m : WorkManifest) (w : Bytes32), (idx.upsert m).1 = .ok () →
    (idx.upsert m).2.works[w]? = if m.workId = w then some m else idx.works[w]?
  refused : ∀ m t, (idx.upsert m).1 = .error t → (idx.upsert m).2 = idx

theorem Exact.guarded {idx : Index} (h : idx.Exact) : Guarded idx := by
  refine ⟨?_, ?_, ?_⟩
  · intro m
    rw [← h.admits_iff]
    constructor
    · exact fun hok => (upsert_of_ok hok).1
    · intro hm
      rw [upsert_of_admits hm]
  · intro m w hok
    rw [(upsert_of_ok hok).2]
    exact works_updated idx m w
  · intro m t herr
    rcases upsert_cases idx m with ⟨-, heq⟩ | ⟨-, e, heq⟩
    · rw [heq] at herr
      cases herr
    · rw [heq]

/-- When the work of `m` gives up a key, any work that is otherwise in order can take it. -/
structure Reclaimable (idx : Index) (m prev : WorkManifest) : Prop where
  fingerprint : ∀ other : WorkManifest, prev.fingerprint ≠ m.fingerprint →
    other.fingerprint = prev.fingerprint → Free WorkManifest.contentId (idx.upsert m).2 other →
      ((idx.upsert m).2.upsert other).1 = .ok () ∧
        ((idx.upsert m).2.upsert other).2.resolve prev.fingerprint = some (resolvedOf other)
  contentId : ∀ other : WorkManifest, prev.contentId ≠ m.contentId →
    other.contentId = prev.contentId → (∃ f, Fingerprint.parse other.fingerprint = .ok f) →
      Free WorkManifest.fingerprint (idx.upsert m).2 other →
        ((idx.upsert m).2.upsert other).1 = .ok () ∧
          ((idx.upsert m).2.upsert other).2.resolveContent prev.contentId =
            some (resolvedOf other)

theorem Exact.reclaimable {idx : Index} (h : idx.Exact) {m prev : WorkManifest}
    (hprev : idx.works[m.workId]? = some prev) (hok : (idx.upsert m).1 = .ok ()) :
    Reclaimable idx m prev := by
  rcases upsert_of_ok hok with ⟨hm, hnext⟩
  have hnew : (idx.upsert m).2.Exact := exact_upsert h m
  have hstored : ∀ other : WorkManifest, (((idx.upsert m).2.updated other).works)[other.workId]? =
      some other := by
    intro other
    rw [works_updated, if_pos rfl]
  refine ⟨?_, ?_⟩
  · intro other hchanged hkey hfree
    have hparses : ∃ f, Fingerprint.parse other.fingerprint = .ok f := by
      rw [hkey]
      exact h.parses _ prev hprev
    have hreleased : Free WorkManifest.fingerprint (idx.upsert m).2 other := by
      intro w m' hw _
      rw [hnext] at hw
      rw [hkey]
      exact h.fingerprints.released hprev hchanged hw
    have hadmits := (hnew.admits_iff other).2 ⟨hparses, hreleased, hfree⟩
    rw [upsert_of_admits hadmits]
    exact ⟨rfl, ((hnew.updated hadmits).consistent.resolve_some _ _).2
      ⟨other.workId, other, hstored other, hkey, rfl⟩⟩
  · intro other hchanged hkey hparses hfree
    have hreleased : Free WorkManifest.contentId (idx.upsert m).2 other := by
      intro w m' hw _
      rw [hnext] at hw
      rw [hkey]
      exact h.contents.released hprev hchanged hw
    have hadmits := (hnew.admits_iff other).2 ⟨hparses, hfree, hreleased⟩
    rw [upsert_of_admits hadmits]
    exact ⟨rfl, ((hnew.updated hadmits).consistent.resolveContent_some _ _).2
      ⟨other.workId, other, hstored other, hkey, rfl⟩⟩

/-- In every index reached by upserts, refused ones included: the tables and lookups are those of
the works, an upsert is refused only for a key that another work has now and then changes nothing,
and a key that was given up can be taken. -/
theorem upserts_consistent (ms : List WorkManifest) :
    Consistent (upserts ms) ∧ Guarded (upserts ms) ∧
      ∀ m prev : WorkManifest, (upserts ms).works[m.workId]? = some prev →
        ((upserts ms).upsert m).1 = .ok () → Reclaimable (upserts ms) m prev :=
  ⟨(exact_upserts ms).consistent, (exact_upserts ms).guarded,
    fun _ _ hprev hok => (exact_upserts ms).reclaimable hprev hok⟩

end Index
end Hub
end CleanWeb
