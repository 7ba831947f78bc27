import CleanWeb.Hub.Manifest
import CleanWeb.Lib.Greatest
import CleanWeb.Lib.SecondaryIndex

/-!
# The hub's index (`services/discovery-hub/src/index.rs`)

The works by id, with a lookup table by fingerprint text and one by content id.  `Index.Exact` is
the representation invariant: each table has exactly the entries of the works, and every stored
fingerprint parses.
-/

namespace CleanWeb
namespace Hub

open Lib Lib.Exec

structure Summary where
  workId : Bytes32
  fingerprint : String
  title : String
  workType : WorkType
  tags : List String
  pricePerMin : Nat
  deriving DecidableEq, Repr

structure Resolved where
  workId : Bytes32
  pricePerMin : Nat
  region : Bytes32
  workType : WorkType
  deriving DecidableEq, Repr

inductive IndexError where
  | duplicateFingerprint (fingerprint : String)
  | duplicateContentId (contentId : Bytes32)
  | badFingerprint (e : FingerprintError)
  deriving DecidableEq, Repr

namespace IndexError

def display : IndexError → String
  | .duplicateFingerprint fingerprint =>
      "fingerprint " ++ fingerprint ++ " is already registered to another work"
  | .duplicateContentId contentId =>
      "content id " ++ Bytes32.display Hex.codec contentId ++
        " is already registered to another work"
  | .badFingerprint e => "fingerprint does not parse: " ++ e.display

end IndexError

structure Index where
  works : BTreeMap Bytes32 WorkManifest
  byFingerprint : BTreeMap String Bytes32
  byContent : BTreeMap Bytes32 Bytes32

def summaryOf (m : WorkManifest) : Summary :=
  { workId := m.workId
    fingerprint := m.fingerprint
    title := m.title
    workType := m.workType
    tags := m.tags
    pricePerMin := m.pricePerMin }

def resolvedOf (m : WorkManifest) : Resolved :=
  { workId := m.workId
    pricePerMin := m.pricePerMin
    region := m.region
    workType := m.workType }

namespace Index

def new : Index :=
  ⟨∅, ∅, ∅⟩

/-- An entry of a table points at a different work. -/
def claimedByOther (existing : Option Bytes32) (workId : Bytes32) : Bool :=
  existing.any (· != workId)

/-- The index with its stale entries for the work of `m` dropped. -/
def dropStale (idx : Index) (m : WorkManifest) : Index :=
  match idx.works[m.workId]? with
  | none => idx
  | some prev =>
      { idx with
        byFingerprint :=
          if prev.fingerprint ≠ m.fingerprint then idx.byFingerprint.erase prev.fingerprint
          else idx.byFingerprint
        byContent :=
          if prev.contentId ≠ m.contentId then idx.byContent.erase prev.contentId
          else idx.byContent }

/-- The result and the index that the call leaves behind. -/
def upsert (idx : Index) (m : WorkManifest) : Exec IndexError Unit × Index :=
  match mapErr IndexError.badFingerprint (Fingerprint.parse m.fingerprint) with
  | .error t => (.error t, idx)
  | .ok _ =>
      if claimedByOther idx.byFingerprint[m.fingerprint]? m.workId then
        (fail (.duplicateFingerprint m.fingerprint), idx)
      else if claimedByOther idx.byContent[m.contentId]? m.workId then
        (fail (.duplicateContentId m.contentId), idx)
      else
        let idx := idx.dropStale m
        (pure (),
          { works := idx.works.insert m.workId m
            byFingerprint := idx.byFingerprint.insert m.fingerprint m.workId
            byContent := idx.byContent.insert m.contentId m.workId })

def resolve (idx : Index) (fingerprint : String) : Option Resolved := do
  let workId ← idx.byFingerprint[fingerprint]?
  let m ← idx.works[workId]?
  pure (resolvedOf m)

def resolveContent (idx : Index) (contentId : Bytes32) : Option Resolved := do
  let workId ← idx.byContent[contentId]?
  let m ← idx.works[workId]?
  pure (resolvedOf m)

/-- `works.values()`, in the order of the work ids. -/
def values (idx : Index) : List WorkManifest :=
  idx.works.toList.map Prod.snd

/-- A work as a candidate for `fp`, if it scores above the threshold. -/
def candidate (fp : Fingerprint) (threshold : F64) (m : WorkManifest) : Option (Summary × Rat) :=
  match Fingerprint.parse m.fingerprint with
  | .error _ => none
  | .ok own =>
      let score := Fingerprint.similarity fp own
      if threshold.below score then some (summaryOf m, score) else none

def nearestFingerprint (idx : Index) (fp : Fingerprint) (threshold : F64) :
    Option (Summary × Rat) :=
  maxBy Prod.snd (idx.values.filterMap (candidate fp threshold))

/-! ## The representation invariant -/

structure Exact (idx : Index) : Prop where
  keyed : ∀ (w : Bytes32) (m : WorkManifest), idx.works[w]? = some m → m.workId = w
  parses : ∀ (w : Bytes32) (m : WorkManifest), idx.works[w]? = some m →
    ∃ f, Fingerprint.parse m.fingerprint = .ok f
  fingerprints : Indexes WorkManifest.fingerprint idx.works idx.byFingerprint
  contents : Indexes WorkManifest.contentId idx.works idx.byContent

theorem exact_new : Exact new := by
  refine ⟨?_, ?_, indexes_empty _, indexes_empty _⟩
  · intro w m h
    simp [new] at h
  · intro w m h
    simp [new] at h

/-- Nothing that the upsert checks stands in its way. -/
structure Admits (idx : Index) (m : WorkManifest) : Prop where
  parses : ∃ f, Fingerprint.parse m.fingerprint = .ok f
  fingerprint : ∀ w, idx.byFingerprint[m.fingerprint]? = some w → w = m.workId
  content : ∀ w, idx.byContent[m.contentId]? = some w → w = m.workId

/-- The index with `m` in it. -/
def updated (idx : Index) (m : WorkManifest) : Index :=
  { works := idx.works.insert m.workId m
    byFingerprint := reindex WorkManifest.fingerprint idx.works idx.byFingerprint m.workId m
    byContent := reindex WorkManifest.contentId idx.works idx.byContent m.workId m }

theorem claimedByOther_eq_false_iff {existing : Option Bytes32} {workId : Bytes32} :
    claimedByOther existing workId = false ↔ ∀ w, existing = some w → w = workId := by
  cases existing with
  | none =>
      simp [claimedByOther]
  | some w =>
      simp [claimedByOther]

theorem dropStale_byFingerprint (idx : Index) (m : WorkManifest) :
    (idx.dropStale m).byFingerprint.insert m.fingerprint m.workId =
      reindex WorkManifest.fingerprint idx.works idx.byFingerprint m.workId m := by
  rw [dropStale, reindex]
  cases idx.works[m.workId]? <;> rfl

theorem dropStale_byContent (idx : Index) (m : WorkManifest) :
    (idx.dropStale m).byContent.insert m.contentId m.workId =
      reindex WorkManifest.contentId idx.works idx.byContent m.workId m := by
  rw [dropStale, reindex]
  cases idx.works[m.workId]? <;> rfl

theorem dropStale_works (idx : Index) (m : WorkManifest) : (idx.dropStale m).works = idx.works := by
  rw [dropStale]
  cases idx.works[m.workId]? <;> rfl

/-- What an upsert does: it takes the manifest in, or it fails and changes nothing. -/
theorem upsert_cases (idx : Index) (m : WorkManifest) :
    (idx.Admits m ∧ idx.upsert m = (.ok (), idx.updated m)) ∨
      (¬ idx.Admits m ∧ ∃ e, idx.upsert m = (.error (.err e), idx)) := by
  unfold upsert
  cases hparse : Fingerprint.parse m.fingerprint with
  | error t =>
      have hnot : ¬ idx.Admits m := by
        intro h
        rcases h.parses with ⟨f, hf⟩
        rw [hparse] at hf
        cases hf
      cases t with
      | err e => exact Or.inr ⟨hnot, _, rfl⟩
      | panic => exact absurd hparse (Fingerprint.parse_ne_panic _)
  | ok f =>
      simp only [mapErr]
      split
      · rename_i hfingerprint
        refine Or.inr ⟨?_, _, rfl⟩
        intro h
        rw [claimedByOther_eq_false_iff.2 h.fingerprint] at hfingerprint
        cases hfingerprint
      rename_i hfingerprint
      split
      · rename_i hcontent
        refine Or.inr ⟨?_, _, rfl⟩
        intro h
        rw [claimedByOther_eq_false_iff.2 h.content] at hcontent
        cases hcontent
      rename_i hcontent
      refine Or.inl ⟨⟨⟨f, hparse⟩, ?_, ?_⟩, ?_⟩
      · exact claimedByOther_eq_false_iff.1 (eq_false_of_ne_true hfingerprint)
      · exact claimedByOther_eq_false_iff.1 (eq_false_of_ne_true hcontent)
      · rw [updated, dropStale_works, dropStale_byFingerprint, dropStale_byContent]
        rfl

theorem works_updated (idx : Index) (m : WorkManifest) (w : Bytes32) :
    (idx.updated m).works[w]? = if m.workId = w then some m else idx.works[w]? := by
  split
  · rename_i hw
    subst hw
    exact Std.ExtTreeMap.getElem?_insert_self
  · rename_i hw
    exact getElem?_insert_of_ne idx.works m hw

theorem Exact.updated {idx : Index} (h : idx.Exact) {m : WorkManifest} (hm : idx.Admits m) :
    (idx.updated m).Exact := by
  refine ⟨?_, ?_, h.fingerprints.insert hm.fingerprint, h.contents.insert hm.content⟩
  · intro w m' hw
    by_cases hsame : m.workId = w
    · subst hsame
      rw [Index.updated, Std.ExtTreeMap.getElem?_insert_self] at hw
      rw [← Option.some.inj hw]
    · rw [Index.updated, getElem?_insert_of_ne _ _ hsame] at hw
      exact h.keyed w m' hw
  · intro w m' hw
    by_cases hsame : m.workId = w
    · subst hsame
      rw [Index.updated, Std.ExtTreeMap.getElem?_insert_self] at hw
      rw [← Option.some.inj hw]
      exact hm.parses
    · rw [Index.updated, getElem?_insert_of_ne _ _ hsame] at hw
      exact h.parses w m' hw

theorem exact_upsert {idx : Index} (h : idx.Exact) (m : WorkManifest) : (idx.upsert m).2.Exact := by
  rcases upsert_cases idx m with ⟨hm, heq⟩ | ⟨-, e, heq⟩
  · rw [heq]
    exact h.updated hm
  · rw [heq]
    exact h

/-! ## Runs -/

/-- The index after a list of upserts, refused ones included. -/
def upserts (ms : List WorkManifest) : Index :=
  ms.foldl (fun idx m => (idx.upsert m).2) new

theorem upserts_append_singleton (ms : List WorkManifest) (m : WorkManifest) :
    upserts (ms ++ [m]) = ((upserts ms).upsert m).2 := by
  simp [upserts]

theorem exact_upserts (ms : List WorkManifest) : (upserts ms).Exact := by
  induction ms using List.reverseRecOn with
  | nil =>
      exact exact_new
  | append_singleton ms m ih =>
      rw [upserts_append_singleton]
      exact exact_upsert ih m

/-- A content id resolves to the work that has it now. -/
theorem resolveContent_eq_some {idx : Index} (h : idx.Exact) {contentId : Bytes32} {r : Resolved}
    (hr : idx.resolveContent contentId = some r) :
    ∃ m, idx.works[r.workId]? = some m ∧ m.contentId = contentId ∧ r = resolvedOf m := by
  unfold resolveContent at hr
  simp only [Option.bind_eq_bind, Option.bind_eq_some_iff] at hr
  rcases hr with ⟨w, hw, m, hm, hresolved⟩
  have hdone : resolvedOf m = r := Option.some.inj hresolved
  have hkey : r.workId = w := by
    rw [← hdone]
    exact h.keyed w m hm
  rcases (h.contents contentId w).1 hw with ⟨m', hm', hcontent⟩
  rw [hm] at hm'
  rw [hkey]
  exact ⟨m, hm, Option.some.inj hm' ▸ hcontent, hdone.symm⟩

end Index
end Hub
end CleanWeb
