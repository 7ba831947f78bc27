import CleanWeb.Hub.Chain
import CleanWeb.Hub.Index

/-!
# Ingest (`services/discovery-hub/src/api.rs`)

The handler of `POST /manifests` on the hub's state: the index in memory and the snapshot on disk.
A request comes with what the outside answers while it is served: the chain, the clock, and the
writing of the snapshot.
-/

namespace CleanWeb
namespace Hub

open Lib Lib.Exec

/-- The snapshot file. -/
inductive Snapshot where
  | absent
  | holds (idx : Index)
  | damaged

/-- What `save_snapshot` does: it writes the index, or fails and leaves something behind. -/
inductive SaveOutcome where
  | written
  | failed (message : String) (left : Snapshot)

structure State where
  index : Index
  snapshot : Snapshot

structure IngestBody where
  manifest : WorkManifest
  signature : String
  deriving DecidableEq, Repr

/-- A request and its surroundings. -/
structure Request where
  body : IngestBody
  chain : DiscoveryChain
  nowSecs : Nat
  save : SaveOutcome

inductive Response where
  | created (workId : Bytes32)
  | badRequest (message : String)
  | conflict (message : String)
  | internalServerError (message : String)
  deriving DecidableEq, Repr

/-- `trim_start_matches("0x")` drops every leading `0x`. -/
def trimHexPrefixes : List Char → List Char
  | '0' :: 'x' :: rest => trimHexPrefixes rest
  | cs => cs

namespace Request

def signatureBytes (r : Request) : Option (List UInt8) :=
  Hex.codec.decode (String.ofList (trimHexPrefixes r.body.signature.toList))

/-- The manifest as it is stored, with its time clamped to the server's clock. -/
def stored (r : Request) : WorkManifest :=
  { r.body.manifest with createdAt := min r.body.manifest.createdAt r.nowSecs }

end Request

namespace State

def init : State :=
  ⟨Index.new, .absent⟩

/-- Status 400 for a malformed fingerprint, 409 for the other refusals of the index. -/
def refusal (e : IndexError) : Response :=
  match e with
  | .badFingerprint _ => .badRequest e.display
  | _ => .conflict e.display

/-- `ingest`, with the state it leaves; the handler has no step that panics. -/
def ingest (signing : Signing) (s : State) (r : Request) : Response × State :=
  match r.signatureBytes with
  | none => (.badRequest "bad signature hex", s)
  | some sig =>
      match validateIngest signing r.body.manifest sig r.chain.lookup with
      | .error (.err e) => (.badRequest e.display, s)
      | .error .panic => (.internalServerError "", s)
      | .ok () =>
          match s.index.upsert r.stored with
          | (.error (.err e), idx) => (refusal e, { s with index := idx })
          | (.error .panic, idx) => (.internalServerError "", { s with index := idx })
          | (.ok (), idx) =>
              match r.save with
              | .written => (.created r.stored.workId, ⟨idx, .holds idx⟩)
              | .failed message left => (.internalServerError message, ⟨idx, left⟩)

/-- The state after a list of requests. -/
def run (signing : Signing) (rs : List Request) : State :=
  rs.foldl (fun s r => (s.ingest signing r).2) init

variable {signing : Signing}

theorem run_append_singleton (rs : List Request) (r : Request) :
    run signing (rs ++ [r]) = ((run signing rs).ingest signing r).2 := by
  simp [run]

/-! ## When a request is taken in -/

/-- The request passes everything that is checked: its signature is the registrant's, the
registered work agrees with the manifest in the fields that are compared, and the index has no
other work in its way. -/
structure Passes (signing : Signing) (s : State) (r : Request) : Prop where
  up : r.chain.Up
  registered : r.chain.registry.isRegistered r.body.manifest.workId = true
  signature : ∃ sig, r.signatureBytes = some sig ∧
    r.body.manifest.recoverSigner signing sig =
      .ok (r.chain.registry.works r.body.manifest.workId).registrant
  agrees : Agrees r.body.manifest (DiscoveryChain.facts r.chain.registry r.body.manifest.workId)
  price : r.body.manifest.pricePerMin < 2 ^ 64
  rate : r.body.manifest.bandwidthRate < 2 ^ 64
  admits : s.index.Admits r.stored

theorem validateIngest_of_passes {s : State} {r : Request} (h : Passes signing s r) :
    ∃ sig, r.signatureBytes = some sig ∧
      validateIngest signing r.body.manifest sig r.chain.lookup = .ok () := by
  rcases h.signature with ⟨sig, hsig, hsigner⟩
  refine ⟨sig, hsig, validateIngest_eq_ok_iff.2 ⟨_, ?_, hsigner, h.agrees⟩⟩
  refine DiscoveryChain.lookup_eq_some_iff.2 ⟨h.up, h.registered, rfl, ?_, ?_⟩
  · rw [← h.agrees.pricePerMin]
    exact h.price
  · rw [← h.agrees.bandwidthRate]
    exact h.rate

theorem passes_of_validateIngest {s : State} {r : Request} {sig : List UInt8}
    (hsig : r.signatureBytes = some sig)
    (h : validateIngest signing r.body.manifest sig r.chain.lookup = .ok ())
    (hadmits : s.index.Admits r.stored) : Passes signing s r := by
  rcases validateIngest_eq_ok_iff.1 h with ⟨work, hwork, hsigner, hagrees⟩
  rcases DiscoveryChain.lookup_eq_some_iff.1 hwork with ⟨hup, hregistered, rfl, hprice, hrate⟩
  refine ⟨hup, hregistered, ⟨sig, hsig, hsigner⟩, hagrees, ?_, ?_, hadmits⟩
  · rw [hagrees.pricePerMin]
    exact hprice
  · rw [hagrees.bandwidthRate]
    exact hrate

/-- The answer to a request that passes, and the state it leaves: the index takes the manifest in,
whatever becomes of the snapshot. -/
def taken (s : State) (r : Request) : Response × State :=
  match r.save with
  | .written =>
      (.created r.stored.workId, ⟨s.index.updated r.stored, .holds (s.index.updated r.stored)⟩)
  | .failed message left => (.internalServerError message, ⟨s.index.updated r.stored, left⟩)

/-- A request that passes is taken in, any other is refused and changes nothing. -/
theorem ingest_eq (signing : Signing) (s : State) (r : Request) :
    (Passes signing s r ∧ s.ingest signing r = s.taken r) ∨
      (¬ Passes signing s r ∧ (s.ingest signing r).2 = s ∧
        ∀ workId, (s.ingest signing r).1 ≠ .created workId) := by
  unfold ingest
  cases hsig : r.signatureBytes with
  | none =>
      refine Or.inr ⟨?_, rfl, by simp⟩
      intro h
      rcases h.signature with ⟨sig, hsome, -⟩
      rw [hsig] at hsome
      cases hsome
  | some sig =>
      dsimp only
      cases hvalid : validateIngest signing r.body.manifest sig r.chain.lookup with
      | error t =>
          refine Or.inr ⟨?_, by cases t <;> rfl, by cases t <;> simp⟩
          intro h
          rcases validateIngest_of_passes h with ⟨sig', hsome, hok⟩
          rw [hsig] at hsome
          cases hsome
          rw [hvalid] at hok
          cases hok
      | ok _ =>
          dsimp only
          rcases Index.upsert_cases s.index r.stored with ⟨hadmits, heq⟩ | ⟨hnot, e, heq⟩
          · rw [heq]
            refine Or.inl ⟨passes_of_validateIngest hsig hvalid hadmits, ?_⟩
            rw [taken]
          · rw [heq]
            refine Or.inr ⟨fun h => hnot h.admits, rfl, ?_⟩
            intro workId
            dsimp only [refusal]
            cases e <;> simp

/-- What a request does to the index: a request that passes is stored, any other changes nothing. -/
theorem ingest_cases (signing : Signing) (s : State) (r : Request) :
    (Passes signing s r ∧ (s.ingest signing r).2.index = s.index.updated r.stored) ∨
      (¬ Passes signing s r ∧ (s.ingest signing r).2 = s) := by
  rcases ingest_eq signing s r with ⟨hpasses, heq⟩ | ⟨hnot, hsame, -⟩
  · refine Or.inl ⟨hpasses, ?_⟩
    rw [heq, taken]
    cases r.save <;> rfl
  · exact Or.inr ⟨hnot, hsame⟩

theorem exact_run (rs : List Request) : (run signing rs).index.Exact := by
  induction rs using List.reverseRecOn with
  | nil =>
      exact Index.exact_new
  | append_singleton rs r ih =>
      rw [run_append_singleton]
      rcases ingest_cases signing (run signing rs) r with ⟨hpasses, hindex⟩ | ⟨-, hsame⟩
      · rw [hindex]
        exact ih.updated hpasses.admits
      · rw [hsame]
        exact ih

/-! ## Where an indexed manifest comes from -/

/-- The request `r`, made after `before`, is taken in as part of the run `rs`. -/
def TakenIn (signing : Signing) (rs before : List Request) (r : Request) : Prop :=
  before ++ [r] <+: rs ∧ Passes signing (run signing before) r

/-- Every indexed manifest was stored by a request that was taken in. -/
theorem origin (rs : List Request) {w : Bytes32} {m : WorkManifest}
    (hw : (run signing rs).index.works[w]? = some m) :
    ∃ before r, TakenIn signing rs before r ∧ r.stored = m := by
  induction rs using List.reverseRecOn generalizing w m with
  | nil =>
      simp [run, init, Index.new] at hw
  | append_singleton rs r ih =>
      have hearlier : (run signing rs).index.works[w]? = some m →
          ∃ before r', TakenIn signing (rs ++ [r]) before r' ∧ r'.stored = m := by
        intro hold
        rcases ih hold with ⟨before, r', ⟨hpart, hpasses⟩, hstored⟩
        exact ⟨before, r', ⟨hpart.trans (List.prefix_append rs [r]), hpasses⟩, hstored⟩
      rw [run_append_singleton] at hw
      rcases ingest_cases signing (run signing rs) r with ⟨hpasses, hindex⟩ | ⟨-, hsame⟩
      · rw [hindex, Index.works_updated] at hw
        split at hw
        · exact ⟨rs, r, ⟨List.prefix_rfl, hpasses⟩, Option.some.inj hw⟩
        · exact hearlier hw
      · rw [hsame] at hw
        exact hearlier hw

end State
end Hub
end CleanWeb
