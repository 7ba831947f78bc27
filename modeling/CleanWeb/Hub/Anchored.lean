import CleanWeb.Hub.Api

/-!
# Identity anchored on chain

A content id and a split table of a manifest are anchored when they are the ones the registry holds
for the work.  The handler compares other fields, so that the identity of the index is anchored
exactly as far as the requests that get through are.
-/

namespace CleanWeb
namespace Hub

open Lib Lib.Exec Contracts

/-- The registry holds this content id and this split table for the work. -/
structure Anchored (registry : CWERegistry) (m : WorkManifest) : Prop where
  contentId : m.contentId = registry.contentIdOf m.workId
  payees : m.payees.map Prod.fst = registry.payeesOf m.workId
  splits : m.payees.map Prod.snd = registry.splitsOf m.workId

namespace State

variable {signing : Signing}

/-- The validation and the index both take the manifest. -/
def Accepted (signing : Signing) (s : State) (r : Request) : Prop :=
  ∃ sig, r.signatureBytes = some sig ∧
    validateIngest signing r.body.manifest sig r.chain.lookup = .ok () ∧
    (s.index.upsert r.stored).1 = .ok ()

theorem accepted_iff {s : State} {r : Request} :
    Accepted signing s r ↔ Passes signing s r := by
  constructor
  · rintro ⟨sig, hsig, hvalid, hupsert⟩
    rcases Index.upsert_cases s.index r.stored with ⟨hadmits, -⟩ | ⟨-, e, heq⟩
    · exact passes_of_validateIngest hsig hvalid hadmits
    · rw [heq] at hupsert
      cases hupsert
  · intro h
    rcases validateIngest_of_passes h with ⟨sig, hsig, hvalid⟩
    rcases Index.upsert_cases s.index r.stored with ⟨-, heq⟩ | ⟨hnot, -⟩
    · exact ⟨sig, hsig, hvalid, congrArg Prod.fst heq⟩
    · exact absurd h.admits hnot

/-- The identity that the hub hands out over a run is the one on chain: every accepted manifest is
anchored in the registry it was checked against, and a content id resolves to a work only if the
registry held that work under this content id when its manifest was taken in. -/
structure AnchoredIdentity (signing : Signing) (rs : List Request) : Prop where
  accepted : ∀ before r, before ++ [r] <+: rs → Accepted signing (run signing before) r →
    Anchored r.chain.registry r.body.manifest
  resolved : ∀ now contentId work, now <+: rs →
    (run signing now).index.resolveContent contentId = some work →
      ∃ before r, before ++ [r] <+: now ∧ Accepted signing (run signing before) r ∧
        (run signing now).index.works[work.workId]? = some r.stored ∧
        r.chain.registry.contentIdOf work.workId = contentId

theorem stored_contentId (r : Request) : r.stored.contentId = r.body.manifest.contentId :=
  rfl

theorem stored_workId (r : Request) : r.stored.workId = r.body.manifest.workId :=
  rfl

/-- A content id resolves to a work whose manifest was taken in under that content id. -/
theorem resolved_origin (now : List Request) {contentId : Bytes32} {work : Resolved}
    (hwork : (run signing now).index.resolveContent contentId = some work) :
    ∃ before r, TakenIn signing now before r ∧
      (run signing now).index.works[work.workId]? = some r.stored ∧
      r.body.manifest.workId = work.workId ∧ r.body.manifest.contentId = contentId := by
  have hexact : (run signing now).index.Exact := exact_run now
  rcases Index.resolveContent_eq_some hexact hwork with ⟨m, hm, hcontent, -⟩
  rcases origin now hm with ⟨before, r, htaken, rfl⟩
  refine ⟨before, r, htaken, hm, ?_, ?_⟩
  · rw [← stored_workId]
    exact hexact.keyed _ _ hm
  · rw [← stored_contentId]
    exact hcontent

/-- The identity of a run is anchored exactly when each of its requests that meets the checks, on
the signature, the compared fields and the index before it, names the registered content id and
split table. -/
theorem anchoredIdentity_iff (signing : Signing) (rs : List Request) :
    AnchoredIdentity signing rs ↔
      ∀ before r, before ++ [r] <+: rs → Passes signing (run signing before) r →
        Anchored r.chain.registry r.body.manifest := by
  constructor
  · intro h before r hpart hpasses
    exact h.accepted before r hpart (accepted_iff.2 hpasses)
  · intro h
    refine ⟨fun before r hpart haccepted => h before r hpart (accepted_iff.1 haccepted), ?_⟩
    -- What a content id resolves to is what some earlier request brought under it.
    intro now contentId work hnow hwork
    rcases resolved_origin now hwork with ⟨before, r, ⟨hpart, hpasses⟩, hm, hworkId, hcontent⟩
    have hanchored := h before r (hpart.trans hnow) hpasses
    refine ⟨before, r, hpart, accepted_iff.2 hpasses, hm, ?_⟩
    rw [← hworkId, ← hanchored.contentId]
    exact hcontent

/-! ## A manifest under a content id of its own -/

section Sample

/-- The registrant is the address of the private key 1. -/
def sampleRegistrant : Address :=
  0x7e5f4552091a69125d5dfcb7b8c2659029395bdf

/-- The digits of the fingerprint. -/
def sampleDigits : List Char :=
  List.replicate 256 'a'

/-- Work 1 is registered under content id 7. -/
def sampleRegistry : CWERegistry :=
  { owner := 0xa0
    works := fun workId =>
      if workId = 1 then
        { payees := [sampleRegistrant]
          splits := [1000000]
          pricePerMin := 1000000
          regionRule := 0
          registrant := sampleRegistrant
          exists_ := true
          contentId := 7
          registeredAt := 1000
          bandwidthRate := 960000 }
      else default }

def sampleClaim : WorkManifest :=
  { workId := 1
    contentId := 9
    fingerprint := String.ofList ('f' :: 'p' :: ':' :: sampleDigits)
    title := "A"
    description := ""
    tags := []
    workType := .audio
    pricePerMin := 1000000
    bandwidthRate := 960000
    region := 0
    creatorId := sampleRegistrant
    createdAt := 1
    payees := [(sampleRegistrant, 1000000)] }

/-- The canonical JSON of the manifest. -/
def sampleCanonical : String :=
  "\x7b\"bandwidth_rate\":960000,\"content_id\":\"0x" ++ String.ofList (List.replicate 63 '0') ++
  "9\",\"created_at\":1,\"creator_id\":\"0x7e5f4552091a69125d5dfcb7b8c2659029395bdf\"," ++
  "\"description\":\"\",\"fingerprint\":\"fp:" ++ String.ofList sampleDigits ++
  "\",\"payees\":[[\"0x7e5f4552091a69125d5dfcb7b8c2659029395bdf\",1000000]]," ++
  "\"price_per_min\":1000000,\"region\":\"0x" ++ String.ofList (List.replicate 64 '0') ++
  "\",\"tags\":[],\"title\":\"A\",\"work_id\":\"0x" ++ String.ofList (List.replicate 63 '0') ++
  "1\",\"work_type\":\"audio\"\x7d"

/-- The EIP-191 signature of the canonical JSON under the private key 1. -/
def sampleSignature : List UInt8 :=
  Bytes32.bytes 0xefa1cb1863584c2905ab62d142afbcee35a73b09b9ef7334096de48040c651b7 ++
    Bytes32.bytes 0x1cadb65250746822b921f30edb0bc8694a2a2c6bfd7709e8debdc3a5de750b67 ++ [28]

/-- The third-party functions, on this manifest and this signature. -/
def sampleSigning : Signing :=
  { Signature := List UInt8
    toVec := fun m => if m = sampleClaim then .ok sampleCanonical.toUTF8.toList else .error ""
    tryFrom := fun bytes => if bytes.length = 65 then some bytes else none
    recoverAddressFromMsg := fun sig msg =>
      if sig = sampleSignature ∧ msg = sampleCanonical.toUTF8.toList then
        .ok sampleRegistrant
      else .error "" }

def sampleRequest : Request :=
  { body := ⟨sampleClaim, Hex.codec.encode sampleSignature⟩
    chain := ⟨true, sampleRegistry, fun _ => none⟩
    nowSecs := 2000
    save := .written }

theorem sampleRequest_signatureBytes :
    sampleRequest.signatureBytes = some sampleSignature := by
  have htrim : trimHexPrefixes (Hex.encodeChars sampleSignature) =
      Hex.encodeChars sampleSignature := by
    decide +kernel
  simp only [Request.signatureBytes, sampleRequest, Hex.codec, String.toList_ofList, htrim,
    Hex.decodeChars_encodeChars]

theorem sampleRequest_signed :
    ∃ sig, sampleRequest.signatureBytes = some sig ∧
      sampleClaim.recoverSigner sampleSigning sig = .ok sampleRegistrant := by
  have hlength : sampleSignature.length = 65 := by
    decide +kernel
  have hsig : sampleSigning.tryFrom sampleSignature = some sampleSignature := by
    simp only [sampleSigning, hlength, if_true]
  have hmsg : sampleSigning.toVec sampleClaim = .ok sampleCanonical.toUTF8.toList := by
    simp only [sampleSigning, if_true]
  have hsigner :
      sampleSigning.recoverAddressFromMsg sampleSignature sampleCanonical.toUTF8.toList =
        .ok sampleRegistrant := by
    simp only [sampleSigning, and_self, if_true]
  exact ⟨sampleSignature, sampleRequest_signatureBytes,
    WorkManifest.recoverSigner_of_parts hsig hmsg hsigner⟩

theorem sampleRequest_passes : Passes sampleSigning init sampleRequest := by
  have hdecode : Hex.decodeChars sampleDigits = some (List.replicate 128 0xaa) := by
    decide +kernel
  have hlength : sampleDigits.length = hexLen := by
    decide +kernel
  refine ⟨⟨rfl, fun _ => rfl⟩, rfl, sampleRequest_signed, ⟨rfl, rfl, rfl, rfl⟩, ?_, ?_, ?_⟩
  · exact (by decide : 1000000 < 2 ^ 64)
  · exact (by decide : 960000 < 2 ^ 64)
  · refine ⟨Fingerprint.parse_of_digits hlength hdecode, ?_, ?_⟩
    · simp [init, Index.new]
    · simp [init, Index.new]

/-- The registry holds work 1 under content id 7, and its registrant gets it indexed under content
id 9. -/
theorem sampleRequest_not_anchored : ¬ AnchoredIdentity sampleSigning [sampleRequest] := by
  intro h
  have hanchored := (h.accepted [] sampleRequest List.prefix_rfl
    (accepted_iff.2 sampleRequest_passes)).contentId
  exact absurd hanchored (by decide : (9 : Bytes32) ≠ 7)

end Sample
end State
end Hub
end CleanWeb
