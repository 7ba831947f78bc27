import Mathlib.Data.List.DropRight
import CleanWeb.Hub.Recognition
import CleanWeb.Hub.Wire

/-!
# Recognition (`clients/player-plugin/src/recognize.rs`)

Two requests to the hub, the exact content id first and the fingerprint second.  `Recognised` says
what the answer should be in terms of the indexed works alone; `recognize_sound` and
`recognize_complete` compare it with what comes back over the wire.
-/

namespace CleanWeb
namespace Player

open Lib Lib.Exec Hub

/-! ## The client -/

inductive Tier where
  | signed
  | fingerprint
  deriving DecidableEq, Repr

structure ResolvedWork where
  workId : String
  pricePerMin : Nat
  tier : Tier
  deriving DecidableEq, Repr

/-- The decoded file; `Sample` is the type of a sample. -/
structure DecodedAudio (Sample : Type) where
  bytes : List UInt8
  samples : List Sample
  sampleRate : Nat

/-- `Fingerprint::compute` on samples at a rate, and the hash of the content. -/
structure Analysis (Sample : Type) where
  keccak256 : Keccak
  compute : List Sample → Nat → Fingerprint

/-- `get_json`: absent on any miss or error. -/
abbrev HubTransport := String → Option Json

/-- `trim_end_matches('/')`. -/
def trimEndSlashes (url : String) : String :=
  String.ofList (url.toList.rdropWhile (· == '/'))

def parseWork (v : Json) (tier : Tier) : Option ResolvedWork := do
  let workId ← (← v.get "work_id").asStr
  let pricePerMin ← (← v.get "price_per_min").asU64
  pure { workId := workId, pricePerMin := pricePerMin, tier := tier }

section

variable {Sample : Type} (analysis : Analysis Sample)

def contentIdOf (bytes : List UInt8) : String :=
  Bytes32.display Hex.codec (analysis.keccak256 bytes)

/-- The signed work of the content id. -/
def recognizeSigned (base : String) (audio : DecodedAudio Sample) (transport : HubTransport) :
    Option ResolvedWork := do
  let v ← transport (base ++ "/resolve/content/" ++ contentIdOf analysis audio.bytes)
  parseWork v .signed

/-- The candidate of the fingerprint, wrapped beside its similarity. -/
def recognizeFingerprint (base : String) (audio : DecodedAudio Sample)
    (transport : HubTransport) : Option ResolvedWork := do
  let fp := (analysis.compute audio.samples audio.sampleRate).display
  let v ← transport (base ++ "/resolve/fingerprint/" ++ fp)
  parseWork ((v.get "candidate").getD .null) .fingerprint

def recognize (hubUrl : String) (audio : DecodedAudio Sample) (transport : HubTransport) :
    Option ResolvedWork :=
  let base := trimEndSlashes hubUrl
  match recognizeSigned analysis base audio transport with
  | some work => some work
  | none => recognizeFingerprint analysis base audio transport

end

/-! ## The wire -/

/-- A hub that serves `idx` under `base`, on a network that never fails. -/
def live (base : String) (idx : Index) : HubTransport := fun url =>
  match url.toList.dropPrefix? base.toList with
  | none => none
  | some path =>
      match serveGet idx path with
      | .ok body => some body
      | _ => none

/-- The hub behind a network that may lose any request or answer. -/
def Lossy (base : String) (idx : Index) (transport : HubTransport) : Prop :=
  ∀ url, transport url = none ∨ transport url = live base idx url

theorem lossy_live (base : String) (idx : Index) : Lossy base idx (live base idx) :=
  fun _ => Or.inr rfl

theorem live_append (base path : String) (idx : Index) :
    live base idx (base ++ path) = match serveGet idx path.toList with
      | .ok body => some body
      | _ => none := by
  have hdrop : (base ++ path).toList.dropPrefix? base.toList = some path.toList := by
    rw [List.dropPrefix?_eq_some_iff]
    exact ⟨base.toList, by simp, by simp⟩
  rw [live, hdrop]

theorem live_content (base : String) (idx : Index) (contentId : Bytes32) :
    live base idx (base ++ "/resolve/content/" ++ Bytes32.display Hex.codec contentId) =
      (idx.resolveContent contentId).map Resolved.toJson := by
  have hpath : ("/resolve/content/" ++ Bytes32.display Hex.codec contentId).toList =
      "/resolve/content/".toList ++ (Bytes32.display Hex.codec contentId).toList := by
    simp
  rw [String.append_assoc, live_append, hpath, serveGet_content]
  cases idx.resolveContent contentId <;> rfl

theorem live_fingerprint (base : String) (idx : Index) (fp : Fingerprint) :
    live base idx (base ++ "/resolve/fingerprint/" ++ fp.display) =
      (idx.nearestFingerprint fp fpMatchThreshold).map fun best =>
        .object [("candidate", best.1.toJson), ("similarity", .float best.2)] := by
  have hpath : ("/resolve/fingerprint/" ++ fp.display).toList =
      "/resolve/fingerprint/".toList ++ fp.display.toList := by
    simp
  rw [String.append_assoc, live_append, hpath, serveGet_fingerprint]
  cases idx.nearestFingerprint fp fpMatchThreshold <;> rfl

/-! ## Parsing the answers -/

theorem parseWork_resolved (r : Resolved) (tier : Tier) : parseWork r.toJson tier =
    some ⟨Bytes32.display Hex.codec r.workId, r.pricePerMin, tier⟩ := by
  simp [parseWork, Resolved.toJson, Json.get, Json.asStr, Json.asU64, List.lookup_cons]

theorem parseWork_candidate (s : Summary) (similarity : Rat) (tier : Tier) :
    parseWork (((Json.object [("candidate", s.toJson), ("similarity", .float similarity)]).get
      "candidate").getD .null) tier =
        some ⟨Bytes32.display Hex.codec s.workId, s.pricePerMin, tier⟩ := by
  simp [parseWork, Summary.toJson, Json.get, Json.asStr, Json.asU64, List.lookup_cons]

/-! ## What the answer should be -/

/-- At most 153 of the 1,024 bits differ. -/
def Close (a b : Fingerprint) : Prop :=
  Fingerprint.differing a b ≤ 153

theorem below_similarity_iff {a b : Fingerprint} :
    fpMatchThreshold.below (Fingerprint.similarity a b) = true ↔ Close a b := by
  unfold fpMatchThreshold F64.below Close Fingerprint.similarity
  generalize Fingerprint.differing a b = d
  simp only [frames, bitsPerFrame]
  constructor
  · intro h
    by_contra hfar
    have hcast : (154 : Rat) ≤ d := by
      exact_mod_cast (by omega : 154 ≤ d)
    norm_num at h
    linarith
  · intro h
    have hcast : (d : Rat) ≤ 153 := by
      exact_mod_cast h
    norm_num
    linarith

section

variable {Sample : Type} (analysis : Analysis Sample) (idx : Index) (audio : DecodedAudio Sample)

/-- The fingerprint that the client computes. -/
def ownFingerprint : Fingerprint :=
  analysis.compute audio.samples audio.sampleRate

/-- The work is indexed under the content of the file. -/
def Owns (m : WorkManifest) : Prop :=
  idx.works[m.workId]? = some m ∧ m.contentId = analysis.keccak256 audio.bytes

/-- The work is indexed under a close fingerprint, and under none closer. -/
structure Nearest (m : WorkManifest) : Prop where
  indexed : idx.works[m.workId]? = some m
  close : ∃ f, Fingerprint.parse m.fingerprint = .ok f ∧ Close (ownFingerprint analysis audio) f ∧
    ∀ (w' : Bytes32) (m' : WorkManifest) (f' : Fingerprint), idx.works[w']? = some m' →
      Fingerprint.parse m'.fingerprint = .ok f' →
        Fingerprint.differing (ownFingerprint analysis audio) f ≤
          Fingerprint.differing (ownFingerprint analysis audio) f'

def answerOf (m : WorkManifest) (tier : Tier) : ResolvedWork :=
  ⟨Bytes32.display Hex.codec m.workId, m.pricePerMin, tier⟩

/-- The works that may be returned, each with its tier. -/
inductive Recognised : ResolvedWork → Prop where
  | signed (m : WorkManifest) : Owns analysis idx audio m → Recognised (answerOf m .signed)
  | fingerprint (m : WorkManifest) : Nearest analysis idx audio m →
      Recognised (answerOf m .fingerprint)

end

/-! ## The two lookups -/

section

variable {Sample : Type} {analysis : Analysis Sample} {idx : Index} {audio : DecodedAudio Sample}

theorem resolveContent_owns (hexact : idx.Exact) {r : Resolved}
    (h : idx.resolveContent (analysis.keccak256 audio.bytes) = some r) :
    ∃ m, Owns analysis idx audio m ∧ r = resolvedOf m := by
  rcases Index.resolveContent_eq_some hexact h with ⟨m, hm, hcontent, rfl⟩
  exact ⟨m, ⟨hm, hcontent⟩, rfl⟩

/-- The content table finds every work that owns the content. -/
theorem resolveContent_of_owns (hexact : idx.Exact) {m : WorkManifest}
    (h : Owns analysis idx audio m) :
    idx.resolveContent (analysis.keccak256 audio.bytes) = some (resolvedOf m) := by
  have hentry : idx.byContent[analysis.keccak256 audio.bytes]? = some m.workId :=
    (hexact.contents _ _).2 ⟨m, h.1, h.2⟩
  simp [Index.resolveContent, hentry, h.1]

theorem candidate_eq_some {fp : Fingerprint} {threshold : F64} {m : WorkManifest}
    {c : Summary × Rat} : Index.candidate fp threshold m = some c ↔
      ∃ f, Fingerprint.parse m.fingerprint = .ok f ∧
        threshold.below (Fingerprint.similarity fp f) = true ∧
          c = (summaryOf m, Fingerprint.similarity fp f) := by
  unfold Index.candidate
  cases hparse : Fingerprint.parse m.fingerprint with
  | error t =>
      simp
  | ok f =>
      simp only [Except.ok.injEq, exists_eq_left', Option.ite_none_right_eq_some, Option.some.injEq]
      rw [@eq_comm _ c]

/-- Fewer differing bits are a higher similarity. -/
theorem similarity_le_iff {a b c : Fingerprint} :
    Fingerprint.similarity a b ≤ Fingerprint.similarity a c ↔
      Fingerprint.differing a c ≤ Fingerprint.differing a b := by
  unfold Fingerprint.similarity
  rw [sub_le_sub_iff_left, div_le_div_iff_of_pos_right (by norm_num [frames, bitsPerFrame]),
    Nat.cast_le]

theorem nearestFingerprint_nearest (hexact : idx.Exact) {best : Summary × Rat}
    (h : idx.nearestFingerprint (ownFingerprint analysis audio) fpMatchThreshold = some best) :
    ∃ m, Nearest analysis idx audio m ∧ best.1 = summaryOf m := by
  rcases maxBy_eq_some h with ⟨hbest, hgreatest⟩
  rcases List.mem_filterMap.1 hbest with ⟨m, hm, hcandidate⟩
  rcases Index.mem_values_iff.1 hm with ⟨w, hw⟩
  rcases candidate_eq_some.1 hcandidate with ⟨f, hf, hbelow, rfl⟩
  have hkey := hexact.keyed w m hw
  have hclose := below_similarity_iff.1 hbelow
  refine ⟨m, ⟨hkey.symm ▸ hw, f, hf, hclose, ?_⟩, rfl⟩
  intro w' m' f' hw' hf'
  by_cases hclose' : Close (ownFingerprint analysis audio) f'
  · have hle := hgreatest (summaryOf m', _) (List.mem_filterMap.2
      ⟨m', Index.mem_values_iff.2 ⟨w', hw'⟩,
        candidate_eq_some.2 ⟨f', hf', below_similarity_iff.2 hclose', rfl⟩⟩)
    exact similarity_le_iff.1 hle
  · -- A work that is not close is further away.
    unfold Close at hclose hclose'
    omega

/-- Where nothing is returned no indexed fingerprint is close. -/
theorem not_close_of_none
    (h : idx.nearestFingerprint (ownFingerprint analysis audio) fpMatchThreshold = none)
    {w : Bytes32} {m : WorkManifest} {f : Fingerprint} (hw : idx.works[w]? = some m)
    (hf : Fingerprint.parse m.fingerprint = .ok f) :
    ¬ Close (ownFingerprint analysis audio) f := by
  intro hclose
  have hnone := List.filterMap_eq_nil_iff.1 (maxBy_eq_none_iff.1 h) m
    (Index.mem_values_iff.2 ⟨w, hw⟩)
  rw [candidate_eq_some.2 ⟨f, hf, below_similarity_iff.2 hclose, rfl⟩] at hnone
  cases hnone

/-! ## The client against the wire -/

variable {hubUrl : String} {transport : HubTransport}

theorem recognizeSigned_live (base : String) : recognizeSigned analysis base audio (live base idx) =
    (idx.resolveContent (analysis.keccak256 audio.bytes)).map fun r =>
      ⟨Bytes32.display Hex.codec r.workId, r.pricePerMin, .signed⟩ := by
  rw [recognizeSigned, contentIdOf, live_content]
  cases idx.resolveContent (analysis.keccak256 audio.bytes) with
  | none => rfl
  | some r => exact parseWork_resolved r .signed

theorem recognizeFingerprint_live (base : String) :
    recognizeFingerprint analysis base audio (live base idx) =
      (idx.nearestFingerprint (ownFingerprint analysis audio) fpMatchThreshold).map fun best =>
        ⟨Bytes32.display Hex.codec best.1.workId, best.1.pricePerMin, .fingerprint⟩ := by
  rw [recognizeFingerprint, live_fingerprint]
  change (Option.map _ (idx.nearestFingerprint (ownFingerprint analysis audio) _)).bind _ = _
  cases idx.nearestFingerprint (ownFingerprint analysis audio) fpMatchThreshold with
  | none => rfl
  | some best => exact parseWork_candidate best.1 best.2 .fingerprint

/-- A lost message makes a lookup a miss and changes no answer. -/
theorem recognizeSigned_lossy (analysis : Analysis Sample) (audio : DecodedAudio Sample)
    {base : String} (h : Lossy base idx transport) :
    recognizeSigned analysis base audio transport = none ∨
      recognizeSigned analysis base audio transport =
        recognizeSigned analysis base audio (live base idx) := by
  unfold recognizeSigned
  rcases h (base ++ "/resolve/content/" ++ contentIdOf analysis audio.bytes) with hlost | hanswer
  · rw [hlost]
    exact Or.inl rfl
  · rw [hanswer]
    exact Or.inr rfl

theorem recognizeFingerprint_lossy (analysis : Analysis Sample) (audio : DecodedAudio Sample)
    {base : String} (h : Lossy base idx transport) :
    recognizeFingerprint analysis base audio transport = none ∨
      recognizeFingerprint analysis base audio transport =
        recognizeFingerprint analysis base audio (live base idx) := by
  unfold recognizeFingerprint
  dsimp only
  rcases h (base ++ "/resolve/fingerprint/" ++
    (analysis.compute audio.samples audio.sampleRate).display) with hlost | hanswer
  · rw [hlost]
    exact Or.inl rfl
  · rw [hanswer]
    exact Or.inr rfl

theorem recognised_of_signed (hexact : idx.Exact) {base : String} {r : ResolvedWork}
    (h : recognizeSigned analysis base audio (live base idx) = some r) :
    Recognised analysis idx audio r := by
  rw [recognizeSigned_live, Option.map_eq_some_iff] at h
  rcases h with ⟨found, hfound, rfl⟩
  rcases resolveContent_owns hexact hfound with ⟨m, howns, rfl⟩
  exact .signed m howns

theorem recognised_of_fingerprint (hexact : idx.Exact) {base : String} {r : ResolvedWork}
    (h : recognizeFingerprint analysis base audio (live base idx) = some r) :
    Recognised analysis idx audio r := by
  rw [recognizeFingerprint_live, Option.map_eq_some_iff] at h
  rcases h with ⟨best, hbest, rfl⟩
  rcases nearestFingerprint_nearest hexact hbest with ⟨m, hnearest, hsummary⟩
  rw [hsummary]
  exact .fingerprint m hnearest

/-- Whatever is lost, what is returned is the owner or the nearest candidate. -/
theorem recognize_sound (hexact : idx.Exact) (hlossy : Lossy (trimEndSlashes hubUrl) idx transport)
    {r : ResolvedWork} (h : recognize analysis hubUrl audio transport = some r) :
    Recognised analysis idx audio r := by
  unfold recognize at h
  dsimp only at h
  split at h
  · rename_i work hwork
    cases h
    rcases recognizeSigned_lossy analysis audio hlossy with hlost | hsame
    · rw [hlost] at hwork
      cases hwork
    · exact recognised_of_signed hexact (hsame ▸ hwork)
  · rcases recognizeFingerprint_lossy analysis audio hlossy with hlost | hsame
    · rw [hlost] at h
      cases h
    · exact recognised_of_fingerprint hexact (hsame ▸ h)

theorem recognize_live_of_owns (hexact : idx.Exact) {m : WorkManifest}
    (h : Owns analysis idx audio m) :
    recognize analysis hubUrl audio (live (trimEndSlashes hubUrl) idx) =
      some (answerOf m .signed) := by
  have hsigned : recognizeSigned analysis (trimEndSlashes hubUrl) audio
      (live (trimEndSlashes hubUrl) idx) = some (answerOf m .signed) := by
    rw [recognizeSigned_live, resolveContent_of_owns hexact h]
    rfl
  unfold recognize
  dsimp only
  rw [hsigned]

/-- On a network that loses nothing, a work is missed only if there is none to return. -/
theorem recognize_live_of_nearest {m : WorkManifest}
    (h : Nearest analysis idx audio m) :
    recognize analysis hubUrl audio (live (trimEndSlashes hubUrl) idx) ≠ none := by
  intro hnone
  rcases h.close with ⟨f, hf, hclose, -⟩
  unfold recognize at hnone
  dsimp only at hnone
  split at hnone
  · cases hnone
  · rw [recognizeFingerprint_live, Option.map_eq_none_iff] at hnone
    exact not_close_of_none hnone h.indexed hf hclose

end

/-- For every hub state that requests can lead to and every file: over a network that loses
messages the client is told the owner of the content or the nearest close candidate, or nothing;
where nothing is lost it is told the owner whenever there is one, and nothing only where neither
exists. -/
theorem recognition_over_http {Sample : Type} (analysis : Analysis Sample) (signing : Signing)
    (rs : List Request) (audio : DecodedAudio Sample) (hubUrl : String) :
    (∀ transport r, Lossy (trimEndSlashes hubUrl) (State.run signing rs).index transport →
      recognize analysis hubUrl audio transport = some r →
        Recognised analysis (State.run signing rs).index audio r) ∧
    (∀ m, Owns analysis (State.run signing rs).index audio m →
      recognize analysis hubUrl audio
        (live (trimEndSlashes hubUrl) (State.run signing rs).index) =
          some (answerOf m .signed)) ∧
    (recognize analysis hubUrl audio
        (live (trimEndSlashes hubUrl) (State.run signing rs).index) = none ↔
      ∀ r, ¬ Recognised analysis (State.run signing rs).index audio r) := by
  have hexact : (State.run signing rs).index.Exact := State.exact_run rs
  refine ⟨fun transport r hlossy hr => recognize_sound hexact hlossy hr,
    fun m howns => recognize_live_of_owns hexact howns, ?_, ?_⟩
  · intro hnone r hr
    cases hr with
    | signed m howns =>
        rw [recognize_live_of_owns hexact howns] at hnone
        cases hnone
    | fingerprint m hnearest =>
        exact recognize_live_of_nearest hnearest hnone
  · intro hno
    cases hr : recognize analysis hubUrl audio
        (live (trimEndSlashes hubUrl) (State.run signing rs).index) with
    | none => rfl
    | some r => exact absurd (recognize_sound hexact (lossy_live _ _) hr) (hno r)

end Player
end CleanWeb
