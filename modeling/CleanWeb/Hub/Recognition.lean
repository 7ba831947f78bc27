import CleanWeb.Hub.Index

/-!
# Recognising an indexed work by its fingerprint

The index keeps fingerprint texts apart, the scan compares the parsed values, and parsing ignores
letter case.  `Recognisable` is what the scan needs; `recognisable_iff` finds it in every state of
a run of upserts exactly when no upsert brings in a text that differs from another work's in
letter case only.
-/

namespace CleanWeb
namespace Hub

open Lib Lib.Exec

namespace Index

/-- No two works share a parsed fingerprint, and each work is the nearest to its own. -/
structure Recognisable (idx : Index) : Prop where
  distinct : ∀ (w w' : Bytes32) (m m' : WorkManifest) (f : Fingerprint),
    idx.works[w]? = some m → idx.works[w']? = some m' →
      Fingerprint.parse m.fingerprint = .ok f → Fingerprint.parse m'.fingerprint = .ok f → w = w'
  nearest : ∀ (w : Bytes32) (m : WorkManifest) (f : Fingerprint) (threshold : F64),
    idx.works[w]? = some m → Fingerprint.parse m.fingerprint = .ok f → threshold.below 1 = true →
      idx.nearestFingerprint f threshold = some (summaryOf m, 1)

/-- The upsert brings a new text of another work's fingerprint: neither of the lookup tables stops
it, since the text differs in letter case and the content id is free. -/
structure BringsTwin (idx : Index) (m : WorkManifest) : Prop where
  spelled : ∃ hexPart, Fingerprint.stripPrefix m.fingerprint = some hexPart
  fingerprint : ∀ w, idx.byFingerprint[m.fingerprint]? = some w → w = m.workId
  content : ∀ w, idx.byContent[m.contentId]? = some w → w = m.workId
  twin : ∃ w m', idx.works[w]? = some m' ∧ w ≠ m.workId ∧
    Hex.eqIgnoreCase m'.fingerprint m.fingerprint

/-! ## One upsert -/

section Step

variable {idx : Index} {m : WorkManifest}

/-- The parsed fingerprints tell the works apart. -/
def Distinct (idx : Index) : Prop :=
  ∀ (w w' : Bytes32) (m m' : WorkManifest) (f : Fingerprint),
    idx.works[w]? = some m → idx.works[w']? = some m' →
      Fingerprint.parse m.fingerprint = .ok f → Fingerprint.parse m'.fingerprint = .ok f → w = w'

theorem mem_values_iff : m ∈ idx.values ↔ ∃ w : Bytes32, idx.works[w]? = some m := by
  simp only [values, List.mem_map, Prod.exists, exists_eq_right, BTreeMap.mem_toList]

/-- A work whose fingerprint no other work has beats every other candidate. -/
theorem nearest_of_distinct (h : Distinct idx) {w : Bytes32} {f : Fingerprint} {threshold : F64}
    (hw : idx.works[w]? = some m) (hf : Fingerprint.parse m.fingerprint = .ok f)
    (ht : threshold.below 1 = true) :
    idx.nearestFingerprint f threshold = some (summaryOf m, 1) := by
  have hown : candidate f threshold m = some (summaryOf m, 1) := by
    simp [candidate, hf, Fingerprint.similarity_self, ht]
  refine maxBy_of_unique ?_ ?_
  · exact List.mem_filterMap.2 ⟨m, mem_values_iff.2 ⟨w, hw⟩, hown⟩
  · intro c hc
    rcases List.mem_filterMap.1 hc with ⟨m', hm', hcandidate⟩
    rcases mem_values_iff.1 hm' with ⟨w', hw'⟩
    unfold candidate at hcandidate
    split at hcandidate
    · cases hcandidate
    rename_i own hown'
    dsimp only at hcandidate
    split at hcandidate
    · cases hcandidate
      by_cases hsame : f = own
      · -- Only the work itself has this fingerprint.
        subst hsame
        have hkey := h w w' m m' f hw hw' hf hown'
        subst hkey
        rw [hw] at hw'
        rw [← Option.some.inj hw', Fingerprint.similarity_self]
        exact Or.inl rfl
      · exact Or.inr (Fingerprint.similarity_lt_one hsame)
    · cases hcandidate

theorem recognisable_of_distinct (h : Distinct idx) : Recognisable idx :=
  ⟨h, fun _ _ _ _ hw hf ht => nearest_of_distinct h hw hf ht⟩

theorem BringsTwin.admits (h : BringsTwin idx m) (hexact : idx.Exact) : idx.Admits m := by
  rcases h.twin with ⟨w, m', hw, -, hcase⟩
  rcases hexact.parses w m' hw with ⟨f, hf⟩
  rcases h.spelled with ⟨hexPart, hstrip⟩
  exact ⟨⟨f, Fingerprint.parse_of_eqIgnoreCase hf hstrip hcase⟩, h.fingerprint, h.content⟩

/-- Taking in a work that is no twin keeps the fingerprints distinct. -/
theorem Distinct.updated (h : Distinct idx) (hm : idx.Admits m) (htwin : ¬ BringsTwin idx m) :
    Distinct (idx.updated m) := by
  -- The newcomer shares its fingerprint with no other work.
  have hnew : ∀ (w : Bytes32) (m' : WorkManifest) (f : Fingerprint), idx.works[w]? = some m' →
      w ≠ m.workId → Fingerprint.parse m'.fingerprint = .ok f →
        Fingerprint.parse m.fingerprint ≠ .ok f := by
    intro w m' f hw hne hf hf'
    rcases Fingerprint.parse_eq_ok_iff.1 hf' with ⟨hexPart, -, hstrip, -⟩
    exact htwin ⟨⟨hexPart, hstrip⟩, hm.fingerprint, hm.content, w, m', hw, hne,
      (Fingerprint.parse_eq_iff hf hf').1 rfl⟩
  intro w w' m₁ m₂ f hw hw' hf hf'
  rw [works_updated] at hw hw'
  split at hw
  · rename_i hkey
    cases hw
    split at hw'
    · rename_i hkey'
      exact hkey.symm.trans hkey'
    · rename_i hkey'
      exact absurd hf (hnew w' m₂ f hw' (Ne.symm hkey') hf')
  · rename_i hkey
    split at hw'
    · cases hw'
      exact absurd hf' (hnew w m₁ f hw (Ne.symm hkey) hf)
    · exact h w w' m₁ m₂ f hw hw' hf hf'

/-- A twin in the index ends the works' being distinct. -/
theorem BringsTwin.not_distinct (h : BringsTwin idx m) (hexact : idx.Exact) :
    ¬ Distinct (idx.upsert m).2 := by
  intro hdistinct
  have hadmits := h.admits hexact
  rcases upsert_cases idx m with ⟨-, heq⟩ | ⟨hnot, -⟩
  · rcases h.twin with ⟨w, m', hw, hne, hcase⟩
    rcases hexact.parses w m' hw with ⟨f, hf⟩
    rcases h.spelled with ⟨hexPart, hstrip⟩
    have hf' := Fingerprint.parse_of_eqIgnoreCase hf hstrip hcase
    rw [heq] at hdistinct
    refine hne (hdistinct w m.workId m' m f ?_ ?_ hf hf')
    · rw [works_updated, if_neg hne.symm]
      exact hw
    · rw [works_updated, if_pos rfl]
  · exact hnot hadmits

end Step

/-! ## Every run -/

theorem distinct_upserts {ms : List WorkManifest}
    (h : ∀ p m, p ++ [m] <+: ms → ¬ BringsTwin (upserts p) m) : Distinct (upserts ms) := by
  induction ms using List.reverseRecOn with
  | nil =>
      intro w w' m m' f hw
      simp [upserts, new] at hw
  | append_singleton ms m ih =>
      have hold := ih fun p m' hp => h p m' (hp.trans (List.prefix_append ms [m]))
      rw [upserts_append_singleton]
      rcases upsert_cases (upserts ms) m with ⟨hadmits, heq⟩ | ⟨-, e, heq⟩
      · rw [heq]
        exact hold.updated hadmits (h ms m List.prefix_rfl)
      · rw [heq]
        exact hold

/-- In every state of a run of upserts each work is recognisable, exactly when no upsert of the run
brings a text of another work's fingerprint that only differs from it in letter case. -/
theorem recognisable_iff (ms : List WorkManifest) :
    (∀ p, p <+: ms → Recognisable (upserts p)) ↔
      ∀ p m, p ++ [m] <+: ms → ¬ BringsTwin (upserts p) m := by
  constructor
  · intro h p m hp htwin
    have hdistinct := (h (p ++ [m]) hp).distinct
    rw [upserts_append_singleton] at hdistinct
    exact htwin.not_distinct (exact_upserts p) hdistinct
  · intro h p hp
    exact recognisable_of_distinct (distinct_upserts fun q m hq => h q m (hq.trans hp))

/-! ## A twin -/

def sampleManifest (workId : Nat) (digits : List Char) : WorkManifest :=
  { workId := BitVec.ofNat 256 workId
    contentId := BitVec.ofNat 256 workId
    fingerprint := String.ofList ('f' :: 'p' :: ':' :: digits)
    title := "Song"
    description := ""
    tags := []
    workType := .audio
    pricePerMin := 1000000
    bandwidthRate := 960000
    region := 0
    creatorId := 0xc0
    createdAt := 1
    payees := [(0xc0, 1000000)] }

/-- The first work of a run is indexed, and the second, with the same digits in capitals, is too. -/
theorem sampleTwins_brings {lower upper : List Char} {bytes : List UInt8}
    (hlength : lower.length = hexLen) (hdecode : Hex.decodeChars lower = some bytes)
    (hcase : lower.map Char.toLower = upper.map Char.toLower) (hne : lower ≠ upper) :
    BringsTwin (upserts [sampleManifest 1 lower]) (sampleManifest 2 upper) := by
  have hparses := Fingerprint.parse_of_digits hlength hdecode
  have hadmits : new.Admits (sampleManifest 1 lower) := ⟨hparses, by simp [new], by simp [new]⟩
  have hfirst : upserts [sampleManifest 1 lower] = new.updated (sampleManifest 1 lower) := by
    rcases upsert_cases new (sampleManifest 1 lower) with ⟨-, heq⟩ | ⟨hnot, -⟩
    · exact congrArg Prod.snd heq
    · exact absurd hadmits hnot
  have hstored : (upserts [sampleManifest 1 lower]).works[(1 : Bytes32)]? =
      some (sampleManifest 1 lower) := by
    have hkey : (sampleManifest 1 lower).workId = 1 := rfl
    rw [hfirst, works_updated, if_pos hkey]
  have hexact := exact_upserts [sampleManifest 1 lower]
  have honly : ∀ (w : Bytes32) (m : WorkManifest),
      (upserts [sampleManifest 1 lower]).works[w]? = some m → m = sampleManifest 1 lower := by
    intro w m hw
    rw [hfirst, works_updated] at hw
    split at hw
    · exact (Option.some.inj hw).symm
    · simp [new] at hw
  refine ⟨⟨_, Fingerprint.stripPrefix_of_digits upper⟩, ?_, ?_, 1, _, hstored,
    (by decide : (1 : Bytes32) ≠ 2), ?_⟩
  · intro w hw
    rcases (hexact.fingerprints _ w).1 hw with ⟨m, hm, htext⟩
    rw [honly w m hm] at htext
    have hchars := congrArg String.toList htext
    simp only [sampleManifest, String.toList_ofList, List.cons.injEq, true_and] at hchars
    exact absurd hchars hne
  · intro w hw
    rcases (hexact.contents _ w).1 hw with ⟨m, hm, hcontent⟩
    rw [honly w m hm] at hcontent
    exact absurd hcontent (by decide : (1 : Bytes32) ≠ 2)
  · simp only [Hex.eqIgnoreCase, sampleManifest, String.toList_ofList, List.map_cons, hcase]

theorem sampleTwins_of_digits {lower upper : List Char} {bytes : List UInt8}
    (hlength : lower.length = hexLen) (hdecode : Hex.decodeChars lower = some bytes)
    (hcase : lower.map Char.toLower = upper.map Char.toLower) (hne : lower ≠ upper) :
    ¬ Recognisable (upserts [sampleManifest 1 lower, sampleManifest 2 upper]) := by
  intro h
  exact (sampleTwins_brings hlength hdecode hcase hne).not_distinct (exact_upserts _) h.distinct

/-- Work 2 repeats the fingerprint of work 1 in capitals and both are indexed, so that the works
are no longer recognisable. -/
theorem sampleTwins_not_recognisable :
    ¬ Recognisable (upserts [sampleManifest 1 (List.replicate 256 'a'),
      sampleManifest 2 (List.replicate 256 'A')]) := by
  have hlength : (List.replicate 256 'a').length = hexLen := by
    decide +kernel
  have hdecode : Hex.decodeChars (List.replicate 256 'a') = some (List.replicate 128 0xaa) := by
    decide +kernel
  have hcase : (List.replicate 256 'a').map Char.toLower =
      (List.replicate 256 'A').map Char.toLower := by
    decide +kernel
  have hne : List.replicate 256 'a' ≠ List.replicate 256 'A' := by
    decide +kernel
  exact sampleTwins_of_digits hlength hdecode hcase hne

end Index
end Hub
end CleanWeb
