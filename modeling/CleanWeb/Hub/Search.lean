import CleanWeb.Hub.Index

/-!
# Search (`services/discovery-hub/src/index.rs`, `api.rs`)

The ranked text search and its pages.  `ranking` is the list that the pages are cut from: the works
with a positive score, best first, as unbounded arithmetic has it.  `search_exact_iff` says when a
page is what it should be, whether or not the build checks for overflow.
-/

namespace CleanWeb
namespace Hub

open Lib Lib.Exec

/-- `str::to_lowercase` and `char::is_alphanumeric`, which are tables. -/
structure Unicode where
  toLowercase : String → String
  isAlphanumeric : Char → Bool

/-- The lower-case alphanumeric words of a text. -/
def tokenize (unicode : Unicode) (s : String) : List String :=
  (((unicode.toLowercase s).toList.splitOnP fun c => !unicode.isAlphanumeric c).filter
    fun t => !t.isEmpty).map String.ofList

/-- `if present { score += points }` on a `u32`. -/
def scoreIf (checks present : Bool) (points score : Nat) : Exec Empty Nat :=
  if present then addBuild checks 32 score points else pure score

/-- Weighted relevance of a manifest to a set of query tokens. -/
def relevance (checks : Bool) (unicode : Unicode) (m : WorkManifest) (tokens : List String) :
    Exec Empty Nat :=
  let title := tokenize unicode m.title
  let desc := tokenize unicode m.description
  let tags := m.tags.flatMap (tokenize unicode)
  tokens.foldlM (fun score tok => do
    let score ← scoreIf checks (title.contains tok) 3 score
    let score ← scoreIf checks (tags.contains tok) 2 score
    scoreIf checks (desc.contains tok) 1 score) 0

/-- `work_type.is_none_or(|t| m.work_type == t)`. -/
def ofType (workType : Option WorkType) (m : WorkManifest) : Bool :=
  workType.all fun t => m.workType == t

/-- The order of the results: highest score first, ties by work id. -/
def Before (a b : Nat × WorkManifest) : Prop :=
  b.1 < a.1 ∨ a.1 = b.1 ∧ a.2.workId ≤ b.2.workId

instance : DecidableRel Before :=
  fun _ _ => inferInstanceAs (Decidable (_ ∨ _ ∧ _))

namespace Index

/-- One page of the results, and how many there are. -/
def search (checks : Bool) (unicode : Unicode) (idx : Index) (q : String)
    (workType : Option WorkType) (page pageSize : Nat) : Exec Empty (List Summary × Nat) := do
  let tokens := tokenize unicode q
  let scored ← (idx.values.filter (ofType workType)).mapM fun m => do
    let score ← relevance checks unicode m tokens
    pure (score, m)
  let scored := (scored.filter fun e => decide (0 < e.1)).insertionSort Before
  let start ← mulBuild checks 64 (page - 1) pageSize
  pure (((scored.drop start).take pageSize).map (fun e => summaryOf e.2), scored.length)

end Index

def pageSize : Nat := 20

/-- `params.page.unwrap_or(1).max(1)`. -/
def servedPage (page : Option Nat) : Nat :=
  max (page.getD 1) 1

/-- `GET /search`: the page that is served, and what `Index::search` returns for it. -/
def serveSearch (checks : Bool) (unicode : Unicode) (idx : Index) (q : Option String)
    (workType : Option WorkType) (page : Option Nat) :
    Exec Empty (Nat × List Summary × Nat) := do
  let page := servedPage page
  let out ← idx.search checks unicode (q.getD "") workType page pageSize
  pure (page, out)

/-! ## Scores -/

/-- What one token adds. -/
def points (unicode : Unicode) (m : WorkManifest) (tok : String) : Nat :=
  (if (tokenize unicode m.title).contains tok then 3 else 0) +
    (if (m.tags.flatMap (tokenize unicode)).contains tok then 2 else 0) +
      if (tokenize unicode m.description).contains tok then 1 else 0

/-- The score of a manifest, unbounded. -/
def weight (unicode : Unicode) (m : WorkManifest) (tokens : List String) : Nat :=
  (tokens.map (points unicode m)).sum

theorem scoreIf_of_lt {checks present : Bool} {n score : Nat}
    (h : score + (if present then n else 0) < 2 ^ 32) :
    scoreIf checks present n score = .ok (score + if present then n else 0) := by
  unfold scoreIf
  cases present with
  | false => rfl
  | true => exact addBuild_of_lt h

theorem scoreIf_checked {present : Bool} {n score out : Nat} (hscore : score < 2 ^ 32)
    (h : scoreIf true present n score = .ok out) :
    out < 2 ^ 32 ∧ out = score + if present then n else 0 := by
  unfold scoreIf at h
  cases present with
  | false =>
      cases h
      exact ⟨hscore, rfl⟩
  | true =>
      rcases addBuild_checked h with ⟨hfits, rfl⟩
      exact ⟨hfits, rfl⟩

/-- A score that fits is computed, in either build. -/
theorem relevance_of_lt (checks : Bool) {unicode : Unicode} {m : WorkManifest}
    {tokens : List String} (h : weight unicode m tokens < 2 ^ 32) :
    relevance checks unicode m tokens = .ok (weight unicode m tokens) := by
  have hgen : ∀ score, score + weight unicode m tokens < 2 ^ 32 →
      tokens.foldlM (fun score tok => do
        let score ← scoreIf checks ((tokenize unicode m.title).contains tok) 3 score
        let score ← scoreIf checks ((m.tags.flatMap (tokenize unicode)).contains tok) 2 score
        scoreIf checks ((tokenize unicode m.description).contains tok) 1 score) score =
          .ok (score + weight unicode m tokens) := by
    clear h
    induction tokens with
    | nil =>
        intro score _
        rfl
    | cons tok tokens ih =>
        intro score hscore
        have hsum : weight unicode m (tok :: tokens) =
            points unicode m tok + weight unicode m tokens := by
          simp [weight]
        rw [hsum, points] at hscore
        rw [List.foldlM_cons, scoreIf_of_lt (by omega), ok_bind, scoreIf_of_lt (by omega), ok_bind,
          scoreIf_of_lt (by omega), ok_bind, ih _ (by omega), hsum, points]
        congr 1
        omega
  have hrun := hgen 0 (by rwa [Nat.zero_add])
  rwa [Nat.zero_add] at hrun

/-- A build with overflow checks computes no score that does not fit. -/
theorem relevance_checked {unicode : Unicode} {m : WorkManifest} {tokens : List String} {out : Nat}
    (h : relevance true unicode m tokens = .ok out) : weight unicode m tokens < 2 ^ 32 := by
  have hgen : ∀ score, score < 2 ^ 32 →
      tokens.foldlM (fun score tok => do
        let score ← scoreIf true ((tokenize unicode m.title).contains tok) 3 score
        let score ← scoreIf true ((m.tags.flatMap (tokenize unicode)).contains tok) 2 score
        scoreIf true ((tokenize unicode m.description).contains tok) 1 score) score = .ok out →
          score + weight unicode m tokens < 2 ^ 32 := by
    clear h
    induction tokens with
    | nil =>
        intro score hscore _
        simpa [weight] using hscore
    | cons tok tokens ih =>
        intro score hscore hrun
        rw [List.foldlM_cons] at hrun
        rcases bind_eq_ok.1 hrun with ⟨last, hlast, hrest⟩
        rcases bind_eq_ok.1 hlast with ⟨first, hfirst, hlast⟩
        rcases bind_eq_ok.1 hlast with ⟨second, hsecond, hthird⟩
        rcases scoreIf_checked hscore hfirst with ⟨hfits, rfl⟩
        rcases scoreIf_checked hfits hsecond with ⟨hfits', rfl⟩
        rcases scoreIf_checked hfits' hthird with ⟨hfits'', rfl⟩
        have htotal := ih _ hfits'' hrest
        have hsum : weight unicode m (tok :: tokens) =
            points unicode m tok + weight unicode m tokens := by
          simp [weight]
        rw [hsum, points]
        omega
  have hrun := hgen 0 (by decide) h
  rwa [Nat.zero_add] at hrun

/-! ## The list behind the pages -/

namespace Index

/-- The works of the type that match at all, with their scores. -/
def matching (unicode : Unicode) (idx : Index) (q : String) (workType : Option WorkType) :
    List (Nat × WorkManifest) :=
  ((idx.values.filter (ofType workType)).map fun m =>
    (weight unicode m (tokenize unicode q), m)).filter fun e => decide (0 < e.1)

def ranking (unicode : Unicode) (idx : Index) (q : String) (workType : Option WorkType) :
    List WorkManifest :=
  ((matching unicode idx q workType).insertionSort Before).map Prod.snd

/-- The part of the list between `(page - 1) * pageSize` and `page * pageSize`. -/
def pageOf (l : List WorkManifest) (page : Nat) : List WorkManifest :=
  (l.drop ((page - 1) * pageSize)).take pageSize

/-- The list has the matching works, in strictly decreasing order of score and then id. -/
structure Ranking (unicode : Unicode) (idx : Index) (q : String) (workType : Option WorkType)
    (l : List WorkManifest) : Prop where
  mem : ∀ m, m ∈ l ↔ idx.works[m.workId]? = some m ∧ ofType workType m = true ∧
    0 < weight unicode m (tokenize unicode q)
  sorted : l.Pairwise fun a b =>
    weight unicode b (tokenize unicode q) < weight unicode a (tokenize unicode q) ∨
      weight unicode a (tokenize unicode q) = weight unicode b (tokenize unicode q) ∧
        a.workId < b.workId

section Ranking

variable {unicode : Unicode} {idx : Index} {q : String} {workType : Option WorkType}

theorem before_total : Std.Total Before := by
  refine ⟨?_⟩
  intro a b
  unfold Before
  rcases Nat.lt_trichotomy a.1 b.1 with hlt | heq | hgt
  · exact Or.inr (Or.inl hlt)
  · rcases le_total a.2.workId b.2.workId with hle | hle
    · exact Or.inl (Or.inr ⟨heq, hle⟩)
    · exact Or.inr (Or.inr ⟨heq.symm, hle⟩)
  · exact Or.inl (Or.inl hgt)

theorem before_trans : IsTrans (Nat × WorkManifest) Before := by
  refine ⟨?_⟩
  rintro a b c (hab | ⟨hab, hid⟩) (hbc | ⟨hbc, hid'⟩)
  · exact Or.inl (hbc.trans hab)
  · exact Or.inl (hbc ▸ hab)
  · exact Or.inl (hab ▸ hbc)
  · exact Or.inr ⟨hab.trans hbc, hid.trans hid'⟩

theorem mem_values {m : WorkManifest} (h : idx.Exact) :
    m ∈ idx.values ↔ idx.works[m.workId]? = some m := by
  unfold values
  rw [List.mem_map]
  constructor
  · rintro ⟨⟨w, m'⟩, hmem, rfl⟩
    have hw := BTreeMap.mem_toList.1 hmem
    rw [h.keyed w m' hw]
    exact hw
  · intro hw
    exact ⟨(m.workId, m), BTreeMap.mem_toList.2 hw, rfl⟩

/-- No two works of an index have the same id. -/
theorem nodup_workIds (h : idx.Exact) : (idx.values.map WorkManifest.workId).Nodup := by
  have hkeys : idx.values.map WorkManifest.workId = idx.works.toList.map Prod.fst := by
    unfold values
    rw [List.map_map]
    refine List.map_congr_left ?_
    rintro ⟨w, m⟩ hmem
    exact h.keyed w m (BTreeMap.mem_toList.1 hmem)
  rw [hkeys]
  exact BTreeMap.nodup_keys idx.works

theorem mem_matching (h : idx.Exact) {e : Nat × WorkManifest} :
    e ∈ matching unicode idx q workType ↔
      e.1 = weight unicode e.2 (tokenize unicode q) ∧ idx.works[e.2.workId]? = some e.2 ∧
        ofType workType e.2 = true ∧ 0 < e.1 := by
  unfold matching
  rw [List.mem_filter, List.mem_map, decide_eq_true_iff]
  constructor
  · rintro ⟨⟨m, hm, rfl⟩, hpos⟩
    rw [List.mem_filter, mem_values h] at hm
    exact ⟨rfl, hm.1, hm.2, hpos⟩
  · rcases e with ⟨score, m⟩
    rintro ⟨hscore, hwork, htype, hpos⟩
    dsimp only at hscore hwork htype hpos
    subst hscore
    exact ⟨⟨m, List.mem_filter.2 ⟨(mem_values h).2 hwork, htype⟩, rfl⟩, hpos⟩

/-- The matching works have distinct ids. -/
theorem matching_workIds (h : idx.Exact) :
    (matching unicode idx q workType).Pairwise fun a b => a.2.workId ≠ b.2.workId := by
  unfold matching
  refine List.Pairwise.filter _ (List.pairwise_map.2 ?_)
  refine List.Pairwise.filter _ ?_
  exact List.pairwise_map.1 (nodup_workIds h)

theorem ranking_spec (h : idx.Exact) :
    Ranking unicode idx q workType (ranking unicode idx q workType) := by
  refine ⟨?_, ?_⟩
  · intro m
    unfold ranking
    rw [List.mem_map]
    constructor
    · rintro ⟨e, he, rfl⟩
      rw [List.mem_insertionSort, mem_matching h] at he
      exact ⟨he.2.1, he.2.2.1, he.1 ▸ he.2.2.2⟩
    · rintro ⟨hwork, htype, hpos⟩
      refine ⟨(weight unicode m (tokenize unicode q), m), ?_, rfl⟩
      rw [List.mem_insertionSort, mem_matching h]
      exact ⟨rfl, hwork, htype, hpos⟩
  · have htotal := before_total
    have htrans := before_trans
    have hsorted := List.pairwise_insertionSort Before (matching unicode idx q workType)
    have hids : ((matching unicode idx q workType).insertionSort Before).Pairwise
        fun a b => a.2.workId ≠ b.2.workId :=
      ((List.perm_insertionSort Before _).pairwise_iff fun hne => hne.symm).2 (matching_workIds h)
    refine List.pairwise_map.2 ((hsorted.and hids).imp_of_mem ?_)
    rintro a b ha hb ⟨hbefore, hne⟩
    rw [List.mem_insertionSort, mem_matching h] at ha hb
    rw [← ha.1, ← hb.1]
    rcases hbefore with hlt | ⟨heq, hle⟩
    · exact Or.inl hlt
    · exact Or.inr ⟨heq, lt_of_le_of_ne hle hne⟩

theorem ranking_nodup (h : idx.Exact) : (ranking unicode idx q workType).Nodup := by
  refine (ranking_spec h).sorted.imp ?_
  rintro a b hab rfl
  rcases hab with hlt | ⟨-, hlt⟩
  · exact Nat.lt_irrefl _ hlt
  · exact lt_irrefl _ hlt

/-- The pages in order are the list. -/
theorem flatMap_pageOf (l : List WorkManifest) (n : Nat) :
    (List.range n).flatMap (fun k => pageOf l (k + 1)) = l.take (n * pageSize) := by
  induction n with
  | zero => simp
  | succ n ih =>
      rw [List.range_succ, List.flatMap_append, ih, List.flatMap_singleton, pageOf,
        Nat.add_sub_cancel, Nat.succ_mul, List.take_add]

end Ranking

/-! ## When a page is right -/

/-- No work of the type has a score that leaves 32 bits. -/
def ScoresFit (unicode : Unicode) (idx : Index) (q : String) (workType : Option WorkType) : Prop :=
  ∀ m ∈ idx.values, ofType workType m = true → weight unicode m (tokenize unicode q) < 2 ^ 32

/-- With or without overflow checks, the search returns this page of the ranking and its length. -/
def ServesPage (unicode : Unicode) (idx : Index) (q : String) (workType : Option WorkType)
    (page : Nat) : Prop :=
  ∀ checks, idx.search checks unicode q workType page pageSize =
    .ok ((pageOf (ranking unicode idx q workType) page).map summaryOf,
      (ranking unicode idx q workType).length)

/-- With or without overflow checks, a request gets its page of the ranking, the first one for page
zero or none. -/
def Answers (unicode : Unicode) (idx : Index) (q : Option String) (workType : Option WorkType)
    (page : Option Nat) : Prop :=
  ∀ checks, serveSearch checks unicode idx q workType page =
    .ok (servedPage page,
      (pageOf (ranking unicode idx (q.getD "") workType) (servedPage page)).map summaryOf,
      (ranking unicode idx (q.getD "") workType).length)

section Pages

variable {unicode : Unicode} {idx : Index} {q : String} {workType : Option WorkType} {page : Nat}

theorem search_of_fits (hscores : ScoresFit unicode idx q workType)
    (hpage : (page - 1) * pageSize < 2 ^ 64) : ServesPage unicode idx q workType page := by
  intro checks
  have hscored : (idx.values.filter (ofType workType)).mapM (fun m => do
        let score ← relevance checks unicode m (tokenize unicode q)
        pure (score, m)) =
      (.ok ((idx.values.filter (ofType workType)).map fun m =>
        (weight unicode m (tokenize unicode q), m)) : Exec Empty (List (Nat × WorkManifest))) := by
    refine mapM_eq_ok ?_
    intro m hm
    rw [List.mem_filter] at hm
    rw [relevance_of_lt checks (hscores m hm.1 hm.2)]
    rfl
  unfold search
  dsimp only
  rw [hscored, ok_bind, mulBuild_of_lt hpage, ok_bind, ranking, pageOf, List.length_map,
    ← List.map_drop, ← List.map_take, List.map_map]
  rfl

theorem fits_of_search (h : ServesPage unicode idx q workType page) :
    ScoresFit unicode idx q workType ∧ (page - 1) * pageSize < 2 ^ 64 := by
  have hrun := h true
  unfold search at hrun
  dsimp only at hrun
  rcases bind_eq_ok.1 hrun with ⟨scored, hscored, hrest⟩
  rcases bind_eq_ok.1 hrest with ⟨start, hstart, -⟩
  refine ⟨?_, (mulBuild_checked hstart).1⟩
  intro m hm htype
  rcases exists_of_mapM hscored (List.mem_filter.2 ⟨hm, htype⟩) with ⟨e, he⟩
  rcases bind_eq_ok.1 he with ⟨score, hscore, -⟩
  exact relevance_checked hscore

theorem servesPage_iff : ServesPage unicode idx q workType page ↔
    ScoresFit unicode idx q workType ∧ (page - 1) * pageSize < 2 ^ 64 :=
  ⟨fits_of_search, fun h => search_of_fits h.1 h.2⟩

theorem answers_iff {q : Option String} {page : Option Nat} :
    Answers unicode idx q workType page ↔
      ServesPage unicode idx (q.getD "") workType (servedPage page) := by
  refine forall_congr' fun checks => ?_
  unfold serveSearch
  constructor
  · intro h
    rcases bind_eq_ok.1 h with ⟨out, hsearch, hpure⟩
    cases hpure
    exact hsearch
  · intro h
    dsimp only
    rw [h]
    rfl

end Pages

/-- In every index a page, and so the answer to a request, is the right part of the ranking exactly
if the scores fit in 32 bits and the page starts below `2 ^ 64`, and the pages in order are the
ranking; in every index reached by upserts the ranking has the matching works, each once. -/
theorem search_exact_iff (unicode : Unicode) (workType : Option WorkType) :
    (∀ (idx : Index) q page, ServesPage unicode idx q workType page ↔
        ScoresFit unicode idx q workType ∧ (page - 1) * pageSize < 2 ^ 64) ∧
      (∀ (idx : Index) (q : Option String) page, Answers unicode idx q workType page ↔
        ScoresFit unicode idx (q.getD "") workType ∧ (servedPage page - 1) * pageSize < 2 ^ 64) ∧
      (∀ (idx : Index) q n, (ranking unicode idx q workType).length ≤ n * pageSize →
        (List.range n).flatMap (fun k => pageOf (ranking unicode idx q workType) (k + 1)) =
          ranking unicode idx q workType) ∧
      ∀ ms q, Ranking unicode (upserts ms) q workType (ranking unicode (upserts ms) q workType) ∧
        (ranking unicode (upserts ms) q workType).Nodup := by
  refine ⟨fun idx q page => servesPage_iff, ?_, ?_, ?_⟩
  · intro idx q page
    rw [answers_iff, servesPage_iff]
  · intro idx q n hn
    rw [flatMap_pageOf, List.take_of_length_le hn]
  · intro ms q
    exact ⟨ranking_spec (exact_upserts ms), ranking_nodup (exact_upserts ms)⟩

/-- ASCII texts in lower case. -/
def sampleUnicode : Unicode :=
  { toLowercase := fun s => String.ofList (s.toList.map Char.toLower)
    isAlphanumeric := Char.isAlphanum }

/-- Page `2 ^ 62 + 1` starts at `5 * 2 ^ 64`. -/
theorem search_far_page : ¬ ServesPage sampleUnicode (upserts []) "" none (2 ^ 62 + 1) := by
  intro h
  exact absurd (fits_of_search h).2 (by decide)

end Index
end Hub
end CleanWeb
