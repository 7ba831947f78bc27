import CleanWeb.Settle.Events
import CleanWeb.Settle.FeeConservation

/-!
# Isolation of rejected submissions

A submission that fails re-verification should be dropped alone.  The digest comparison does drop
it; the width of a weight and the number of rows are checked by conversions that end the run.  So a
rejected submission is isolated exactly when its weights and its row count pass those conversions.
-/

namespace CleanWeb
namespace Settle

open Lib Lib.Exec Lib.BTreeMap Dapr Zk Contracts CWEConsumption

variable {x : Externals} {chain : ChainReads} {cfg : Config} {kEpoch : Bytes32}

/-! ## The rejection path -/

/-- At most sixteen rows, and every weight within `u128`. -/
structure Fits (e : ConsumptionSubmitted) : Prop where
  rows : e.workIds.length ≤ maxWorks
  weights : ∀ w ∈ e.weights, w.toNat < 2 ^ 128

/-- The public rows of a submission whose weights fit. -/
def publicRows (e : ConsumptionSubmitted) : List PublicRow :=
  (e.workIds.zip (e.pseudonyms.zip e.weights)).map fun r =>
    { workId := r.1, commitment := 0, pseudonym := r.2.1, weight := r.2.2.toNat }

/-- The digest recomputed from a submission's rows. -/
def recomputedDigest (poseidonHash : PoseidonHash) (epoch : Nat) (kEpoch : Bytes32)
    (e : ConsumptionSubmitted) : Exec ProveError Bytes32 :=
  digestFromActive poseidonHash epoch e.tierId kEpoch (publicRows e)

/-- Re-verification fails: too many rows, a weight too wide, or another digest. -/
def FailsReverification (poseidonHash : PoseidonHash) (epoch : Nat) (kEpoch : Bytes32)
    (e : ConsumptionSubmitted) : Prop :=
  ¬ Fits e ∨ recomputedDigest poseidonHash epoch kEpoch e ≠ .ok e.digest

theorem activeRows_of_fits {e : ConsumptionSubmitted} (hfit : Fits e) :
    activeRows e = .ok (publicRows e) := by
  have hrow : ∀ r ∈ e.workIds.zip (e.pseudonyms.zip e.weights), activeRow r =
      .ok { workId := r.1, commitment := 0, pseudonym := r.2.1, weight := r.2.2.toNat } := by
    intro r hr
    have hweight : r.2.2.toNat < 2 ^ 128 :=
      hfit.weights r.2.2 (List.of_mem_zip (List.of_mem_zip hr).2).2
    rw [activeRow, tryU128, if_pos hweight]
    rfl
  unfold activeRows publicRows
  generalize e.workIds.zip (e.pseudonyms.zip e.weights) = rs at hrow ⊢
  induction rs with
  | nil =>
      rfl
  | cons r rs ih =>
      rw [List.mapM_cons, hrow r (by simp), ok_bind, ih fun r' hr' => hrow r' (by simp [hr'])]
      rfl

theorem recomputedDigest_of_fits (poseidonHash : PoseidonHash) (epoch : Nat) (kEpoch : Bytes32)
    {e : ConsumptionSubmitted} (hwf : WellFormed e) (hfit : Fits e) :
    ∃ d, recomputedDigest poseidonHash epoch kEpoch e = .ok d := by
  have hlen : (publicRows e).length = e.workIds.length := by
    simp [publicRows, hwf.pseudonyms, hwf.weights]
  have hrows := hfit.rows
  unfold recomputedDigest digestFromActive
  rw [if_neg (by omega)]
  exact ⟨_, rfl⟩

/-- What one well-formed log entry does, once its rows fit. -/
theorem eventStep_of_fits {e : ConsumptionSubmitted} (hwf : WellFormed e) (hfit : Fits e)
    (st : EventPass) :
    eventStep x chain cfg kEpoch st e =
      mapErr .prove (recomputedDigest x.poseidonHash cfg.epoch kEpoch e) >>= fun expected =>
        if expected ≠ e.digest then pure st
        else rpc (chain.feeOf e.tierId) >>= fun fee => tryU128 fee >>= fun paid =>
          pure ⟨st.tierFees.insert (Address.display x.hex e.user) paid,
            st.rows ++ (publicRows e).map (paidRow x (Address.display x.hex e.user))⟩ := by
  unfold eventStep
  dsimp only
  rw [if_neg (by simp [hwf.pseudonyms, hwf.weights]), activeRows_of_fits hfit]
  rfl

/-- A mismatched digest drops the submission and nothing else. -/
theorem eventStep_of_mismatch {e : ConsumptionSubmitted} (hwf : WellFormed e) (hfit : Fits e)
    (hne : recomputedDigest x.poseidonHash cfg.epoch kEpoch e ≠ .ok e.digest) (st : EventPass) :
    eventStep x chain cfg kEpoch st e = .ok st := by
  rw [eventStep_of_fits hwf hfit]
  rcases recomputedDigest_of_fits x.poseidonHash cfg.epoch kEpoch hwf hfit with ⟨d, hd⟩
  have hdne : d ≠ e.digest := by
    rintro rfl
    exact hne hd
  rw [hd]
  simp [mapErr, hdne, pure, Except.pure]

/-- A weight that is too wide stops the conversion of the rows. -/
theorem activeRows_of_wide {e : ConsumptionSubmitted} (hwf : WellFormed e)
    (hwide : ∃ w ∈ e.weights, 2 ^ 128 ≤ w.toNat) : ∃ t, activeRows e = .error t := by
  cases hrows : activeRows e with
  | error t =>
      exact ⟨t, rfl⟩
  | ok active =>
      rcases hwide with ⟨w, hw, hbig⟩
      have hmeets : Meets (activeRows e) (List.Forall₂ (fun r _ => r.2.2.toNat < 2 ^ 128)
          (e.workIds.zip (e.pseudonyms.zip e.weights))) (fun _ => True) := by
        refine meets_mapM ?_
        intro r hr
        unfold activeRow tryU128
        split
        · rename_i hlt
          exact hlt
        · trivial
      have hall := hmeets.of_ok hrows
      rcases List.mem_iff_getElem.1 hw with ⟨i, hi, rfl⟩
      have hlen : i < (e.workIds.zip (e.pseudonyms.zip e.weights)).length := by
        simp only [List.length_zip, hwf.pseudonyms, hwf.weights] at hi ⊢
        omega
      have hlt := hall.get hlen (by rw [← hall.length_eq]; exact hlen)
      simp only [List.get_eq_getElem, List.getElem_zip] at hlt
      omega

/-- A submission that does not fit ends the run, wherever it stands. -/
theorem eventStep_of_not_fits (x : Externals) (chain : ChainReads) (cfg : Config)
    (kEpoch : Bytes32) {e : ConsumptionSubmitted} (hwf : WellFormed e) (hfit : ¬ Fits e)
    (st : EventPass) : ∃ t, eventStep x chain cfg kEpoch st e = .error t := by
  unfold eventStep
  dsimp only
  rw [if_neg (by simp [hwf.pseudonyms, hwf.weights])]
  by_cases hwide : ∃ w ∈ e.weights, 2 ^ 128 ≤ w.toNat
  · rcases activeRows_of_wide hwf hwide with ⟨t, ht⟩
    exact ⟨t, by rw [ht]; rfl⟩
  · -- The weights fit, so there are too many rows.
    have hlong : maxWorks < (publicRows e).length := by
      by_contra hshort
      refine hfit ⟨?_, ?_⟩
      · simpa [publicRows, hwf.pseudonyms, hwf.weights] using hshort
      · intro w hw
        by_contra hbig
        exact hwide ⟨w, hw, by omega⟩
    cases hrows : activeRows e with
    | error t =>
        exact ⟨t, rfl⟩
    | ok active =>
        have hlen : active.length = (publicRows e).length := by
          have hmeets : Meets (activeRows e) (List.Forall₂ (fun _ _ => True)
              (e.workIds.zip (e.pseudonyms.zip e.weights))) (fun _ => True) :=
            meets_mapM fun r _ => by
              unfold activeRow tryU128
              split <;> trivial
          have hcount := (hmeets.of_ok hrows).length_eq
          simpa [publicRows] using hcount.symm
        refine ⟨.err (.prove .tooManyWorks), ?_⟩
        rw [ok_bind, digestFromActive, if_pos (by omega)]
        rfl

/-! ## The run around a rejected submission -/

theorem runEvents_drop {e : ConsumptionSubmitted} (hwf : WellFormed e) (hfit : Fits e)
    (hne : ∀ k, chain.keyFor cfg.epoch = some k →
      recomputedDigest x.poseidonHash cfg.epoch k e ≠ .ok e.digest)
    (pre post : List ConsumptionSubmitted) :
    runEvents x chain cfg (pre ++ e :: post) = runEvents x chain cfg (pre ++ post) := by
  unfold runEvents
  cases hkey : chain.keyFor cfg.epoch with
  | none =>
      rfl
  | some k =>
      have hskip : ∀ st, eventStep x chain cfg k st e = .ok st :=
        eventStep_of_mismatch hwf hfit (hne k hkey)
      have hfold : (pre ++ e :: post).foldlM (eventStep x chain cfg k) ⟨∅, []⟩ =
          (pre ++ post).foldlM (eventStep x chain cfg k) ⟨∅, []⟩ := by
        rw [List.foldlM_append, List.foldlM_append]
        refine congrArg _ ?_
        funext st
        rw [List.foldlM_cons, hskip, ok_bind]
      simp only [rpc, okOr, ok_bind, hfold]

theorem runEvents_of_not_fits (x : Externals) (chain : ChainReads) (cfg : Config)
    {e : ConsumptionSubmitted} (hwf : WellFormed e) (hfit : ¬ Fits e)
    (pre post : List ConsumptionSubmitted) :
    ∃ t, runEvents x chain cfg (pre ++ e :: post) = .error t := by
  unfold runEvents
  cases hkey : chain.keyFor cfg.epoch with
  | none =>
      exact ⟨_, rfl⟩
  | some k =>
      simp only [rpc, okOr, ok_bind]
      rw [List.foldlM_append]
      cases hpre : pre.foldlM (eventStep x chain cfg k) ⟨∅, []⟩ with
      | error t =>
          exact ⟨t, rfl⟩
      | ok st =>
          rcases eventStep_of_not_fits x chain cfg k hwf hfit st with ⟨t, ht⟩
          refine ⟨t, ?_⟩
          rw [ok_bind, List.foldlM_cons, ht]
          rfl

/-! ## One honest submission settles -/

/-- A subscriber with one row of weight one, under the digest of that row. -/
def honest (poseidonHash : PoseidonHash) (epoch : Nat) (kEpoch : Bytes32) (user : Address) :
    ConsumptionSubmitted :=
  { user := user
    epoch := epoch
    tierId := 0
    digest := digest poseidonHash epoch 0 kEpoch
      ({ workId := 1, commitment := 0, pseudonym := 0, weight := 1 } ::
        List.replicate 15 (publicRowOf (paddedRow poseidonHash kEpoch)))
    pseudonyms := [0]
    workIds := [1]
    weights := [1] }

/-- Every tier costs one, and the epoch's key is `kEpoch`. -/
def flatFees (kEpoch : Bytes32) : ChainReads :=
  { keyFor := fun _ => some kEpoch
    feeOf := fun _ => some 1
    isValid := fun _ _ => none
    bandwidthRateOf := fun _ => none }

/-- The epoch without a receipt bundle. -/
def plainConfig (epoch : Nat) : Config :=
  { epoch := epoch, minEpochBytes := 0, receipts := none, sidecarWritable := true }

theorem honest_wellFormed (poseidonHash : PoseidonHash) (epoch : Nat) (kEpoch : Bytes32)
    (user : Address) : WellFormed (honest poseidonHash epoch kEpoch user) :=
  ⟨by simp [honest], by simp [honest], by simp [honest]⟩

theorem honest_fits (poseidonHash : PoseidonHash) (epoch : Nat) (kEpoch : Bytes32)
    (user : Address) : Fits (honest poseidonHash epoch kEpoch user) := by
  refine ⟨by simp [honest, maxWorks], ?_⟩
  intro w hw
  have hone : w = 1 := by simpa [honest] using hw
  simp [hone]

section Single

variable (user : UserId) (work : WorkId)

theorem rowsOf_single (v : UserId) :
    rowsOf [⟨user, work, 1⟩] [1000000] v =
      if user = v then [(⟨user, work, 1⟩, 1000000)] else [] := by
  by_cases h : user = v
  · simp [rowsOf, h]
  · simp [rowsOf, h]

theorem not_feesOverflow_single :
    ¬ FeesOverflow (rowsOf [⟨user, work, 1⟩] [1000000]) [(user, 1)] := by
  rintro (⟨u, hu, h⟩ | ⟨w, h⟩ | ⟨u, hu, e, he, h⟩)
  · have hu' : u = (user, 1) := by simpa using hu
    simp [hu', rowsOf_single, rawSum] at h
  · have hle : credOn w (rowsOf [⟨user, work, 1⟩] [1000000] user) ≤ 1 := by
      rw [rowsOf_single, if_pos rfl, credOn_singleton]
      split <;> simp [credOf]
    simp only [usageOn, List.map_cons, List.map_nil, List.sum_cons, List.sum_nil] at h
    omega
  · have hu' : u = (user, 1) := by simpa using hu
    subst hu'
    simp only [rowsOf_single, if_true, List.mem_singleton] at he h
    subst he
    simp [paidOf, credSum, rawSum, credOf] at h

/-- A fee of one over a single row of weight one is allocated to that row's work. -/
theorem allocateFromRaw_single :
    ∃ p, allocateFromRaw ((∅ : BTreeMap UserId Nat).insert user 1) [⟨user, work, 1⟩] ∅ = .ok p ∧
      total p.perWork = 1 ∧ ∀ w ∈ p.perWork, w = work := by
  have hfees : total ((∅ : BTreeMap UserId Nat).insert user 1) < 2 ^ 128 := by
    simp [total, toList_insert_empty]
  have hrows : ∀ u, (rowsOf [⟨user, work, 1⟩] [1000000] u).length < 2 ^ 64 := by
    intro u
    rw [rowsOf_single]
    split <;> simp
  have hmeets := allocateFromRawWithRowCredibility_meets rfl hrows hfees
  rw [toList_insert_empty] at hmeets
  have hbw : allocateFromRaw ((∅ : BTreeMap UserId Nat).insert user 1) [⟨user, work, 1⟩] ∅ =
      allocateFromRawWithRowCredibility ((∅ : BTreeMap UserId Nat).insert user 1)
        [⟨user, work, 1⟩] [1000000] := by
    simp [allocateFromRaw, bwPpm]
  rw [hbw]
  cases halloc : allocateFromRawWithRowCredibility ((∅ : BTreeMap UserId Nat).insert user 1)
      [⟨user, work, 1⟩] [1000000] with
  | error t =>
      exact absurd (hmeets.of_error halloc).2 (not_feesOverflow_single user work)
  | ok p =>
      have hp := hmeets.of_ok halloc
      refine ⟨p, rfl, ?_, ?_⟩
      · rw [hp.paid, toList_insert_empty]
        simp [rowsOf_single, paidOf, credSum, rawSum, credOf]
      · intro w hw
        rcases hp.credited w hw with ⟨r, hr, rfl⟩
        rw [List.mem_singleton.1 hr]

end Single

/-- An honest submission adds the fee of tier 0 and its row. -/
theorem eventStep_honest {fee : Nat} (hfee : chain.feeOf 0 = some fee) (hfit : fee < 2 ^ 128)
    (user : Address) (st : EventPass) :
    eventStep x chain cfg kEpoch st (honest x.poseidonHash cfg.epoch kEpoch user) =
      .ok ⟨st.tierFees.insert (Address.display x.hex user) fee,
        st.rows ++ [⟨Address.display x.hex user, Bytes32.display x.hex 1, 1⟩]⟩ := by
  rw [eventStep_of_fits (honest_wellFormed _ _ _ _) (honest_fits _ _ _ _)]
  have hdigest : recomputedDigest x.poseidonHash cfg.epoch kEpoch
      (honest x.poseidonHash cfg.epoch kEpoch user) =
      .ok (honest x.poseidonHash cfg.epoch kEpoch user).digest := by
    rfl
  have htier : (honest x.poseidonHash cfg.epoch kEpoch user).tierId = 0 := rfl
  have hpaid : tryU128 fee = .ok fee := if_pos hfit
  rw [hdigest, htier, hfee]
  simp [mapErr, rpc, okOr, hpaid, honest, publicRows, paidRow, pure, Except.pure]

/-- An epoch with one honest submission settles. -/
theorem runEvents_honest (x : Externals) (epoch : Nat) (kEpoch : Bytes32) (user : Address) :
    ∃ s, runEvents x (flatFees kEpoch) (plainConfig epoch)
      [honest x.poseidonHash epoch kEpoch user] = .ok s := by
  rcases allocateFromRaw_single (Address.display x.hex user) (Bytes32.display x.hex 1) with
    ⟨p, halloc, htotal, hkeys⟩
  have hfinal := finalize_meets x.hex x.keccak256 ∅ epoch p
  cases hx : finalize x.hex x.keccak256 epoch p ∅ with
  | ok s =>
      refine ⟨s, ?_⟩
      have hkey : rpc ((flatFees kEpoch).keyFor (plainConfig epoch).epoch) = .ok kEpoch := rfl
      have hstep : eventStep x (flatFees kEpoch) (plainConfig epoch) kEpoch ⟨∅, []⟩
          (honest x.poseidonHash epoch kEpoch user) = _ :=
        @eventStep_honest x (flatFees kEpoch) (plainConfig epoch) kEpoch 1 rfl (by decide) user _
      unfold runEvents
      rw [hkey, ok_bind, List.foldlM_cons, hstep, ok_bind, List.foldlM_nil]
      change mapErr RunError.settle (settleRaw x.hex x.keccak256 epoch
        ((∅ : BTreeMap UserId Nat).insert (Address.display x.hex user) 1)
        [⟨Address.display x.hex user, Bytes32.display x.hex 1, 1⟩] ∅ ∅) = .ok s
      rw [mapErr_eq_ok, settleRaw, halloc]
      exact hx
  | error t =>
      -- One credit of one, under a canonical id, leaves nothing to stop on.
      cases hfinal.of_error hx with
      | noCredits hnil =>
          simp [total, hnil] at htotal
      | badWorkId work a hmem hbad =>
          have hkey : work ∈ p.perWork :=
            Std.ExtTreeMap.mem_iff_isSome_getElem?.2 (by simp [mem_toList.1 hmem])
          exact absurd (Bytes32.fromStr_display x.hex 1) (hkeys work hkey ▸ hbad 1)
      | overflow hsum =>
          have hle : 2 ^ 128 ≤ total p.perWork := hsum
          omega

/-! ## Isolation -/

/-- In every log that the contract can emit, whatever the rest of the chain says, the run with `e`
is the run without it. -/
def Isolated (x : Externals) (epoch : Nat) (kEpoch : Bytes32) (e : ConsumptionSubmitted) : Prop :=
  ∀ (chain : ChainReads) (cfg : Config) (pre post : List ConsumptionSubmitted),
    chain.keyFor epoch = some kEpoch → cfg.epoch = epoch → EmittedFor epoch (pre ++ e :: post) →
    runEvents x chain cfg (pre ++ e :: post) = runEvents x chain cfg (pre ++ post)

/-- A submission that does not fit makes an otherwise settled epoch fail. -/
theorem not_isolated_of_not_fits (x : Externals) {epoch : Nat} (kEpoch : Bytes32)
    {e : ConsumptionSubmitted} (hwf : WellFormed e) (hepoch : e.epoch = epoch)
    (hfit : ¬ Fits e) : ¬ Isolated x epoch kEpoch e := by
  intro hiso
  let other := honest x.poseidonHash epoch kEpoch (e.user + 1)
  have huser : other.user ≠ e.user := by
    intro heq
    have hone : e.user + 1 = e.user := heq
    simp at hone
  have hemitted : EmittedFor epoch ([] ++ e :: [other]) := by
    rw [emittedFor_iff]
    refine ⟨?_, by simpa using huser.symm⟩
    intro a ha
    rcases List.mem_pair.1 ha with rfl | rfl
    · exact ⟨hwf, hepoch⟩
    · exact ⟨honest_wellFormed _ _ _ _, rfl⟩
  have heq := hiso (flatFees kEpoch) (plainConfig epoch) [] [other] rfl rfl hemitted
  rcases runEvents_honest x epoch kEpoch (e.user + 1) with ⟨s, hs⟩
  rcases runEvents_of_not_fits x (flatFees kEpoch) (plainConfig epoch) hwf hfit [] [other]
    with ⟨t, ht⟩
  have hok : runEvents x (flatFees kEpoch) (plainConfig epoch) ([] ++ [other]) = .ok s := hs
  rw [ht, hok] at heq
  cases heq

/-- A submission that fails re-verification is dropped alone exactly when it has at most sixteen
rows and every weight fits `u128`, so that only its digest is at fault. -/
theorem isolated_iff_fits (x : Externals) {epoch : Nat} {kEpoch : Bytes32}
    {e : ConsumptionSubmitted} (hwf : WellFormed e) (hepoch : e.epoch = epoch)
    (hrej : FailsReverification x.poseidonHash epoch kEpoch e) :
    Isolated x epoch kEpoch e ↔ Fits e := by
  constructor
  · intro hiso
    by_contra hfit
    exact not_isolated_of_not_fits x kEpoch hwf hepoch hfit hiso
  · intro hfit chain cfg pre post hkey hcfg _
    have hne : recomputedDigest x.poseidonHash epoch kEpoch e ≠ .ok e.digest :=
      hrej.resolve_left (not_not.2 hfit)
    refine runEvents_drop hwf hfit ?_ pre post
    intro k hk
    rw [hcfg] at hk ⊢
    have hsame : k = kEpoch := Option.some.inj (hk.symm.trans hkey)
    rw [hsame]
    exact hne

/-- One row whose weight is `2 ^ 128`. -/
def wideSubmission : ConsumptionSubmitted :=
  { user := 1
    epoch := 3
    tierId := 0
    digest := 0
    pseudonyms := [0]
    workIds := [1]
    weights := [2 ^ 128] }

theorem wideSubmission_wellFormed : WellFormed wideSubmission :=
  ⟨by decide, by decide, by decide⟩

theorem wideSubmission_not_fits : ¬ Fits wideSubmission := by
  intro hfit
  have hweight := hfit.weights (2 ^ 128) (by simp [wideSubmission])
  exact absurd hweight (by decide +kernel)

/-- Hashes that know no string, and no signature. -/
def bareExternals : Externals :=
  ⟨Hex.codec, Keccak.ofTable [], fun _ => 0, fun _ _ => none⟩

/-- It fails re-verification and is not dropped alone. -/
theorem wideSubmission_not_isolated :
    WellFormed wideSubmission ∧
      FailsReverification bareExternals.poseidonHash 3 7 wideSubmission ∧
      ¬ Isolated bareExternals 3 7 wideSubmission := by
  refine ⟨wideSubmission_wellFormed, Or.inl wideSubmission_not_fits, ?_⟩
  exact not_isolated_of_not_fits bareExternals 7 wideSubmission_wellFormed rfl
    wideSubmission_not_fits

/-- The condition at `wideSubmission`. -/
theorem isolated_iff_fits_wide :
    Isolated bareExternals 3 7 wideSubmission ↔ Fits wideSubmission :=
  isolated_iff_fits _ wideSubmission_wellFormed rfl (Or.inl wideSubmission_not_fits)

end Settle
end CleanWeb
