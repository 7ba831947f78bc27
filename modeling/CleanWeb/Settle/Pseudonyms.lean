import CleanWeb.Settle.Accepted

/-!
# Pseudonyms across submissions

The pass over the log forgets under which pseudonym a row was submitted.  A tagged pass keeps it
beside the pass of `run_events`.  No pseudonym is looked up in what was collected before, so each
is paid once only if the accepted submissions never repeat one.
-/

namespace CleanWeb
namespace Settle

open Lib Lib.Exec Lib.BTreeMap Dapr Zk Contracts CWEConsumption

variable {x : Externals} {chain : ChainReads} {cfg : Config} {kEpoch : Bytes32}
variable {logs : List ConsumptionSubmitted}

/-! ## The tagged pass -/

/-- The accumulators of the pass, and the pseudonym of every row collected. -/
structure TaggedPass where
  pass : EventPass
  pseudonyms : List Bytes32

/-- The collected rows, each under its pseudonym. -/
def TaggedPass.rows (st : TaggedPass) : List (Bytes32 × RawRow) :=
  st.pseudonyms.zip st.pass.rows

/-- `eventStep`; the rows it collects carry the event's pseudonyms, in order. -/
def taggedStep (x : Externals) (chain : ChainReads) (cfg : Config) (kEpoch : Bytes32)
    (st : TaggedPass) (event : ConsumptionSubmitted) : Exec RunError TaggedPass := do
  let next ← eventStep x chain cfg kEpoch st.pass event
  let collected := next.rows.length - st.pass.rows.length
  pure { pass := next, pseudonyms := st.pseudonyms ++ event.pseudonyms.take collected }

theorem taggedStep_of_eventStep {st : TaggedPass} {e : ConsumptionSubmitted} {next : EventPass}
    (h : eventStep x chain cfg kEpoch st.pass e = .ok next) :
    taggedStep x chain cfg kEpoch st e =
      .ok ⟨next, st.pseudonyms ++ e.pseudonyms.take (next.rows.length - st.pass.rows.length)⟩ := by
  rw [taggedStep, h]
  rfl

/-- Without its tags the tagged pass is the pass of `run_events`. -/
theorem foldlM_pass {st out : TaggedPass}
    (h : logs.foldlM (taggedStep x chain cfg kEpoch) st = .ok out) :
    logs.foldlM (eventStep x chain cfg kEpoch) st.pass = .ok out.pass := by
  induction logs generalizing st with
  | nil =>
      cases h
      rfl
  | cons e logs ih =>
      rw [List.foldlM_cons] at h ⊢
      rcases bind_eq_ok.1 h with ⟨st', hstep, hrest⟩
      rcases bind_eq_ok.1 hstep with ⟨next, hnext, hst'⟩
      rw [hnext, ok_bind]
      have hpass : st'.pass = next := by rw [← Except.ok.inj hst']
      rw [← hpass]
      exact ih hrest

theorem pseudonyms_of_publicRows {e : ConsumptionSubmitted}
    (hpseudonyms : e.pseudonyms.length = e.workIds.length)
    (hweights : e.weights.length = e.workIds.length) :
    (publicRows e).map (·.pseudonym) = e.pseudonyms := by
  have hinner : (e.pseudonyms.zip e.weights).map Prod.fst = e.pseudonyms :=
    List.map_fst_zip (by omega)
  have houter : (e.workIds.zip (e.pseudonyms.zip e.weights)).map Prod.snd =
      e.pseudonyms.zip e.weights := by
    apply List.map_snd_zip
    rw [List.length_zip]
    omega
  calc (publicRows e).map (·.pseudonym)
      = ((e.workIds.zip (e.pseudonyms.zip e.weights)).map Prod.snd).map Prod.fst := by
        simp [publicRows, Function.comp_def]
    _ = e.pseudonyms := by rw [houter, hinner]

/-- The tagged rows are the accepted submissions' rows, under the pseudonyms submitted. -/
theorem taggedPass_rows {st out : TaggedPass} (hst : st.pseudonyms.length = st.pass.rows.length)
    (h : logs.foldlM (taggedStep x chain cfg kEpoch) st = .ok out) :
    out.rows = st.rows ++ (acceptedOf x.poseidonHash cfg.epoch kEpoch logs).flatMap fun e =>
      (publicRows e).map fun row =>
        (row.pseudonym, paidRow x (Address.display x.hex e.user) row) := by
  induction logs generalizing st with
  | nil =>
      cases h
      simp [acceptedOf]
  | cons e logs ih =>
      rw [List.foldlM_cons] at h
      rcases bind_eq_ok.1 h with ⟨st', hstep, hrest⟩
      rcases bind_eq_ok.1 hstep with ⟨next, hnext, hst'⟩
      have heq := (Except.ok.inj hst').symm
      subst heq
      rcases eventStep_cases hnext with ⟨hacc, fee, -, -, rfl⟩ | ⟨hrej, rfl⟩
      · -- As many tags are added as rows.
        have htags := pseudonyms_of_publicRows hacc.1 hacc.2.1
        have hlen : e.pseudonyms.length = (publicRows e).length := by
          rw [← htags, List.length_map]
        have htake : e.pseudonyms.take ((st.pass.rows ++ (publicRows e).map
            (paidRow x (Address.display x.hex e.user))).length - st.pass.rows.length) =
              e.pseudonyms := by
          apply List.take_of_length_le
          rw [List.length_append, List.length_map]
          omega
        dsimp only at hrest
        rw [htake] at hrest
        rw [ih (by simp [hst, hlen]) hrest]
        have hnew : e.pseudonyms.zip ((publicRows e).map
            (paidRow x (Address.display x.hex e.user))) =
              (publicRows e).map fun row =>
                (row.pseudonym, paidRow x (Address.display x.hex e.user) row) := by
          rw [← htags, List.zip_map']
        simp [acceptedOf, hacc, TaggedPass.rows, List.zip_append hst, hnew]
      · rw [Nat.sub_self, List.take_zero, List.append_nil] at hrest
        rw [ih hst hrest]
        simp [acceptedOf, hrej, TaggedPass.rows]

/-! ## Paying a pseudonym once -/

/-- No two rows of non-zero weight carry the same pseudonym. -/
def PaidOnce (rows : List (Bytes32 × RawRow)) : Prop :=
  (rows.filter fun r => r.2.raw ≠ 0).Pairwise fun a b => a.1 ≠ b.1

/-- The rows of a submission that weigh something. -/
def weighing (e : ConsumptionSubmitted) : List PublicRow :=
  (publicRows e).filter fun r => r.weight ≠ 0

/-- No submission repeats a pseudonym, and no two share one. -/
def DistinctPseudonyms (events : List ConsumptionSubmitted) : Prop :=
  (∀ e ∈ events, (weighing e).Pairwise fun a b => a.pseudonym ≠ b.pseudonym) ∧
    events.Pairwise fun e₁ e₂ =>
      ∀ a ∈ weighing e₁, ∀ b ∈ weighing e₂, a.pseudonym ≠ b.pseudonym

theorem paidOnce_flatMap (x : Externals) (events : List ConsumptionSubmitted) :
    PaidOnce (events.flatMap fun e => (publicRows e).map fun row =>
        (row.pseudonym, paidRow x (Address.display x.hex e.user) row)) ↔
      DistinctPseudonyms events := by
  -- The weight of a paid row is that of the public row it was made from.
  have hfilter : ∀ e : ConsumptionSubmitted,
      ((publicRows e).map fun row =>
        (row.pseudonym, paidRow x (Address.display x.hex e.user) row)).filter
          (fun r => r.2.raw ≠ 0) =
        (weighing e).map fun row =>
          (row.pseudonym, paidRow x (Address.display x.hex e.user) row) := by
    intro e
    rw [weighing, List.filter_map]
    rfl
  rw [PaidOnce, List.filter_flatMap, List.pairwise_flatMap, DistinctPseudonyms]
  simp only [hfilter, List.pairwise_map, List.forall_mem_map]

/-- After a pass over the log, what `run_events` pays from are the tagged rows, and no pseudonym is
paid twice exactly when the accepted submissions of the log do not repeat one. -/
theorem paid_once_iff (x : Externals) (chain : ChainReads) (cfg : Config) (kEpoch : Bytes32)
    (logs : List ConsumptionSubmitted) (out : TaggedPass)
    (hkey : chain.keyFor cfg.epoch = some kEpoch)
    (hout : logs.foldlM (taggedStep x chain cfg kEpoch) ⟨⟨∅, []⟩, []⟩ = .ok out) :
    runEvents x chain cfg logs = payAccepted x chain cfg out.pass ∧
      (PaidOnce out.rows ↔
        DistinctPseudonyms (acceptedOf x.poseidonHash cfg.epoch kEpoch logs)) := by
  refine ⟨runEvents_of_pass hkey (foldlM_pass hout), ?_⟩
  rw [taggedPass_rows rfl hout, ← paidOnce_flatMap x]
  rfl

/-! ## A copied submission -/

/-- A submission and its copy by another user. -/
def sampleCopies : List ConsumptionSubmitted :=
  [honest bareExternals.poseidonHash 3 7 1, honest bareExternals.poseidonHash 3 7 2]

theorem sampleCopies_emitted : EmittedFor 3 sampleCopies := by
  rw [emittedFor_iff]
  refine ⟨?_, by decide⟩
  intro e he
  rcases List.mem_pair.1 he with rfl | rfl
  · exact ⟨honest_wellFormed _ _ _ _, rfl⟩
  · exact ⟨honest_wellFormed _ _ _ _, rfl⟩

theorem taggedStep_honest (st : TaggedPass) (user : Address) :
    taggedStep bareExternals (flatFees 7) (plainConfig 3) 7 st
        (honest bareExternals.poseidonHash 3 7 user) =
      .ok ⟨⟨st.pass.tierFees.insert (Address.display Hex.codec user) 1,
        st.pass.rows ++ [⟨Address.display Hex.codec user, Bytes32.display Hex.codec 1, 1⟩]⟩,
        st.pseudonyms ++ [0]⟩ := by
  have hstep := @eventStep_honest bareExternals (flatFees 7) (plainConfig 3) 7 1 rfl (by decide)
    user st.pass
  have hepoch : (plainConfig 3).epoch = 3 := rfl
  rw [hepoch] at hstep
  rw [taggedStep_of_eventStep hstep]
  simp [honest, bareExternals]

/-- Two users with the same arrays, digest and proof: the contract emits both, both are accepted,
and the pseudonym is paid twice. -/
theorem sampleCopies_not_paid_once :
    EmittedFor 3 sampleCopies ∧ ∃ out,
      sampleCopies.foldlM (taggedStep bareExternals (flatFees 7) (plainConfig 3) 7)
        ⟨⟨∅, []⟩, []⟩ = .ok out ∧ ¬ PaidOnce out.rows := by
  refine ⟨sampleCopies_emitted, ?_⟩
  rw [sampleCopies, List.foldlM_cons, taggedStep_honest, ok_bind, List.foldlM_cons,
    taggedStep_honest, ok_bind, List.foldlM_nil]
  refine ⟨_, rfl, ?_⟩
  simp [PaidOnce, TaggedPass.rows]

/-! ## Submissions under pseudonyms of their own -/

/-- Two rows, of weights one and two. -/
def twoRows (user : Address) (digest first second : Bytes32) : ConsumptionSubmitted :=
  { user := user
    epoch := 3
    tierId := 0
    digest := digest
    pseudonyms := [first, second]
    workIds := [1, 2]
    weights := [1, 2] }

theorem twoRows_wellFormed (user : Address) (digest first second : Bytes32) :
    WellFormed (twoRows user digest first second) :=
  ⟨by simp [twoRows], by simp [twoRows], by simp [twoRows]⟩

theorem twoRows_fits (user : Address) (digest first second : Bytes32) :
    Fits (twoRows user digest first second) := by
  refine ⟨by simp [twoRows, maxWorks], ?_⟩
  intro w hw
  have hone : w = 1 ∨ w = 2 := by simpa [twoRows] using hw
  rcases hone with rfl | rfl <;> decide

theorem recomputedDigest_twoRows (user : Address) (digest first second : Bytes32) :
    recomputedDigest bareExternals.poseidonHash 3 7 (twoRows user digest first second) = .ok 0 :=
  rfl

theorem accepted_twoRows_iff (user : Address) (digest first second : Bytes32) :
    Accepted bareExternals.poseidonHash 3 7 (twoRows user digest first second) ↔ digest = 0 := by
  have hfits := (twoRows_fits user digest first second).2
  rw [Accepted, recomputedDigest_twoRows, Except.ok.injEq]
  exact ⟨fun h => h.2.2.2.symm, fun h => ⟨rfl, rfl, hfits, h.symm⟩⟩

theorem weighing_twoRows (user : Address) (digest first second : Bytes32) :
    weighing (twoRows user digest first second) =
      [{ workId := 1, commitment := 0, pseudonym := first, weight := 1 },
        { workId := 2, commitment := 0, pseudonym := second, weight := 2 }] :=
  rfl

/-- Two listeners' submissions; the third repeats the pseudonyms of the first under a digest that
is not that of its rows. -/
def sampleMixed : List ConsumptionSubmitted :=
  [twoRows 1 0 10 11, twoRows 2 0 12 13, twoRows 3 1 10 11]

theorem taggedStep_twoRows (user : Address) (first second : Bytes32) (st : TaggedPass) :
    ∃ st', taggedStep bareExternals (flatFees 7) (plainConfig 3) 7 st
      (twoRows user 0 first second) = .ok st' := by
  have hfee : rpc ((flatFees 7).feeOf (twoRows user 0 first second).tierId) = .ok 1 := rfl
  have hpaid : tryU128 1 = .ok 1 := if_pos (by decide)
  have hexpected : mapErr RunError.prove (recomputedDigest bareExternals.poseidonHash
      (plainConfig 3).epoch 7 (twoRows user 0 first second)) = .ok 0 := rfl
  have hsame : ¬ 0 ≠ (twoRows user 0 first second).digest := not_not.2 rfl
  have hstep := @eventStep_of_fits bareExternals (flatFees 7) (plainConfig 3) 7 _
    (twoRows_wellFormed user 0 first second) (twoRows_fits user 0 first second) st.pass
  rw [hexpected, ok_bind, if_neg hsame, hfee, ok_bind, hpaid, ok_bind] at hstep
  exact ⟨_, taggedStep_of_eventStep hstep⟩

theorem taggedStep_twoRows_mismatch (user : Address) (first second : Bytes32) (st : TaggedPass) :
    ∃ st', taggedStep bareExternals (flatFees 7) (plainConfig 3) 7 st
      (twoRows user 1 first second) = .ok st' := by
  have hne : recomputedDigest bareExternals.poseidonHash (plainConfig 3).epoch 7
      (twoRows user 1 first second) ≠ .ok (twoRows user 1 first second).digest := by
    intro h
    have hzero : (0 : Bytes32) = 1 :=
      Except.ok.inj ((recomputedDigest_twoRows user 1 first second).symm.trans h)
    exact absurd hzero (by decide)
  exact ⟨_, taggedStep_of_eventStep (eventStep_of_mismatch (twoRows_wellFormed user 1 first second)
    (twoRows_fits user 1 first second) hne st.pass)⟩

/-- The third submission is not accepted, and of the others no pseudonym is paid twice. -/
theorem sampleMixed_paid_once :
    ∃ out, sampleMixed.foldlM (taggedStep bareExternals (flatFees 7) (plainConfig 3) 7)
        ⟨⟨∅, []⟩, []⟩ = .ok out ∧ PaidOnce out.rows := by
  rcases taggedStep_twoRows 1 10 11 ⟨⟨∅, []⟩, []⟩ with ⟨st₁, hst₁⟩
  rcases taggedStep_twoRows 2 12 13 st₁ with ⟨st₂, hst₂⟩
  rcases taggedStep_twoRows_mismatch 3 10 11 st₂ with ⟨out, hout⟩
  have hpass : sampleMixed.foldlM (taggedStep bareExternals (flatFees 7) (plainConfig 3) 7)
      ⟨⟨∅, []⟩, []⟩ = .ok out := by
    rw [sampleMixed, List.foldlM_cons, hst₁, ok_bind, List.foldlM_cons, hst₂, ok_bind,
      List.foldlM_cons, hout, ok_bind]
    rfl
  refine ⟨out, hpass,
    (paid_once_iff bareExternals (flatFees 7) (plainConfig 3) 7 sampleMixed out rfl hpass).2.2 ?_⟩
  have haccepted : acceptedOf bareExternals.poseidonHash 3 7 sampleMixed =
      [twoRows 1 0 10 11, twoRows 2 0 12 13] := by
    have hne : (1 : Bytes32) ≠ 0 := by decide
    simp only [acceptedOf, sampleMixed, List.filter_cons, List.filter_nil, accepted_twoRows_iff,
      hne, decide_true, decide_false, if_true, if_false, Bool.false_eq_true]
  have hconfig : (plainConfig 3).epoch = 3 := rfl
  rw [hconfig, haccepted, DistinctPseudonyms]
  simp [weighing_twoRows]

end Settle
end CleanWeb
