import CleanWeb.Settle.Isolation

/-!
# Accepted submissions

Which log entries `run_events` takes, and what the pass over the log has collected at its end: the
rows of the accepted submissions in order, and one fee for each submitter.
-/

namespace CleanWeb
namespace Settle

open Lib Lib.Exec Lib.BTreeMap Dapr Zk Contracts

/-! ## One entry -/

/-- Re-verification succeeds: the arrays agree, every weight fits `u128`, and the digest is the
recomputed one. -/
def Accepted (poseidonHash : PoseidonHash) (epoch : Nat) (kEpoch : Bytes32)
    (e : ConsumptionSubmitted) : Prop :=
  e.pseudonyms.length = e.workIds.length ∧ e.weights.length = e.workIds.length ∧
    (∀ w ∈ e.weights, w.toNat < 2 ^ 128) ∧
    recomputedDigest poseidonHash epoch kEpoch e = .ok e.digest

instance (poseidonHash : PoseidonHash) (epoch : Nat) (kEpoch : Bytes32)
    (e : ConsumptionSubmitted) : Decidable (Accepted poseidonHash epoch kEpoch e) :=
  inferInstanceAs (Decidable (_ ∧ _))

variable {x : Externals} {chain : ChainReads} {cfg : Config} {kEpoch : Bytes32}
variable {e : ConsumptionSubmitted} {st st' pass : EventPass} {logs : List ConsumptionSubmitted}

theorem activeRow_eq_ok {r : Bytes32 × Bytes32 × BitVec 256} {row : PublicRow}
    (h : Settle.activeRow r = .ok row) :
    r.2.2.toNat < 2 ^ 128 ∧
      row = { workId := r.1, commitment := 0, pseudonym := r.2.1, weight := r.2.2.toNat } := by
  rcases bind_eq_ok.1 h with ⟨weight, hweight, hrow⟩
  unfold tryU128 at hweight
  split at hweight
  · rename_i hlt
    cases hweight
    exact ⟨hlt, (Except.ok.inj hrow).symm⟩
  · cases hweight

/-- The conversion of the rows succeeds when every weight fits. -/
theorem activeRows_eq_ok {active : List PublicRow}
    (hpseudonyms : e.pseudonyms.length = e.workIds.length)
    (hweights : e.weights.length = e.workIds.length) (h : activeRows e = .ok active) :
    (∀ w ∈ e.weights, w.toNat < 2 ^ 128) ∧ active = publicRows e := by
  have hall : List.Forall₂ (fun r row => r.2.2.toNat < 2 ^ 128 ∧
      row = { workId := r.1, commitment := 0, pseudonym := r.2.1, weight := r.2.2.toNat })
      (e.workIds.zip (e.pseudonyms.zip e.weights)) active :=
    (forall₂_of_mapM h).imp fun _ _ hrow => activeRow_eq_ok hrow
  refine ⟨?_, ?_⟩
  · intro w hw
    rcases List.mem_iff_getElem.1 hw with ⟨i, hi, rfl⟩
    have hlen : i < (e.workIds.zip (e.pseudonyms.zip e.weights)).length := by
      simp only [List.length_zip, hpseudonyms, hweights] at hi ⊢
      omega
    have hrow := (hall.get hlen (hall.length_eq ▸ hlen)).1
    simpa using hrow
  · unfold publicRows
    clear h
    generalize e.workIds.zip (e.pseudonyms.zip e.weights) = rs at hall
    induction hall with
    | nil => rfl
    | cons hrow _ ih => rw [List.map_cons, hrow.2, ih]

/-- A log entry is taken with the fee of its tier, or skipped. -/
theorem eventStep_cases (h : eventStep x chain cfg kEpoch st e = .ok st') :
    (Accepted x.poseidonHash cfg.epoch kEpoch e ∧
      ∃ fee, chain.feeOf e.tierId = some fee ∧ fee < 2 ^ 128 ∧
        st' = ⟨st.tierFees.insert (Address.display x.hex e.user) fee,
          st.rows ++ (publicRows e).map (paidRow x (Address.display x.hex e.user))⟩) ∨
    (¬ Accepted x.poseidonHash cfg.epoch kEpoch e ∧ st' = st) := by
  unfold eventStep at h
  dsimp only at h
  split at h
  · rename_i harity
    refine .inr ⟨?_, (Except.ok.inj h).symm⟩
    rintro ⟨hpseudonyms, hweights, -, -⟩
    simp [hpseudonyms, hweights] at harity
  · rename_i harity
    push Not at harity
    rcases bind_eq_ok.1 h with ⟨active, hactive, h⟩
    rcases activeRows_eq_ok harity.1 harity.2 hactive with ⟨hfit, rfl⟩
    rcases bind_eq_ok.1 h with ⟨expected, hexpected, h⟩
    rw [mapErr_eq_ok] at hexpected
    have hdigest : recomputedDigest x.poseidonHash cfg.epoch kEpoch e = .ok expected := hexpected
    split at h
    · rename_i hne
      refine .inr ⟨?_, (Except.ok.inj h).symm⟩
      rintro ⟨-, -, -, hok⟩
      rw [hdigest] at hok
      exact hne (Except.ok.inj hok)
    · rename_i heq
      have hsame : expected = e.digest := not_not.1 heq
      rw [hsame] at hdigest
      rcases bind_eq_ok.1 h with ⟨fee, hfee, h⟩
      rcases bind_eq_ok.1 h with ⟨paid, hpaid, h⟩
      unfold tryU128 at hpaid
      split at hpaid
      · rename_i hlt
        cases hpaid
        exact .inl ⟨⟨harity.1, harity.2, hfit, hdigest⟩, fee, okOr_eq_ok.1 hfee, hlt,
          (Except.ok.inj h).symm⟩
      · cases hpaid

/-! ## The whole log -/

/-- The submissions the pass takes, in order. -/
def acceptedOf (poseidonHash : PoseidonHash) (epoch : Nat) (kEpoch : Bytes32)
    (logs : List ConsumptionSubmitted) : List ConsumptionSubmitted :=
  logs.filter fun e => Accepted poseidonHash epoch kEpoch e

/-- After its pass, `run_events` pays what the pass has collected. -/
theorem runEvents_of_pass (hkey : chain.keyFor cfg.epoch = some kEpoch)
    (hpass : logs.foldlM (eventStep x chain cfg kEpoch) ⟨∅, []⟩ = .ok pass) :
    runEvents x chain cfg logs = payAccepted x chain cfg pass := by
  unfold runEvents
  rw [hkey]
  change (logs.foldlM (eventStep x chain cfg kEpoch) ⟨∅, []⟩ >>= payAccepted x chain cfg) = _
  rw [hpass]
  rfl

/-- The rows collected are those of the accepted submissions. -/
theorem eventPass_rows (h : logs.foldlM (eventStep x chain cfg kEpoch) st = .ok pass) :
    pass.rows = st.rows ++ (acceptedOf x.poseidonHash cfg.epoch kEpoch logs).flatMap fun e =>
      (publicRows e).map (paidRow x (Address.display x.hex e.user)) := by
  induction logs generalizing st with
  | nil =>
      cases h
      simp [acceptedOf]
  | cons e logs ih =>
      rw [List.foldlM_cons] at h
      rcases bind_eq_ok.1 h with ⟨st', hstep, hrest⟩
      rw [ih hrest]
      rcases eventStep_cases hstep with ⟨hacc, fee, -, -, rfl⟩ | ⟨hrej, rfl⟩
      · simp [acceptedOf, hacc]
      · simp [acceptedOf, hrej]

/-- Of distinct submitters, each accepted one has the fee of the tier it names, and no one else has
an entry. -/
theorem eventPass_fees (h : logs.foldlM (eventStep x chain cfg kEpoch) st = .ok pass)
    (husers : (logs.map (·.user)).Nodup) :
    (∀ e ∈ acceptedOf x.poseidonHash cfg.epoch kEpoch logs,
      pass.tierFees[Address.display x.hex e.user]? = chain.feeOf e.tierId) ∧
    ∀ u, (∀ e ∈ acceptedOf x.poseidonHash cfg.epoch kEpoch logs,
      Address.display x.hex e.user ≠ u) → pass.tierFees[u]? = st.tierFees[u]? := by
  induction logs generalizing st with
  | nil =>
      cases h
      simp [acceptedOf]
  | cons a logs ih =>
      rw [List.foldlM_cons] at h
      rcases bind_eq_ok.1 h with ⟨st', hstep, hrest⟩
      rw [List.map_cons, List.nodup_cons] at husers
      rcases ih hrest husers.2 with ⟨hentries, hothers⟩
      rcases eventStep_cases hstep with ⟨hacc, fee, hfee, -, rfl⟩ | ⟨hrej, rfl⟩
      · have hsplit : acceptedOf x.poseidonHash cfg.epoch kEpoch (a :: logs) =
            a :: acceptedOf x.poseidonHash cfg.epoch kEpoch logs := by
          simp [acceptedOf, hacc]
        rw [hsplit]
        refine ⟨?_, ?_⟩
        · intro e he
          rcases List.mem_cons.1 he with rfl | he
          · -- No later submission is by the same user.
            rw [hothers, hfee]
            · simp
            · intro e' he' heq
              have hmem : e' ∈ logs := (List.mem_filter.1 he').1
              exact husers.1 (Address.display_injective x.hex heq ▸
                List.mem_map_of_mem (f := (·.user)) hmem)
          · exact hentries e he
        · intro u hu
          rw [hothers u fun e he => hu e (List.mem_cons_of_mem a he)]
          have hne : Address.display x.hex a.user ≠ u := hu a List.mem_cons_self
          simp [Std.ExtTreeMap.getElem?_insert, hne]
      · have hsplit : acceptedOf x.poseidonHash cfg.epoch kEpoch (a :: logs) =
            acceptedOf x.poseidonHash cfg.epoch kEpoch logs := by
          simp [acceptedOf, hrej]
        rw [hsplit]
        exact ⟨hentries, hothers⟩

/-! ## Acceptance and rows -/

theorem Accepted.fits (h : Accepted x.poseidonHash cfg.epoch kEpoch e) : Fits e := by
  refine ⟨?_, h.2.2.1⟩
  by_contra hlong
  have hlen : (publicRows e).length = e.workIds.length := by
    simp [publicRows, h.1, h.2.1]
  have hdigest := h.2.2.2
  rw [recomputedDigest, digestFromActive, if_pos (by omega)] at hdigest
  cases hdigest

end Settle
end CleanWeb
