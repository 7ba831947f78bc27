import CleanWeb.Settle.Accepted

/-!
# What the digest binds

The digest is taken over field elements.  Two accepted submissions with one digest therefore agree
in their tier and their rows modulo the order of the field; identifiers at or above the order have
other 32-byte strings with the same digest.
-/

namespace CleanWeb
namespace Settle

open Lib Lib.Exec Zk Contracts

/-! ## Preimages -/

/-- The rows that enter the digest. -/
def digestRows (poseidonHash : PoseidonHash) (kEpoch : Bytes32) (e : ConsumptionSubmitted) :
    List PublicRow :=
  publicRows e ++ List.replicate (maxWorks - (publicRows e).length)
    (publicRowOf (paddedRow poseidonHash kEpoch))

/-- The string hashed for a submission's digest. -/
def digestPreimage (poseidonHash : PoseidonHash) (epoch : Nat) (kEpoch : Bytes32)
    (e : ConsumptionSubmitted) : List Fr :=
  frFromU128 epoch :: frFromBytes32 e.tierId :: frFromBytes32 kEpoch ::
    (digestRows poseidonHash kEpoch e).flatMap rowInputs

/-- A work id as the integer the field keeps of it, with the weight. -/
def reducedRow (r : PublicRow) : Nat × Nat :=
  (r.workId.toNat % frModulus, r.weight)

/-- Works and weights up to trailing padding. -/
def paddedTo {α : Type} (n : Nat) (pad : α) (l : List α) : List α :=
  l ++ List.replicate (n - l.length) pad

variable {poseidonHash : PoseidonHash} {epoch : Nat} {kEpoch : Bytes32}
variable {e e₁ e₂ : ConsumptionSubmitted}

theorem digest_eq_of_accepted (h : Accepted poseidonHash epoch kEpoch e) :
    (publicRows e).length ≤ maxWorks ∧
      e.digest = frToBytes32 (poseidonHash (digestPreimage poseidonHash epoch kEpoch e)) := by
  have hdigest := h.2.2.2
  unfold recomputedDigest digestFromActive at hdigest
  split at hdigest
  · cases hdigest
  · rename_i hlen
    exact ⟨not_lt.1 hlen, (Except.ok.inj hdigest).symm⟩

/-- Blocks of three elements can be read back from their concatenation. -/
theorem map_rowInputs_eq {l₁ l₂ : List PublicRow}
    (h : l₁.flatMap rowInputs = l₂.flatMap rowInputs) :
    l₁.map rowInputs = l₂.map rowInputs := by
  induction l₁ generalizing l₂ with
  | nil =>
      cases l₂ with
      | nil => rfl
      | cons b l₂ => simp [rowInputs] at h
  | cons a l₁ ih =>
      cases l₂ with
      | nil => simp [rowInputs] at h
      | cons b l₂ =>
          simp only [List.flatMap_cons] at h
          have hparts := List.append_inj h rfl
          rw [List.map_cons, List.map_cons, hparts.1, ih hparts.2]

theorem weight_lt_of_mem (h : Accepted poseidonHash epoch kEpoch e) {r : PublicRow}
    (hr : r ∈ digestRows poseidonHash kEpoch e) : r.weight < 2 ^ 128 := by
  rcases List.mem_append.1 hr with hr | hr
  · rcases List.mem_map.1 hr with ⟨t, ht, rfl⟩
    exact h.2.2.1 t.2.2 (List.of_mem_zip (List.of_mem_zip ht).2).2
  · rw [List.eq_of_mem_replicate hr]
    exact Nat.two_pow_pos 128

/-- The field elements of a row determine its reduced id and its weight. -/
theorem reducedRow_eq {r₁ r₂ : PublicRow} (h₁ : r₁.weight < 2 ^ 128) (h₂ : r₂.weight < 2 ^ 128)
    (h : rowInputs r₁ = rowInputs r₂) : reducedRow r₁ = reducedRow r₂ := by
  simp only [rowInputs, List.cons.injEq, and_true] at h
  rcases h with ⟨-, hwork, hweight⟩
  have hsmall : (2 : Nat) ^ 128 < frModulus := by decide
  have hid := congrArg ZMod.val hwork
  rw [val_frFromBytes32, val_frFromBytes32] at hid
  have hw := congrArg ZMod.val hweight
  rw [val_frFromU128 (h₁.trans hsmall), val_frFromU128 (h₂.trans hsmall)] at hw
  rw [reducedRow, reducedRow, hid, hw]

theorem map_reducedRow_eq {l₁ l₂ : List PublicRow} (h₁ : ∀ r ∈ l₁, r.weight < 2 ^ 128)
    (h₂ : ∀ r ∈ l₂, r.weight < 2 ^ 128) (h : l₁.map rowInputs = l₂.map rowInputs) :
    l₁.map reducedRow = l₂.map reducedRow := by
  induction l₁ generalizing l₂ with
  | nil =>
      have hnil : l₂ = [] := by simpa using h.symm
      rw [hnil]
  | cons a l₁ ih =>
      cases l₂ with
      | nil => simp at h
      | cons b l₂ =>
          simp only [List.map_cons, List.cons.injEq] at h
          rw [List.map_cons, List.map_cons, reducedRow_eq (h₁ a (by simp)) (h₂ b (by simp)) h.1,
            ih (fun r hr => h₁ r (by simp [hr])) (fun r hr => h₂ r (by simp [hr])) h.2]

theorem map_reducedRow_digestRows (e : ConsumptionSubmitted) :
    (digestRows poseidonHash kEpoch e).map reducedRow =
      paddedTo maxWorks (0, 0) ((publicRows e).map reducedRow) := by
  simp [digestRows, paddedTo, reducedRow, publicRowOf, paddedRow]

/-! ## Binding -/

/-- Reduced identifiers are the identifiers when these are below the order of the field. -/
theorem paddedTo_workIds_eq {l₁ l₂ : List PublicRow}
    (h₁ : ∀ r ∈ l₁, r.workId.toNat < frModulus) (h₂ : ∀ r ∈ l₂, r.workId.toNat < frModulus)
    (h : paddedTo maxWorks (0, 0) (l₁.map reducedRow) =
      paddedTo maxWorks (0, 0) (l₂.map reducedRow)) :
    paddedTo maxWorks ((0 : Bytes32), 0) (l₁.map fun r => (r.workId, r.weight)) =
      paddedTo maxWorks ((0 : Bytes32), 0) (l₂.map fun r => (r.workId, r.weight)) := by
  have hinj : Function.Injective fun p : Bytes32 × Nat => (p.1.toNat, p.2) := by
    rintro ⟨a, m⟩ ⟨b, n⟩ hab
    simp only [Prod.mk.injEq] at hab
    rw [BitVec.eq_of_toNat_eq hab.1, hab.2]
  have hreduced : ∀ l : List PublicRow, (∀ r ∈ l, r.workId.toNat < frModulus) →
      (paddedTo maxWorks ((0 : Bytes32), 0) (l.map fun r => (r.workId, r.weight))).map
        (fun p => (p.1.toNat, p.2)) = paddedTo maxWorks (0, 0) (l.map reducedRow) := by
    intro l hl
    have hmap : l.map (fun r => (r.workId.toNat, r.weight)) = l.map reducedRow := by
      apply List.map_congr_left
      intro r hr
      rw [reducedRow, Nat.mod_eq_of_lt (hl r hr)]
    simp [paddedTo, ← hmap, Function.comp_def]
  apply List.map_injective_iff.2 hinj
  rw [hreduced l₁ h₁, hreduced l₂ h₂, h]

/-- Two submissions accepted for one epoch and key with one digest name the same tier modulo the
order of the field, and their works, modulo the same order, and weights agree up to trailing
padding; identifiers below the order agree as byte strings. -/
theorem digest_binds_rows (poseidonHash : PoseidonHash) (epoch : Nat) (kEpoch : Bytes32)
    (e₁ e₂ : ConsumptionSubmitted) (h₁ : Accepted poseidonHash epoch kEpoch e₁)
    (h₂ : Accepted poseidonHash epoch kEpoch e₂) (hdigest : e₁.digest = e₂.digest)
    (hfree : poseidonHash (digestPreimage poseidonHash epoch kEpoch e₁) =
        poseidonHash (digestPreimage poseidonHash epoch kEpoch e₂) →
      digestPreimage poseidonHash epoch kEpoch e₁ =
        digestPreimage poseidonHash epoch kEpoch e₂) :
    e₁.tierId.toNat % frModulus = e₂.tierId.toNat % frModulus ∧
      paddedTo maxWorks (0, 0) ((publicRows e₁).map reducedRow) =
        paddedTo maxWorks (0, 0) ((publicRows e₂).map reducedRow) ∧
      (e₁.tierId.toNat < frModulus → e₂.tierId.toNat < frModulus → e₁.tierId = e₂.tierId) ∧
      ((∀ r ∈ publicRows e₁, r.workId.toNat < frModulus) →
        (∀ r ∈ publicRows e₂, r.workId.toNat < frModulus) →
        paddedTo maxWorks ((0 : Bytes32), 0) ((publicRows e₁).map fun r => (r.workId, r.weight)) =
          paddedTo maxWorks ((0 : Bytes32), 0)
            ((publicRows e₂).map fun r => (r.workId, r.weight))) := by
  have hhash : poseidonHash (digestPreimage poseidonHash epoch kEpoch e₁) =
      poseidonHash (digestPreimage poseidonHash epoch kEpoch e₂) := by
    apply frToBytes32_injective
    rw [← (digest_eq_of_accepted h₁).2, ← (digest_eq_of_accepted h₂).2, hdigest]
  have hpre := hfree hhash
  simp only [digestPreimage, List.cons.injEq, true_and] at hpre
  rcases hpre with ⟨htier, hrows⟩
  have htierMod := congrArg ZMod.val htier
  rw [val_frFromBytes32, val_frFromBytes32] at htierMod
  have hreduced := map_reducedRow_eq (fun r hr => weight_lt_of_mem h₁ hr)
    (fun r hr => weight_lt_of_mem h₂ hr) (map_rowInputs_eq hrows)
  rw [map_reducedRow_digestRows, map_reducedRow_digestRows] at hreduced
  refine ⟨htierMod, hreduced, ?_, ?_⟩
  · intro hsmall₁ hsmall₂
    rw [Nat.mod_eq_of_lt hsmall₁, Nat.mod_eq_of_lt hsmall₂] at htierMod
    exact BitVec.eq_of_toNat_eq htierMod
  · intro hsmall₁ hsmall₂
    exact paddedTo_workIds_eq hsmall₁ hsmall₂ hreduced

/-! ## Identifiers above the order -/

/-- One row of weight five on a work, in tier 2, under the digest of work 1. -/
def sampleBound (workId : Bytes32) : ConsumptionSubmitted :=
  { user := 1
    epoch := 3
    tierId := 2
    digest := digest List.sum 3 2 7
      ({ workId := 1, commitment := 0, pseudonym := 4, weight := 5 } ::
        List.replicate 15 (publicRowOf (paddedRow List.sum 7)))
    pseudonyms := [4]
    workIds := [workId]
    weights := [5] }

theorem sampleBound_accepted : Accepted List.sum 3 7 (sampleBound 1) := by
  refine ⟨rfl, rfl, ?_, rfl⟩
  intro w hw
  have h5 : w = 5 := by simpa [sampleBound] using hw
  rw [h5]
  decide

/-- The work whose id is larger by the order of the field has the same preimage. -/
theorem sampleBound_shifted_preimage :
    digestPreimage List.sum 3 7 (sampleBound (1 + BitVec.ofNat 256 frModulus)) =
      digestPreimage List.sum 3 7 (sampleBound 1) := by
  have hid : frFromBytes32 (1 + BitVec.ofNat 256 frModulus) = frFromBytes32 1 := by
    decide +kernel
  simpa [digestPreimage, digestRows, publicRows, sampleBound, rowInputs] using hid

theorem sampleBound_shifted_accepted :
    Accepted List.sum 3 7 (sampleBound (1 + BitVec.ofNat 256 frModulus)) := by
  refine ⟨rfl, rfl, sampleBound_accepted.2.2.1, ?_⟩
  have hok := (digest_eq_of_accepted sampleBound_accepted).2
  rw [← sampleBound_shifted_preimage] at hok
  exact congrArg Except.ok hok.symm

/-- Both are accepted with one digest and without a collision, and pay different works. -/
theorem sampleBound_not_bound :
    Accepted List.sum 3 7 (sampleBound 1) ∧
    Accepted List.sum 3 7 (sampleBound (1 + BitVec.ofNat 256 frModulus)) ∧
    (sampleBound 1).digest = (sampleBound (1 + BitVec.ofNat 256 frModulus)).digest ∧
    digestPreimage List.sum 3 7 (sampleBound 1) =
      digestPreimage List.sum 3 7 (sampleBound (1 + BitVec.ofNat 256 frModulus)) ∧
    (publicRows (sampleBound 1)).map (fun r => (r.workId, r.weight)) = [(1, 5)] ∧
    (publicRows (sampleBound (1 + BitVec.ofNat 256 frModulus))).map
      (fun r => (r.workId, r.weight)) = [(1 + BitVec.ofNat 256 frModulus, 5)] ∧
    (1 : Bytes32) ≠ 1 + BitVec.ofNat 256 frModulus := by
  refine ⟨sampleBound_accepted, sampleBound_shifted_accepted, rfl,
    sampleBound_shifted_preimage.symm, rfl, rfl, by decide⟩

/-- The theorem at the two submissions: they agree modulo the order. -/
theorem digest_binds_rows_sample :
    paddedTo maxWorks (0, 0) ((publicRows (sampleBound 1)).map reducedRow) =
      paddedTo maxWorks (0, 0)
        ((publicRows (sampleBound (1 + BitVec.ofNat 256 frModulus))).map reducedRow) :=
  (digest_binds_rows List.sum 3 7 (sampleBound 1) (sampleBound (1 + BitVec.ofNat 256 frModulus))
    sampleBound_accepted sampleBound_shifted_accepted rfl
    (fun _ => sampleBound_shifted_preimage.symm)).2.1

end Settle
end CleanWeb
