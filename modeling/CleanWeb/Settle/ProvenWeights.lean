import CleanWeb.Settle.Finalize
import CleanWeb.Wallet.Hex
import CleanWeb.Zk.Dr

/-!
# Proven weights and opened usage

The settlement of a dataset runs from its usage, or from the weights that the circuit proves of the
same rows.  `weight_of` multiplies in 128 bits where `allocate` keeps 256, so the two agree as long
as that product fits.
-/

namespace CleanWeb
namespace Settle

open Lib Lib.Exec Dapr Zk

variable {hex : HexCodec} {keccak256 : Keccak} {checks : Bool}

/-! ## The weight of a row -/

/-- The ranges of the circuit. -/
structure InRange (row : UsageRow) : Prop where
  minutes : row.minutes < 2 ^ 32
  plays : 1 ≤ row.plays ∧ row.plays ≤ maxPlaysCircuit
  price : row.pricePpm < 2 ^ 40
  region : row.regionPpm < 2 ^ 40

/-- The last product of `weight_of` fits 128 bits. -/
def ProductFits (row : UsageRow) : Prop :=
  ∀ d, dPpm row.plays 1000000 = .ok d → row.minutes * row.pricePpm * row.regionPpm * d < 2 ^ 128

/-- The row that carries the proven weight. -/
def provenRow (checks : Bool) (row : UsageRow) : Exec DaprError RawRow := do
  let raw ← weightOf checks row.minutes row.plays row.pricePpm row.regionPpm 1000000
  pure { user := row.user, work := row.work, raw := raw }

/-- The weight that `allocate` computes, in the ranges of the circuit: no step of it overflows. -/
theorem rawRowOf_of_inRange {row : UsageRow} (h : InRange row) {d : Nat}
    (hd : dPpm row.plays 1000000 = .ok d) (hle : d ≤ 1000000) :
    rawRowOf 1000000 row =
      .ok ⟨row.user, row.work, row.minutes * row.pricePpm * row.regionPpm * d / 1000000⟩ := by
  have hscaled : row.minutes * row.pricePpm < 2 ^ 72 := by
    calc
      row.minutes * row.pricePpm < 2 ^ 32 * 2 ^ 40 := Nat.mul_lt_mul'' h.minutes h.price
      _ = 2 ^ 72 := by norm_num
  have hvalue : row.minutes * row.pricePpm * row.regionPpm < 2 ^ 112 := by
    calc
      row.minutes * row.pricePpm * row.regionPpm < 2 ^ 72 * 2 ^ 40 :=
        Nat.mul_lt_mul'' hscaled h.region
      _ = 2 ^ 112 := by norm_num
  have hopened : row.value = .ok (row.minutes * row.pricePpm * row.regionPpm) := by
    have hinner : checkedMul 128 row.minutes row.pricePpm =
        some (row.minutes * row.pricePpm) :=
      checkedMul_eq_some.2 ⟨hscaled.trans (by decide), rfl⟩
    have houter : checkedMul 128 (row.minutes * row.pricePpm) row.regionPpm =
        some (row.minutes * row.pricePpm * row.regionPpm) :=
      checkedMul_eq_some.2 ⟨hvalue.trans (by decide), rfl⟩
    simp [UsageRow.value, hinner, houter]
  -- The multiplier is at most one, so the quotient is no larger than the value.
  have hraw : row.minutes * row.pricePpm * row.regionPpm * d / 1000000 < 2 ^ 128 := by
    calc
      row.minutes * row.pricePpm * row.regionPpm * d / 1000000
          ≤ row.minutes * row.pricePpm * row.regionPpm := by
            refine Nat.div_le_of_le_mul ?_
            rw [Nat.mul_comm 1000000]
            exact Nat.mul_le_mul_left _ hle
      _ < 2 ^ 128 := hvalue.trans (by decide)
  have hdivided : mulDiv (row.minutes * row.pricePpm * row.regionPpm) d 1000000 =
      .ok (row.minutes * row.pricePpm * row.regionPpm * d / 1000000) := by
    rw [mulDiv, if_neg (by decide)]
    exact if_pos hraw
  simp only [rawRowOf, hopened, hd, hdivided, ok_bind]
  rfl

/-- The proven weight is the one that `allocate` computes exactly when the product fits. -/
theorem provenRow_eq_iff {row : UsageRow} (h : InRange row) :
    (∃ raw, provenRow checks row = .ok raw ∧ rawRowOf 1000000 row = .ok raw) ↔ ProductFits row := by
  have hk : (1000000 : Nat) < 2 ^ 64 := by decide
  rcases exists_dPpm row.plays hk with ⟨d, hd, hle⟩
  have hopened := rawRowOf_of_inRange h hd hle
  constructor
  · rintro ⟨raw, hproven, hraw⟩ d' hd'
    have hdd : d = d' := Except.ok.inj (hd.symm.trans hd')
    rw [← hdd]
    rcases bind_eq_ok.1 hproven with ⟨weight, hweight, hrow⟩
    have hfloor : weight = row.minutes * row.pricePpm * row.regionPpm * d / 1000000 := by
      have heq := (Except.ok.inj hrow).trans (Except.ok.inj (hraw.symm.trans hopened))
      exact congrArg RawRow.raw heq
    rw [weightOf_eq hk h.minutes h.price h.region
      (by rw [clampPlays_eq h.plays.1 h.plays.2]; exact hd), hfloor] at hweight
    exact fits_of_weight hweight
  · intro hfits
    have hweight : weightOf checks row.minutes row.plays row.pricePpm row.regionPpm 1000000 =
        .ok (row.minutes * row.pricePpm * row.regionPpm * d / 1000000) :=
      weightOf_of_fits hk h.minutes h.price h.region h.plays.1 h.plays.2 hd (hfits d hd)
    refine ⟨_, ?_, hopened⟩
    simp only [provenRow, hweight, ok_bind]
    rfl

/-! ## The settlement -/

/-- The weights proven of the rows are those that `allocate` computes, none of them overflows, and
the settlement from the weights is the settlement from the usage. -/
structure SettlesAlike (hex : HexCodec) (keccak256 : Keccak) (checks : Bool) (dataset : Dataset) :
    Prop where
  weights : ∀ row ∈ dataset.usage,
    ∃ raw, provenRow checks row = .ok raw ∧ rawRowOf 1000000 row = .ok raw
  settled : ∃ rows, dataset.usage.mapM (provenRow checks) = .ok rows ∧
    ∀ epoch escrowWorks,
      settle hex keccak256 epoch dataset escrowWorks =
        settleRaw hex keccak256 epoch dataset.tierFees rows dataset.bandwidthPpm escrowWorks

/-- Rows with the same weights settle alike: the rest of the computation is shared. -/
theorem settle_eq_settleRaw {dataset : Dataset} {rows : List RawRow}
    (h : dataset.usage.mapM (rawRowOf 1000000) = .ok rows) (epoch : Nat)
    (escrowWorks : BTreeSet WorkId) :
    settle hex keccak256 epoch dataset escrowWorks =
      settleRaw hex keccak256 epoch dataset.tierFees rows dataset.bandwidthPpm escrowWorks := by
  have hallocate : allocate dataset {} =
      allocateFromRaw dataset.tierFees rows dataset.bandwidthPpm := by
    simp only [allocate, h, ok_bind]
  rw [settle, settleRaw, hallocate]

/-- Over rows in the ranges of the circuit, weights and usage settle alike exactly when the product
of every row fits. -/
theorem settlesAlike_iff (hex : HexCodec) (keccak256 : Keccak) (checks : Bool) (dataset : Dataset)
    (hrange : ∀ row ∈ dataset.usage, InRange row) :
    SettlesAlike hex keccak256 checks dataset ↔ ∀ row ∈ dataset.usage, ProductFits row := by
  constructor
  · intro h row hrow
    exact (provenRow_eq_iff (hrange row hrow)).1 (h.weights row hrow)
  · intro hfits
    have hweights : ∀ row ∈ dataset.usage,
        ∃ raw, provenRow checks row = .ok raw ∧ rawRowOf 1000000 row = .ok raw := by
      intro row hrow
      exact (provenRow_eq_iff (hrange row hrow)).2 (hfits row hrow)
    have hsame : dataset.usage.mapM (provenRow checks) =
        dataset.usage.mapM (rawRowOf 1000000) := by
      refine mapM_congr ?_
      intro row hrow
      rcases hweights row hrow with ⟨raw, hproven, hopened⟩
      rw [hproven, hopened]
    rcases exists_mapM fun row hrow => (hweights row hrow).imp fun _ h => h.1 with ⟨rows, hrows⟩
    refine ⟨hweights, rows, hrows, ?_⟩
    intro epoch escrowWorks
    exact settle_eq_settleRaw (hsame.symm.trans hrows) epoch escrowWorks

/-! ## An hour of play, and the top of the ranges -/

/-- One subscriber who played a work twice, an hour in all. -/
def sampleHour : Dataset :=
  { tierFees := {("u", 1000000)}
    usage := [⟨"u", "0x01", 60, 1000000, 1000000, 2⟩]
    bandwidthPpm := ∅ }

theorem settlesAlike_sampleHour : SettlesAlike Hex.codec (fun _ => 0) true sampleHour := by
  have hrange : ∀ row ∈ sampleHour.usage, InRange row := by
    intro row hrow
    rw [List.mem_singleton.1 hrow]
    exact ⟨by decide, by decide, by decide, by decide⟩
  refine (settlesAlike_iff Hex.codec (fun _ => 0) true sampleHour hrange).2 ?_
  intro row hrow d hd
  rw [List.mem_singleton.1 hrow] at hd ⊢
  have hd2 : dPpm 2 1000000 = .ok 750000 := by decide +kernel
  rw [hd2] at hd
  rw [← Except.ok.inj hd]
  decide

/-- Each factor at the top of its range. -/
def sampleTopUsage : Dataset :=
  { tierFees := {("u", 1000000)}
    usage := [⟨"u", "0x01", 2 ^ 32 - 1, 2 ^ 40 - 1, 2 ^ 40 - 1, 1⟩]
    bandwidthPpm := ∅ }

/-- The product leaves 128 bits, so the weight is not the one `allocate` computes. -/
theorem sampleTopUsage_not_alike :
    (∀ row ∈ sampleTopUsage.usage, InRange row) ∧
      ∀ checks, ¬ SettlesAlike Hex.codec (fun _ => 0) checks sampleTopUsage := by
  have hrange : ∀ row ∈ sampleTopUsage.usage, InRange row := by
    intro row hrow
    rw [List.mem_singleton.1 hrow]
    exact ⟨by decide, by decide, by decide, by decide⟩
  refine ⟨hrange, ?_⟩
  intro checks h
  have hrow : ⟨"u", "0x01", 2 ^ 32 - 1, 2 ^ 40 - 1, 2 ^ 40 - 1, 1⟩ ∈ sampleTopUsage.usage :=
    List.mem_singleton_self _
  have hfits := (provenRow_eq_iff (hrange _ hrow)).1 (h.weights _ hrow)
  have hd : dPpm 1 1000000 = .ok 1000000 := by decide +kernel
  exact absurd (hfits 1000000 hd) (by decide)

end Settle
end CleanWeb
