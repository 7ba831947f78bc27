import CleanWeb.Zk.CircuitSound

/-!
# The prover's circuit (`libs/zk-circuits/src/prove.rs`)

The rows and the digest that `prove` puts into the circuit, and when the assignment made from them
satisfies the constraints.
-/

namespace CleanWeb
namespace Zk

open Lib Lib.Exec Lib.Synth Lib.Gadget Dapr

/-! ## Assembly -/

/-- The opening of one real usage row. -/
structure UsageRowInput where
  workId : Bytes32
  minutes : Nat
  plays : Nat
  salt : Bytes32
  pricePpm : Nat
  regionPpm : Nat
  deriving DecidableEq, Repr

section

variable (poseidonHash : PoseidonHash) (checks : Bool)

/-- The witness of a real row. -/
def activeRow (kEpoch : Bytes32) (kPpm : Nat) (input : UsageRowInput) :
    Exec ProveError RowWitness := do
  let c := commitment poseidonHash input.workId input.minutes input.plays input.salt
  let weight ← infallible
    (weightOf checks input.minutes input.plays input.pricePpm input.regionPpm kPpm)
  pure
    { active := true
      workId := input.workId
      minutes := input.minutes
      plays := input.plays
      salt := input.salt
      pricePpm := input.pricePpm
      regionPpm := input.regionPpm
      weight := weight
      commitment := c
      pseudonym := pseudonym poseidonHash kEpoch c }

/-- The circuit that `prove` hands to the proof system. -/
def assemble (epoch : Nat) (tier kEpoch : Bytes32) (kPpm : Nat) (inputs : List UsageRowInput) :
    Exec ProveError UsageCircuit :=
  if maxWorks < inputs.length then fail .tooManyWorks
  else do
    let active ← inputs.mapM (activeRow poseidonHash checks kEpoch kPpm)
    let rows := active ++
      List.replicate (maxWorks - active.length) (paddedRow poseidonHash kEpoch)
    pure
      { epoch := epoch
        tier := tier
        kEpoch := kEpoch
        kPpm := kPpm
        rows := rows
        digest := digest poseidonHash epoch tier kEpoch (rows.map publicRowOf) }

end

/-- The assignment made from the circuit's own values satisfies every constraint. -/
def UsageCircuit.Satisfied (poseidonHash : PoseidonHash) (circuit : UsageCircuit) : Prop :=
  ∃ system, generateConstraints poseidonHash circuit = .ok system ∧
    system.Reads system.honest system.value

/-! ## The prover's gadgets -/

theorem accepted_enforceBitWidth (value : Fr) {nBits : Nat} (hn : nBits ≤ modulusBits)
    (guard : Fr) :
    (enforceBitWidth value nBits guard).Accepted ↔ (guard ≠ 0 → value.val < 2 ^ nBits) := by
  have hw : frModulus ≤ 2 ^ modulusBits := frModulus_lt.le
  -- The low bits of the canonical decomposition are the residue modulo `2 ^ nBits`.
  have hlow : leBitsToFp (((List.range modulusBits).map
      fun i => (ofBool (value.val.testBit i) : Fr)).take nBits) =
        ((value.val % 2 ^ nBits : Nat) : Fr) := by
    rw [← List.map_take, List.take_range, Nat.min_eq_left hn, ← cast_leBitsToNat,
      leBitsToNat_testBits]
  have hle : value.val % 2 ^ nBits ≤ value.val := Nat.mod_le _ _
  have heq : value = ((value.val % 2 ^ nBits : Nat) : Fr) ↔ value.val < 2 ^ nBits := by
    constructor
    · intro h
      have hval : value.val = value.val % 2 ^ nBits := by
        conv_lhs => rw [h]
        exact ZMod.val_natCast_of_lt (hle.trans_lt (val_lt_frModulus value))
      rw [hval]
      exact Nat.mod_lt _ (Nat.two_pow_pos nBits)
    · intro h
      rw [Nat.mod_eq_of_lt h, natCast_val]
  simp only [enforceBitWidth, accepted_bind, accepted_toBitsLe hw, value_toBitsLe, hlow,
    accepted_conditionalEnforceEqual, heq, true_and]

/-- The sums over the one-hot selectors of the prover. -/
theorem selectorSums_oneHot (table : List Nat) (hot n : Nat) :
    (((List.range n).map fun i => (ofBool (decide (i = hot)) : Fr)).zipIdx).foldl
        (selectorStep table) ⟨0, 0, 0⟩ =
      if hot < n then ⟨1, frFromU128 hot, frFromU128 (table.getD hot 0)⟩ else ⟨0, 0, 0⟩ := by
  have hzip : ((List.range n).map fun i => (ofBool (decide (i = hot)) : Fr)).zipIdx =
      (List.range n).map fun i => ((ofBool (decide (i = hot)) : Fr), i) := by
    apply List.ext_getElem
    · simp
    · intro i h1 h2
      simp
  -- Each selector is paired with its own index.
  rw [hzip, List.foldl_map]
  clear hzip
  induction n with
  | zero => simp
  | succ n ih =>
      rw [List.range_succ, List.foldl_append, ih]
      by_cases heq : n = hot
      · -- The hot selector is the last one.
        subst heq
        simp [selectorStep, ofBool]
      · have hlt : hot < n + 1 ↔ hot < n := by omega
        by_cases h : hot < n
        · simp [selectorStep, ofBool, heq, hlt, h]
        · simp [selectorStep, ofBool, heq, hlt, h]

theorem accepted_enforceDrWeight_inactive (row : RowWitness) (m plays p g w : Fr) :
    (enforceDrWeight row m plays p g w 0).Accepted := by
  have hbits : remainderBits ≤ modulusBits := by decide
  simp [enforceDrWeight, accepted_conditionalEnforceEqual, accepted_enforceBitWidth _ hbits]

/-- An active row whose weight is the floor of the division passes the weight check. -/
theorem accepted_enforceDrWeight {row : RowWitness} {d : Nat} (hm : row.minutes < 2 ^ 32)
    (hp : row.pricePpm < 2 ^ 40) (hg : row.regionPpm < 2 ^ 40) (hplays : 1 ≤ row.plays)
    (hcap : row.plays ≤ maxPlaysCircuit) (hd : dPpm row.plays kPpmCircuit = .ok d)
    (hw : row.weight = row.minutes * row.pricePpm * row.regionPpm * d / ppmScale) :
    (enforceDrWeight row (frFromU128 row.minutes) (frFromU128 row.plays)
      (frFromU128 row.pricePpm) (frFromU128 row.regionPpm) (frFromU128 row.weight) 1).Accepted := by
  have hbits : remainderBits ≤ modulusBits := by decide
  have hclamp : clampPlays row.plays = row.plays := by
    unfold clampPlays
    omega
  have hhot : row.plays - 1 < maxPlaysCircuit := by omega
  -- The native lookup and the table of the circuit agree.
  have hentry : circuitTable.getD (row.plays - 1) 0 = d := by
    have htable := (circuitTable_getD hhot).1
    rw [Nat.sub_add_cancel hplays, hd] at htable
    exact (Except.ok.inj htable).symm
  have hmp : row.minutes * row.pricePpm < 2 ^ 72 := by
    calc row.minutes * row.pricePpm < 2 ^ 32 * 2 ^ 40 := Nat.mul_lt_mul'' hm hp
      _ = 2 ^ 72 := by norm_num
  have hvalue : row.minutes * row.pricePpm * row.regionPpm < 2 ^ 128 := by
    calc row.minutes * row.pricePpm * row.regionPpm < 2 ^ 72 * 2 ^ 40 := Nat.mul_lt_mul'' hmp hg
      _ < 2 ^ 128 := by decide
  -- The native remainder is the one of the whole product.
  have hrem : row.minutes * row.pricePpm * row.regionPpm % 2 ^ 128 % ppmScale *
      (d % ppmScale) % ppmScale = row.minutes * row.pricePpm * row.regionPpm * d % ppmScale := by
    rw [Nat.mod_eq_of_lt hvalue, ← Nat.mul_mod]
  generalize hr : row.minutes * row.pricePpm * row.regionPpm * d % ppmScale = r at hrem
  have hrlt : r < ppmScale := by
    rw [← hr]
    exact Nat.mod_lt _ (by decide)
  have hfield : ppmScale < frModulus := by decide
  have hrval : (frFromU128 r).val = r := val_frFromU128 (hrlt.trans hfield)
  have hslack : frFromU128 (ppmScale - 1) - frFromU128 r = frFromU128 (ppmScale - 1 - r) := by
    rw [frFromU128, frFromU128, frFromU128, ← Nat.cast_sub (by omega)]
  have hslackVal : (frFromU128 (ppmScale - 1 - r)).val = ppmScale - 1 - r :=
    val_frFromU128 (by omega)
  have hsmall : ppmScale ≤ 2 ^ remainderBits := by decide
  have hidx : frFromU128 (row.plays - 1) = frFromU128 row.plays - 1 := by
    rw [frFromU128, frFromU128, Nat.cast_sub hplays, Nat.cast_one]
  -- The division with remainder, cast into the field.
  have hdivision : frFromU128 row.weight * frFromU128 ppmScale + frFromU128 r =
      frFromU128 row.minutes * frFromU128 row.pricePpm * frFromU128 row.regionPpm *
        frFromU128 d := by
    have hnat : row.weight * ppmScale + r =
        row.minutes * row.pricePpm * row.regionPpm * d := by
      rw [hw, ← hr]
      exact Nat.div_add_mod' _ _
    have hcast := congrArg (fun n : Nat => (n : Fr)) hnat
    push_cast at hcast
    exact hcast
  -- The selector of `plays - 1` is hot, so the sums are its index and entry.
  have hsums := selectorSums_oneHot circuitTable (row.plays - 1) maxPlaysCircuit
  rw [if_pos hhot, hentry] at hsums
  simp only [enforceDrWeight, accepted_bind, accepted_mapM, accepted_newBit, value_mapM,
    value_newBit, value_mul, value_newWitness, accepted_mul, accepted_newWitness,
    accepted_conditionalEnforceEqual, accepted_enforceBitWidth _ hbits, hclamp, hsums, hentry,
    hrem, hidx, hslack, hrval, hslackVal, hdivision]
  simp only [implies_true, true_and, ne_eq, one_ne_zero, not_false_eq_true, forall_const]
  omega

/-! ## The prover's rows -/

/-- The values the prover gives the variables of a row. -/
def liftRow (row : RowWitness) : RowAssignment :=
  { workIdVar := frFromBytes32 row.workId
    weightVar := frFromU128 row.weight
    pseudonymVar := frFromBytes32 row.pseudonym
    activeVar := ofBool row.active
    saltVar := frFromBytes32 row.salt
    commitmentVar := frFromBytes32 row.commitment
    minutesVar := frFromU128 row.minutes
    playsVar := frFromU128 row.plays
    priceVar := frFromU128 row.pricePpm
    regionVar := frFromU128 row.regionPpm }

variable {poseidonHash : PoseidonHash} {checks : Bool}

@[simp] theorem value_enforceRow (kEpochVar : Fr) (row : RowWitness) :
    (enforceRow poseidonHash kEpochVar row).value = liftRow row := by
  simp only [enforceRow, value_bind, value_newBit, value_newWitness, value_pure]
  rfl

/-- The padding satisfies its constraints under every epoch key. -/
theorem accepted_enforceRow_padded (kEpoch : Bytes32) :
    (enforceRow poseidonHash (frFromBytes32 kEpoch) (paddedRow poseidonHash kEpoch)).Accepted := by
  have hwidth : ∀ (value : Fr) (n : Nat), n ≤ modulusBits →
      (enforceBitWidth value n 0).Accepted := by
    intro value n hn
    rw [accepted_enforceBitWidth value hn]
    exact fun h => absurd rfl h
  have hnotEqual : ∀ a b : Fr, (conditionalEnforceNotEqual a b 0).Accepted := by
    intro a b
    exact (accepted_conditionalEnforceNotEqual a b false).2 (by simp)
  simp [enforceRow, paddedRow, ofBool, accepted_conditionalEnforceEqual, hnotEqual,
    accepted_enforceDrWeight_inactive, hwidth _ minutesBits (by decide),
    hwidth _ playsBits (by decide), hwidth _ ppmBits (by decide),
    hwidth _ weightBits (by decide), paddedCommitment, pseudonym]

/-- The ranges of the circuit, and a work that is a work. -/
structure UsageRowInput.InRange (input : UsageRowInput) : Prop where
  minutes : input.minutes < 2 ^ 32
  plays : input.plays < 2 ^ 64
  price : input.pricePpm < 2 ^ 40
  region : input.regionPpm < 2 ^ 40
  workId : frFromBytes32 input.workId ≠ 0

/-- The plays are in the table, and the product of the native weight fits 128 bits. -/
def UsageRowInput.Provable (input : UsageRowInput) : Prop :=
  1 ≤ input.plays ∧ input.plays ≤ maxPlaysCircuit ∧
    ∀ d, dPpm input.plays 1000000 = .ok d →
      input.minutes * input.pricePpm * input.regionPpm * d < 2 ^ 128

/-- The row that `prove` makes of an input. -/
theorem activeRow_eq_ok {kEpoch : Bytes32} {kPpm : Nat} {input : UsageRowInput} {row : RowWitness}
    (h : activeRow poseidonHash checks kEpoch kPpm input = .ok row) :
    ∃ weight, weightOf checks input.minutes input.plays input.pricePpm input.regionPpm kPpm =
        .ok weight ∧
      row =
        { active := true
          workId := input.workId
          minutes := input.minutes
          plays := input.plays
          salt := input.salt
          pricePpm := input.pricePpm
          regionPpm := input.regionPpm
          weight := weight
          commitment :=
            commitment poseidonHash input.workId input.minutes input.plays input.salt
          pseudonym := pseudonym poseidonHash kEpoch
            (commitment poseidonHash input.workId input.minutes input.plays input.salt) } := by
  rcases bind_eq_ok.1 h with ⟨weight, hweight, hrow⟩
  exact ⟨weight, infallible_eq_ok.1 hweight, (Except.ok.inj hrow).symm⟩

/-- A provable input gets the floor of its product as weight. -/
theorem weightOf_of_provable (checks : Bool) {input : UsageRowInput} (hrange : input.InRange)
    (hprovable : input.Provable) :
    ∃ d, dPpm input.plays kPpmCircuit = .ok d ∧
      weightOf checks input.minutes input.plays input.pricePpm input.regionPpm 1000000 =
        .ok (input.minutes * input.pricePpm * input.regionPpm * d / 1000000) := by
  rcases hprovable with ⟨h1, h64, hfits⟩
  have hk : (1000000 : Nat) < 2 ^ 64 := by decide
  rcases exists_dPpm input.plays hk with ⟨d, hd, -⟩
  exact ⟨d, hd,
    weightOf_of_fits hk hrange.minutes hrange.price hrange.region h1 h64 hd (hfits d hd)⟩

/-- An active row whose derived values are the native ones and whose product fits. -/
structure HonestRow (poseidonHash : PoseidonHash) (kEpoch : Bytes32) (row : RowWitness) : Prop where
  active : row.active = true
  minutes : row.minutes < 2 ^ 32
  price : row.pricePpm < 2 ^ 40
  region : row.regionPpm < 2 ^ 40
  plays : 1 ≤ row.plays ∧ row.plays ≤ maxPlaysCircuit
  workId : frFromBytes32 row.workId ≠ 0
  weight : ∃ d, dPpm row.plays kPpmCircuit = .ok d ∧
    row.minutes * row.pricePpm * row.regionPpm * d < 2 ^ 128 ∧
    row.weight = row.minutes * row.pricePpm * row.regionPpm * d / ppmScale
  commitment : row.commitment =
    commitment poseidonHash row.workId row.minutes row.plays row.salt
  pseudonym : row.pseudonym = pseudonym poseidonHash kEpoch row.commitment

theorem honestRow_of_activeRow {kEpoch : Bytes32} {input : UsageRowInput} {row : RowWitness}
    (hrange : input.InRange) (hprovable : input.Provable)
    (hrow : activeRow poseidonHash checks kEpoch 1000000 input = .ok row) :
    HonestRow poseidonHash kEpoch row := by
  rcases activeRow_eq_ok hrow with ⟨weight, hweight, rfl⟩
  rcases weightOf_of_provable checks hrange hprovable with ⟨d, hd, hfloor⟩
  rw [hfloor] at hweight
  exact
    { active := rfl
      minutes := hrange.minutes
      price := hrange.price
      region := hrange.region
      plays := ⟨hprovable.1, hprovable.2.1⟩
      workId := hrange.workId
      weight := ⟨d, hd, hprovable.2.2 d hd, (Except.ok.inj hweight).symm⟩
      commitment := rfl
      pseudonym := rfl }

theorem val_frFromU128_lt {v n : Nat} (hv : v < 2 ^ n) (hn : 2 ^ n < frModulus) :
    (frFromU128 v).val < 2 ^ n := by
  rw [val_frFromU128 (hv.trans hn)]
  exact hv

theorem accepted_enforceRow_active {kEpoch : Bytes32} {row : RowWitness}
    (h : HonestRow poseidonHash kEpoch row) :
    (enforceRow poseidonHash (frFromBytes32 kEpoch) row).Accepted := by
  rcases h.weight with ⟨d, hd, hfits, hw⟩
  have hminutes : (frFromU128 row.minutes).val < 2 ^ minutesBits :=
    val_frFromU128_lt h.minutes (by decide)
  have hplays : (frFromU128 row.plays).val < 2 ^ playsBits :=
    val_frFromU128_lt (h.plays.2.trans_lt (by decide)) (by decide)
  have hprice : (frFromU128 row.pricePpm).val < 2 ^ ppmBits :=
    val_frFromU128_lt h.price (by decide)
  have hregion : (frFromU128 row.regionPpm).val < 2 ^ ppmBits :=
    val_frFromU128_lt h.region (by decide)
  -- The slack is a difference of integers because the plays are within the cap.
  have hslack : (frFromU128 maxPlaysCircuit - frFromU128 row.plays).val < 2 ^ playsBits := by
    have hsub : frFromU128 maxPlaysCircuit - frFromU128 row.plays =
        frFromU128 (maxPlaysCircuit - row.plays) := by
      rw [frFromU128, frFromU128, frFromU128, Nat.cast_sub h.plays.2]
    rw [hsub]
    exact val_frFromU128_lt ((Nat.sub_le _ _).trans_lt (by decide)) (by decide)
  have hweight : (frFromU128 row.weight).val < 2 ^ weightBits := by
    -- A product that fits 128 bits leaves a weight of at most 109 bits.
    have hbits : (2 : Nat) ^ 128 / ppmScale < 2 ^ weightBits := by decide
    refine val_frFromU128_lt ?_ (by decide)
    rw [hw]
    exact (Nat.div_le_div_right hfits.le).trans_lt hbits
  have hdr := accepted_enforceDrWeight h.minutes h.price h.region h.plays.1 h.plays.2 hd hw
  have hnotEqual : (conditionalEnforceNotEqual (frFromBytes32 row.workId) 0 1).Accepted :=
    (accepted_conditionalEnforceNotEqual _ 0 true).2 fun _ => h.workId
  have hcommitment : frFromBytes32 row.commitment = poseidonHash
      [frFromBytes32 row.workId, frFromU128 row.minutes, frFromU128 row.plays,
        frFromBytes32 row.salt] := by
    rw [h.commitment, commitment, frFromBytes32_frToBytes32]
  have hpseudonym : frFromBytes32 row.pseudonym =
      poseidonHash [frFromBytes32 kEpoch, frFromBytes32 row.commitment] := by
    rw [h.pseudonym, pseudonym, frFromBytes32_frToBytes32]
  simp only [enforceRow, accepted_bind, accepted_newBit, accepted_newWitness, value_newBit,
    value_newWitness, accepted_pure, h.active, ofBool, if_true, accepted_conditionalEnforceEqual,
    accepted_enforceBitWidth _ (show minutesBits ≤ modulusBits by decide),
    accepted_enforceBitWidth _ (show playsBits ≤ modulusBits by decide),
    accepted_enforceBitWidth _ (show ppmBits ≤ modulusBits by decide),
    accepted_enforceBitWidth _ (show weightBits ≤ modulusBits by decide),
    hminutes, hplays, hprice, hregion, hslack, hweight, hdr, hnotEqual, hcommitment, hpseudonym]
  simp

/-- The floor of the circuit exposes a wrapped product. -/
theorem fits_of_floor {value d weight : Nat}
    (hweight : (mulBuild checks 128 value d >>= fun product => divU product 1000000 :
      Exec DaprError Nat) = .ok weight)
    (hfloor : (frFromU128 weight).val = value * d / 1000000) : value * d < 2 ^ 128 := by
  have hfield : (2 : Nat) ^ 128 < frModulus := by decide
  rw [val_frFromU128 ((weight_lt_of_product hweight).trans hfield)] at hfloor
  rw [hfloor] at hweight
  exact fits_of_weight hweight

/-- A row that its constraints accept comes from a provable input. -/
theorem provable_of_activeRow {kEpoch : Bytes32} {kEpochVar : Fr} {input : UsageRowInput}
    {row : RowWitness} (hrange : input.InRange)
    (hrow : activeRow poseidonHash checks kEpoch 1000000 input = .ok row)
    (hproven : ProvenRow poseidonHash kEpochVar (liftRow row)) : input.Provable := by
  rcases activeRow_eq_ok hrow with ⟨weight, hweight, rfl⟩
  rcases hproven with ⟨-, h⟩ | ⟨hinactive, -⟩
  · have hplays : (frFromU128 input.plays).val = input.plays :=
      val_frFromU128 (hrange.plays.trans (by decide))
    have hbounds := h.plays
    rw [show (liftRow _).playsVar = frFromU128 input.plays from rfl, hplays] at hbounds
    refine ⟨hbounds.1, hbounds.2, ?_⟩
    intro d hd
    -- The circuit has checked the plays, so the native clamp did nothing.
    have hclamp := clampPlays_eq hbounds.1 hbounds.2
    have hk : (1000000 : Nat) < 2 ^ 64 := by decide
    rw [weightOf_eq hk hrange.minutes hrange.price hrange.region (by rw [hclamp]; exact hd)]
      at hweight
    rcases h.weight with ⟨d', hd', hfloor⟩
    simp only [liftRow, hplays, val_frFromU128 (hrange.minutes.trans (by decide)),
      val_frFromU128 (hrange.price.trans (by decide)),
      val_frFromU128 (hrange.region.trans (by decide))] at hd' hfloor
    rw [hd] at hd'
    have hdd : d = d' := Except.ok.inj hd'
    rw [← hdd] at hfloor
    exact fits_of_floor hweight hfloor
  · exact absurd hinactive one_ne_zero

end Zk
end CleanWeb
