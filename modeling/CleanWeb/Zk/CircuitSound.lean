import CleanWeb.Zk.Circuit

/-!
# Soundness of the usage circuit

What every satisfying assignment means, whatever the prover put into it.  Each gadget gets its
guarantee under the guard; the guarantees that exclude wraparound (bit widths, slacks) are then
combined into statements about integers.
-/

namespace CleanWeb
namespace Zk

open Lib Lib.Exec Lib.Synth Lib.Gadget Dapr

instance : Fact (1 < frModulus) :=
  ⟨frModulus_prime.one_lt⟩

/-! ## Integers in the field -/

/-- Integers below the modulus are determined by their field element. -/
theorem eq_of_natCast_eq {a b : Nat} (ha : a < frModulus) (hb : b < frModulus)
    (h : (a : Fr) = (b : Fr)) : a = b := by
  have hmod := (ZMod.natCast_eq_natCast_iff' a b frModulus).1 h
  rwa [Nat.mod_eq_of_lt ha, Nat.mod_eq_of_lt hb] at hmod

theorem natCast_val (x : Fr) : ((x.val : Nat) : Fr) = x :=
  ZMod.natCast_rightInverse x

/-- A value and its slack below small bounds: the value is at most the bound they add up to. -/
theorem val_le_of_slack {x : Fr} {bound : Nat} (hx : x.val < 2 ^ 120) (hbound : bound < 2 ^ 120)
    (hslack : (frFromU128 bound - x).val < 2 ^ 120) : x.val ≤ bound := by
  -- The sum of the two lies below the modulus, so it is the bound as an integer too.
  have hr : (2 : Nat) ^ 121 < frModulus := by decide
  have hsum : (((frFromU128 bound - x).val + x.val : Nat) : Fr) = (bound : Fr) := by
    push_cast
    rw [natCast_val, natCast_val, sub_add_cancel]
    rfl
  have hnat := eq_of_natCast_eq (by omega) (by omega) hsum
  omega

/-- The proven floor division: no side of the equation wraps. -/
theorem weight_eq_of_division {m p g w r : Fr} {d : Nat} (hm : m.val < 2 ^ 32)
    (hp : p.val < 2 ^ 40) (hg : g.val < 2 ^ 40) (hd : d ≤ 1000000) (hw : w.val < 2 ^ 120)
    (hr : r.val < ppmScale)
    (h : w * frFromU128 ppmScale + r = m * p * g * frFromU128 d) :
    w.val = m.val * p.val * g.val * d / 1000000 := by
  have hmp : m.val * p.val < 2 ^ 72 := by
    calc m.val * p.val < 2 ^ 32 * 2 ^ 40 := Nat.mul_lt_mul'' hm hp
      _ = 2 ^ 72 := by norm_num
  have hvalue : m.val * p.val * g.val < 2 ^ 112 := by
    calc m.val * p.val * g.val < 2 ^ 72 * 2 ^ 40 := Nat.mul_lt_mul'' hmp hg
      _ = 2 ^ 112 := by norm_num
  have hproduct : m.val * p.val * g.val * d ≤ 2 ^ 112 * 1000000 :=
    Nat.mul_le_mul hvalue.le hd
  -- Both sides of the division stay far below the modulus.
  have hfield : (2 : Nat) ^ 112 * 1000000 < frModulus ∧
      2 ^ 120 * 1000000 + 1000000 < frModulus := by
    decide
  unfold ppmScale at hr
  have hcast : ((w.val * 1000000 + r.val : Nat) : Fr) =
      ((m.val * p.val * g.val * d : Nat) : Fr) := by
    have hscale : frFromU128 ppmScale = ((1000000 : Nat) : Fr) := rfl
    push_cast
    rw [natCast_val, natCast_val, natCast_val, natCast_val, natCast_val]
    simpa [frFromU128, ppmScale] using h
  have hnat := eq_of_natCast_eq (by omega) (by omega) hcast
  rw [← hnat]
  omega

/-! ## Gadgets -/

theorem ensures_enforceBitWidth (value : Fr) (nBits : Nat) (guard : Fr) :
    Ensures (enforceBitWidth value nBits guard) fun _ =>
      guard ≠ 0 → value.val < 2 ^ nBits := by
  refine (ensures_toBitsLe modulusBits value).bind ?_
  rintro bits ⟨-, hbits, hnat⟩
  refine (ensures_conditionalEnforceEqual _ _ _).mono ?_
  intro _ hlow hguard
  have hle : leBitsToNat (bits.take nBits) ≤ value.val := by
    rw [← hnat]
    exact leBitsToNat_take_le bits nBits
  -- The low bits recompose to the value, which the guard forces to be all of it.
  have hval : value.val = leBitsToNat (bits.take nBits) := by
    have hcast : (leBitsToNat (bits.take nBits) : Fr) = value := by
      rw [cast_leBitsToNat, ← hlow hguard]
    rw [← ZMod.val_natCast_of_lt (hle.trans_lt (val_lt_frModulus value)), hcast]
  have hlt : leBitsToNat (bits.take nBits) < 2 ^ (bits.take nBits).length :=
    leBitsToNat_lt fun b hb => hbits b (List.mem_of_mem_take hb)
  rw [hval]
  exact hlt.trans_le (Nat.pow_le_pow_right (by norm_num) (List.length_take_le _ _))

/-- The sums over bit selectors: with `c` of them set, none changes anything if `c = 0`, and the
sums are those of the one selector if `c = 1`. -/
theorem selectorSums (table : List Nat) (selectors : List Fr) (k : Nat) (st : SelectorSums)
    (hbits : ∀ s ∈ selectors, IsBit s) :
    let sums := (selectors.zipIdx k).foldl (selectorStep table) st
    ∃ c : Nat, c ≤ selectors.length ∧ sums.sumSel = st.sumSel + (c : Fr) ∧
      (c = 0 → sums = st) ∧
      (c = 1 → ∃ i, k ≤ i ∧ i < k + selectors.length ∧
        sums.sumIdx = st.sumIdx + frFromU128 i ∧
        sums.dVar = st.dVar + frFromU128 (table.getD i 0)) := by
  induction selectors generalizing k st with
  | nil =>
      exact ⟨0, le_refl _, by simp, fun _ => rfl, by simp⟩
  | cons s selectors ih =>
      have htail := ih (k + 1) (selectorStep table st (s, k)) fun x hx => hbits x (by simp [hx])
      rcases htail with ⟨c, hc, hsel, hzero, hone⟩
      simp only [List.zipIdx_cons, List.foldl_cons, List.length_cons]
      -- The index is counted from `k`, so the tail is taken from `k + 1`.
      rcases hbits s (by simp) with rfl | rfl
      · -- A selector that is not set adds nothing.
        have hst : selectorStep table st (0, k) = st := by
          simp [selectorStep]
        rw [hst] at hsel hzero hone ⊢
        refine ⟨c, by omega, hsel, hzero, ?_⟩
        intro h1
        rcases hone h1 with ⟨i, hki, hil, hidx, hd⟩
        exact ⟨i, by omega, by omega, hidx, hd⟩
      · -- A selector that is set: it is the only one if the tail has none.
        refine ⟨c + 1, by omega, ?_, by simp, ?_⟩
        · rw [hsel]
          simp [selectorStep]
          ring
        · intro h1
          rw [hzero (by omega)]
          exact ⟨k, le_refl _, by omega, by simp [selectorStep], by simp [selectorStep]⟩

/-- The table entry at an index below the cap. -/
theorem circuitTable_getD {i : Nat} (hi : i < maxPlaysCircuit) :
    dPpm (i + 1) kPpmCircuit = .ok (circuitTable.getD i 0) ∧ circuitTable.getD i 0 ≤ 1000000 := by
  have hk : kPpmCircuit < 2 ^ 64 := by decide
  rcases exists_dPpmTable hk with ⟨table, htable, -⟩
  rcases dPpmTable_getElem? hk htable hi with ⟨d, hget, hd, hle⟩
  have hcircuit : circuitTable = table := by
    rw [circuitTable, htable]
    rfl
  rw [hcircuit, List.getD_eq_getElem?_getD, hget]
  exact ⟨hd, hle⟩

/-- The lookup ties the multiplier to the plays, and the division is by the proven remainder. -/
theorem ensures_enforceDrWeight (row : RowWitness) (m plays p g w active : Fr) :
    Ensures (enforceDrWeight row m plays p g w active) fun _ => active ≠ 0 →
      ∃ i r, i < maxPlaysCircuit ∧ plays = frFromU128 (i + 1) ∧ r.val < ppmScale ∧
        w * frFromU128 ppmScale + r = m * p * g * frFromU128 (circuitTable.getD i 0) := by
  -- From here on the constraints are read off in the order the circuit enforces them.
  refine (ensures_mapM (Q := fun _ s => IsBit s) fun i _ => ensures_newBit _).bind ?_
  intro selectors hselectors
  have hbits : ∀ s ∈ selectors, IsBit s := by
    intro s hs
    rcases exists_left_of_forall₂ hselectors hs with ⟨-, -, hbit⟩
    exact hbit
  have hlen : selectors.length = maxPlaysCircuit := by
    rw [← hselectors.length_eq, List.length_range]
  rcases selectorSums circuitTable selectors 0 ⟨0, 0, 0⟩ hbits with ⟨c, hc, hsel, -, hone⟩
  refine (ensures_conditionalEnforceEqual _ _ _).bind ?_
  intro _ hsum
  refine (ensures_conditionalEnforceEqual _ _ _).bind ?_
  intro _ hidx
  refine (ensures_mul _ _).bind ?_
  rintro _ rfl
  refine (ensures_mul _ _).bind ?_
  rintro _ rfl
  apply ensures_newWitness_bind
  intro r
  refine (ensures_mul _ _).bind ?_
  rintro _ rfl
  refine (ensures_conditionalEnforceEqual _ _ _).bind ?_
  intro _ hdivision
  refine (ensures_enforceBitWidth _ _ _).bind ?_
  intro _ hr
  refine (ensures_enforceBitWidth _ _ _).mono ?_
  intro _ hslack hactive
  -- Exactly one selector is set: their number is small and equal to one in the field.
  have hc1 : c = 1 := by
    have hsmall : maxPlaysCircuit < frModulus := by decide
    apply eq_of_natCast_eq (by omega) frModulus_prime.one_lt
    have hcast := (hsum hactive).symm.trans hsel
    simpa using hcast.symm
  rcases hone hc1 with ⟨i, -, hi, hsumIdx, hd⟩
  refine ⟨i, r, by omega, ?_, ?_, ?_⟩
  · -- The index of the set selector is `plays - 1`.
    have hplays := (hidx hactive).symm.trans hsumIdx
    rw [zero_add, sub_eq_iff_eq_add] at hplays
    rw [hplays]
    simp [frFromU128]
  · -- Remainder and slack are twenty bits wide, so the remainder is below a million.
    have hr20 : r.val < 2 ^ 20 := hr hactive
    have hs20 : (frFromU128 (ppmScale - 1) - r).val < 2 ^ 20 := hslack hactive
    have hle := val_le_of_slack (hr20.trans (by decide)) (by decide) (hs20.trans (by decide))
    unfold ppmScale at hle ⊢
    omega
  · rw [hdivision hactive, hd, zero_add]

/-! ## Rows -/

variable {poseidonHash : PoseidonHash} {kEpochVar : Fr}

/-- What the variables of an active row are. -/
structure ActiveRow (poseidonHash : PoseidonHash) (kEpochVar : Fr) (r : RowAssignment) : Prop where
  minutes : r.minutesVar.val < 2 ^ 32
  plays : 1 ≤ r.playsVar.val ∧ r.playsVar.val ≤ 64
  price : r.priceVar.val < 2 ^ 40
  region : r.regionVar.val < 2 ^ 40
  workId : r.workIdVar ≠ 0
  weight : ∃ d, dPpm r.playsVar.val 1000000 = .ok d ∧
    r.weightVar.val = r.minutesVar.val * r.priceVar.val * r.regionVar.val * d / 1000000
  commitment : r.commitmentVar =
    poseidonHash [r.workIdVar, r.minutesVar, r.playsVar, r.saltVar]
  pseudonym : r.pseudonymVar = poseidonHash [kEpochVar, r.commitmentVar]

/-- What the variables of a padding row are. -/
structure InactiveRow (poseidonHash : PoseidonHash) (kEpochVar : Fr) (r : RowAssignment) :
    Prop where
  workId : r.workIdVar = 0
  weight : r.weightVar = 0
  pseudonym : r.pseudonymVar =
    poseidonHash [kEpochVar, frFromBytes32 (paddedCommitment poseidonHash)]

/-- A row is one of the two, as its flag says. -/
def ProvenRow (poseidonHash : PoseidonHash) (kEpochVar : Fr) (r : RowAssignment) : Prop :=
  (r.activeVar = 1 ∧ ActiveRow poseidonHash kEpochVar r) ∨
    (r.activeVar = 0 ∧ InactiveRow poseidonHash kEpochVar r)

/-- With every value in range, the lookup bounds the plays and the division gives the weight. -/
theorem weight_of_lookup {m plays p g w : Fr} (hm : m.val < 2 ^ 32) (hp : p.val < 2 ^ 40)
    (hg : g.val < 2 ^ 40) (hw : w.val < 2 ^ 120)
    (h : ∃ i r, i < maxPlaysCircuit ∧ plays = frFromU128 (i + 1) ∧ r.val < ppmScale ∧
      w * frFromU128 ppmScale + r = m * p * g * frFromU128 (circuitTable.getD i 0)) :
    (1 ≤ plays.val ∧ plays.val ≤ 64) ∧
      ∃ d, dPpm plays.val 1000000 = .ok d ∧ w.val = m.val * p.val * g.val * d / 1000000 := by
  rcases h with ⟨i, r, hi, rfl, hr, heq⟩
  rcases circuitTable_getD hi with ⟨hd, hdle⟩
  unfold maxPlaysCircuit at hi
  have hsmall : i + 1 < frModulus := by
    have h65 : 65 < frModulus := by decide
    omega
  have hval : (frFromU128 (i + 1)).val = i + 1 := val_frFromU128 hsmall
  rw [hval]
  exact ⟨⟨Nat.le_add_left 1 i, by omega⟩, _, hd, weight_eq_of_division hm hp hg hdle hw hr heq⟩

theorem ensures_enforceRow (row : RowWitness) :
    Ensures (enforceRow poseidonHash kEpochVar row) (ProvenRow poseidonHash kEpochVar) := by
  refine (ensures_newBit _).bind ?_
  intro active hactive
  apply ensures_newWitness_bind
  intro workId
  apply ensures_newWitness_bind
  intro salt
  apply ensures_newWitness_bind
  intro commitment
  apply ensures_newWitness_bind
  intro pseudonym
  apply ensures_newWitness_bind
  intro minutes
  apply ensures_newWitness_bind
  intro plays
  apply ensures_newWitness_bind
  intro price
  apply ensures_newWitness_bind
  intro region
  apply ensures_newWitness_bind
  intro weight
  refine (ensures_conditionalEnforceEqual _ _ _).bind ?_
  intro _ hcommitment
  refine (ensures_enforceBitWidth _ _ _).bind ?_
  intro _ hminutes
  refine (ensures_enforceBitWidth _ _ _).bind ?_
  intro _ hplays
  refine (ensures_enforceBitWidth _ _ _).bind ?_
  intro _ hprice
  refine (ensures_enforceBitWidth _ _ _).bind ?_
  intro _ hregion
  refine (ensures_enforceBitWidth _ _ _).bind ?_
  intro _ hslack
  refine (ensures_conditionalEnforceNotEqual _ _ _).bind ?_
  intro _ hworkId
  refine (ensures_enforceDrWeight _ _ _ _ _ _ _).bind ?_
  intro _ hdivision
  refine (ensures_enforceBitWidth _ _ _).bind ?_
  intro _ hweight
  refine (ensures_conditionalEnforceEqual _ _ _).bind ?_
  intro _ hpseudonym
  refine (ensures_conditionalEnforceEqual _ _ _).bind ?_
  intro _ hnoWork
  refine (ensures_conditionalEnforceEqual _ _ _).bind ?_
  intro _ hnoWeight
  refine (ensures_conditionalEnforceEqual _ _ _).bind ?_
  intro _ _
  refine (ensures_conditionalEnforceEqual _ _ _).bind ?_
  intro _ hpadded
  apply ensures_pure
  rcases hactive with rfl | rfl
  · -- Padding: the constraints under `1 - active` are in force, the others are vacuous.
    have hinactive : (1 : Fr) - 0 ≠ 0 := by simp
    exact .inr ⟨rfl, hnoWork hinactive, hnoWeight hinactive, hpadded hinactive⟩
  · -- Active: every range check holds.
    have hset : (1 : Fr) ≠ 0 := one_ne_zero
    rcases weight_of_lookup (hminutes hset) (hprice hset) (hregion hset) (hweight hset)
      (hdivision hset) with ⟨hplaysRange, hfloor⟩
    refine .inl ⟨rfl, ?_⟩
    exact
      { minutes := hminutes hset
        plays := hplaysRange
        price := hprice hset
        region := hregion hset
        workId := hworkId hset
        weight := hfloor
        commitment := hcommitment hset
        pseudonym := hpseudonym hset }

/-! ## The circuit -/

/-- Rows that are both active are of different works. -/
def DistinctWorks (a b : RowAssignment) : Prop :=
  a.activeVar = 1 → b.activeVar = 1 → a.workIdVar ≠ b.workIdVar

theorem ensures_enforceDistinct (a b : RowAssignment) :
    Ensures (enforceDistinct a.toRowVars b.toRowVars) fun _ => DistinctWorks a b := by
  refine (ensures_isEq _ _).bind ?_
  rintro _ rfl
  refine (ensures_enforceKaryNand _ _).mono ?_
  intro _ h ha hb heq
  simp [ha, hb, heq] at h

theorem ensures_enforceUnique (rows : List RowAssignment) :
    Ensures (enforceUnique rows) fun _ => rows.Pairwise DistinctWorks := by
  induction rows with
  | nil => exact ensures_pure List.Pairwise.nil
  | cons a rest ih =>
      refine (ensures_forM fun b _ => ensures_enforceDistinct a b).bind ?_
      intro _ ha
      refine ih.mono ?_
      intro _ hrest
      exact List.Pairwise.cons ha hrest

/-- What the variables of the statement are. -/
structure ProvenUsage (poseidonHash : PoseidonHash) (v : UsageAssignment) : Prop where
  rows : ∀ r ∈ v.rows, ProvenRow poseidonHash v.kEpochVar r
  unique : v.rows.Pairwise DistinctWorks
  digest : v.digestVar = poseidonHash
    (v.epochVar :: v.tierVar :: v.kEpochVar :: v.rows.flatMap rowDigestInputs)

theorem ensures_synthesizeWitness (circuit : UsageCircuit) (digestVar : Fr) :
    Ensures (synthesizeWitness poseidonHash circuit digestVar) fun v =>
      v.digestVar = digestVar ∧ v.rows.length = circuit.rows.length ∧
        ProvenUsage poseidonHash v := by
  apply ensures_newWitness_bind
  intro kEpochVar
  refine (ensures_mapM (Q := fun _ r => ProvenRow poseidonHash kEpochVar r)
    fun row _ => ensures_enforceRow row).bind ?_
  intro rows hrows
  refine (ensures_enforceUnique rows).bind ?_
  intro _ hunique
  apply ensures_newWitness_bind
  intro epochVar
  apply ensures_newWitness_bind
  intro tierVar
  apply ensures_require_bind
  intro hdigest
  refine ensures_pure ⟨rfl, hrows.length_eq.symm, ?_, hunique, hdigest⟩
  intro r hr
  rcases exists_left_of_forall₂ hrows hr with ⟨-, -, hrow⟩
  exact hrow

/-! ## The public input -/

theorem inputFree_enforceBitWidth (value : Fr) (nBits : Nat) (guard : Fr) :
    (enforceBitWidth value nBits guard).InputFree :=
  (inputFree_toBitsLe _ _).bind fun _ => inputFree_conditionalEnforceEqual _ _ _

theorem inputFree_enforceDrWeight (row : RowWitness) (m plays p g w active : Fr) :
    (enforceDrWeight row m plays p g w active).InputFree := by
  refine (inputFree_mapM (fun _ => inputFree_newBit _) _).bind fun selectors => ?_
  refine (inputFree_conditionalEnforceEqual _ _ _).bind fun _ => ?_
  refine (inputFree_conditionalEnforceEqual _ _ _).bind fun _ => ?_
  refine (inputFree_mul _ _).bind fun _ => (inputFree_mul _ _).bind fun _ => ?_
  refine (inputFree_newWitness _).bind fun _ => (inputFree_mul _ _).bind fun _ => ?_
  refine (inputFree_conditionalEnforceEqual _ _ _).bind fun _ => ?_
  refine (inputFree_enforceBitWidth _ _ _).bind fun _ => ?_
  exact inputFree_enforceBitWidth _ _ _

theorem inputFree_enforceRow (row : RowWitness) :
    (enforceRow poseidonHash kEpochVar row).InputFree := by
  apply (inputFree_newBit _).bind
  intro active
  -- The nine values of the row.
  iterate 9 refine (inputFree_newWitness _).bind fun _ => ?_
  refine (inputFree_conditionalEnforceEqual _ _ _).bind fun _ => ?_
  iterate 5 refine (inputFree_enforceBitWidth _ _ _).bind fun _ => ?_
  refine (inputFree_conditionalEnforceNotEqual _ _ _).bind fun _ => ?_
  refine (inputFree_enforceDrWeight _ _ _ _ _ _ _).bind fun _ => ?_
  refine (inputFree_enforceBitWidth _ _ _).bind fun _ => ?_
  iterate 5 refine (inputFree_conditionalEnforceEqual _ _ _).bind fun _ => ?_
  exact inputFree_pure _

theorem inputFree_enforceUnique (rows : List RowAssignment) : (enforceUnique rows).InputFree := by
  induction rows with
  | nil => exact inputFree_pure ()
  | cons a rest ih =>
      have hpair : ∀ b : RowAssignment, (enforceDistinct a.toRowVars b.toRowVars).InputFree :=
        fun b => (inputFree_isEq _ _).bind fun _ => inputFree_enforceKaryNand _ _
      exact (inputFree_forM hpair rest).bind fun _ => ih

theorem inputFree_synthesizeWitness (circuit : UsageCircuit) (digestVar : Fr) :
    (synthesizeWitness poseidonHash circuit digestVar).InputFree := by
  refine (inputFree_newWitness _).bind fun _ => ?_
  refine (inputFree_mapM (fun _ => inputFree_enforceRow _) _).bind fun rows => ?_
  refine (inputFree_enforceUnique rows).bind fun _ => ?_
  refine (inputFree_newWitness _).bind fun _ => (inputFree_newWitness _).bind fun _ => ?_
  exact (inputFree_require _).bind fun _ => inputFree_pure _

/-! ## Every satisfying assignment -/

/-- Soundness of the circuit.  In every assignment that satisfies the constraints, the digest is
the only public input and hashes exactly these rows; each row is a proven active row or the
canonical padding; and no two active rows are of the same work. -/
theorem usage_circuit_sound (poseidonHash : PoseidonHash) (circuit : UsageCircuit)
    (system : Synth Fr UsageAssignment) (s : Assignment Fr) (v : UsageAssignment)
    (hsystem : generateConstraints poseidonHash circuit = .ok system) (hs : system.Reads s v) :
    s.inputs = [v.digestVar] ∧ v.rows.length = maxWorks ∧
      (∀ r ∈ v.rows, ProvenRow poseidonHash v.kEpochVar r) ∧
      (v.rows.Pairwise fun a b =>
        a.activeVar = 1 → b.activeVar = 1 → a.workIdVar ≠ b.workIdVar) ∧
      v.digestVar = poseidonHash
        (v.epochVar :: v.tierVar :: v.kEpochVar :: v.rows.flatMap rowDigestInputs) := by
  unfold generateConstraints at hsystem
  split at hsystem
  · cases hsystem
  · rename_i hshape
    have hsynth : synthesize poseidonHash circuit = system := Except.ok.inj hsystem
    rw [← hsynth] at hs
    rcases InputFree.inputs_of_reads (inputFree_synthesizeWitness circuit) hs with
      ⟨digestVar, ws, rfl, hrest⟩
    rcases (ensures_synthesizeWitness circuit digestVar).of_reads hrest with
      ⟨hdigest, hlength, husage⟩
    refine ⟨?_, ?_, husage.rows, husage.unique, husage.digest⟩
    · rw [hdigest]
    · rw [hlength]
      exact not_not.1 hshape

end Zk
end CleanWeb
