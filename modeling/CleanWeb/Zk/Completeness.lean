import CleanWeb.Zk.Prover

/-!
# When the prover's circuit is satisfied

`prove` assembles a satisfied circuit exactly when every row's plays lie in the circuit's table and
the native weight of every row is computed without overflow.
-/

namespace CleanWeb
namespace Zk

open Lib Lib.Exec Lib.Synth Lib.Gadget Dapr

variable {poseidonHash : PoseidonHash} {checks : Bool}

/-! ## The circuit-wide passes -/

/-- The pairwise check holds of bits that are not both set, or of different works. -/
theorem accepted_enforceUnique (rows : List RowAssignment) :
    (enforceUnique rows).Accepted ↔ rows.Pairwise fun a b =>
      a.activeVar * (b.activeVar * if a.workIdVar = b.workIdVar then 1 else 0) = 0 := by
  induction rows with
  | nil => simp [enforceUnique]
  | cons a rest ih =>
      simp [enforceUnique, enforceDistinct, accepted_enforceKaryNand, ih]

@[simp] theorem value_synthesize (circuit : UsageCircuit) :
    (synthesize poseidonHash circuit).value =
      { digestVar := frFromBytes32 circuit.digest
        kEpochVar := frFromBytes32 circuit.kEpoch
        rows := circuit.rows.map liftRow
        epochVar := frFromU128 circuit.epoch
        tierVar := frFromBytes32 circuit.tier } := by
  simp [synthesize, synthesizeWitness]

theorem accepted_synthesize (circuit : UsageCircuit) :
    (synthesize poseidonHash circuit).Accepted ↔
      (∀ row ∈ circuit.rows,
        (enforceRow poseidonHash (frFromBytes32 circuit.kEpoch) row).Accepted) ∧
      (enforceUnique (circuit.rows.map liftRow)).Accepted ∧
      frFromBytes32 circuit.digest = poseidonHash
        (frFromU128 circuit.epoch :: frFromBytes32 circuit.tier ::
          frFromBytes32 circuit.kEpoch :: (circuit.rows.map liftRow).flatMap rowDigestInputs) := by
  simp [synthesize, synthesizeWitness]

theorem satisfied_iff {circuit : UsageCircuit} (hshape : circuit.rows.length = maxWorks) :
    circuit.Satisfied poseidonHash ↔ (synthesize poseidonHash circuit).Accepted := by
  -- Only the number of rows can stop the synthesis.
  have hsystem : generateConstraints poseidonHash circuit =
      .ok (synthesize poseidonHash circuit) := if_neg (not_not.2 hshape)
  constructor
  · rintro ⟨system, h, hreads⟩
    have heq : synthesize poseidonHash circuit = system := Except.ok.inj (hsystem.symm.trans h)
    rw [heq]
    exact (check_honest_iff system).1 hreads
  · intro h
    exact ⟨_, hsystem, (check_honest_iff _).2 h⟩

/-! ## Assembled circuits -/

/-- What `prove` assembles: the active rows, the padding and the native digest over both. -/
theorem assemble_eq_ok {epoch kPpm : Nat} {tier kEpoch : Bytes32} {inputs : List UsageRowInput}
    {circuit : UsageCircuit}
    (h : assemble poseidonHash checks epoch tier kEpoch kPpm inputs = .ok circuit) :
    inputs.length ≤ maxWorks ∧ ∃ active,
      List.Forall₂ (fun input row =>
        activeRow poseidonHash checks kEpoch kPpm input = .ok row) inputs active ∧
      circuit.epoch = epoch ∧ circuit.tier = tier ∧ circuit.kEpoch = kEpoch ∧
      circuit.rows = active ++
        List.replicate (maxWorks - active.length) (paddedRow poseidonHash kEpoch) ∧
      circuit.digest = digest poseidonHash epoch tier kEpoch (circuit.rows.map publicRowOf) := by
  unfold assemble at h
  split at h
  · cases h
  · rename_i hlength
    rcases bind_eq_ok.1 h with ⟨active, hactive, hcircuit⟩
    have heq := (Except.ok.inj hcircuit).symm
    subst heq
    exact ⟨not_lt.1 hlength, active, forall₂_of_mapM hactive, rfl, rfl, rfl, rfl, rfl⟩

/-- Provable inputs are assembled. -/
theorem exists_assemble (poseidonHash : PoseidonHash) (checks : Bool) (epoch : Nat)
    (tier kEpoch : Bytes32) {inputs : List UsageRowInput} (hlength : inputs.length ≤ maxWorks)
    (hrange : ∀ input ∈ inputs, input.InRange)
    (hprovable : ∀ input ∈ inputs, input.Provable) :
    ∃ circuit, assemble poseidonHash checks epoch tier kEpoch 1000000 inputs = .ok circuit := by
  -- No row of a provable input panics or fails, so neither does the loop.
  have hrows : ∀ input ∈ inputs, ∃ row,
      activeRow poseidonHash checks kEpoch 1000000 input = .ok row := by
    intro input hinput
    rcases weightOf_of_provable checks (hrange input hinput)
      (hprovable input hinput) with ⟨d, -, hweight⟩
    simp only [activeRow, hweight, infallible]
    exact ⟨_, rfl⟩
  rcases exists_mapM hrows with ⟨active, hactive⟩
  let rows := active ++
    List.replicate (maxWorks - active.length) (paddedRow poseidonHash kEpoch)
  refine ⟨{ epoch := epoch, tier := tier, kEpoch := kEpoch, kPpm := 1000000, rows := rows
            digest := digest poseidonHash epoch tier kEpoch (rows.map publicRowOf) }, ?_⟩
  rw [assemble, if_neg (not_lt.2 hlength), hactive]
  rfl

/-- The native digest of the rows is the one the circuit recomputes. -/
theorem digest_agrees (epoch : Nat) (tier kEpoch : Bytes32) (rows : List RowWitness) :
    frFromBytes32 (digest poseidonHash epoch tier kEpoch (rows.map publicRowOf)) =
      poseidonHash (frFromU128 epoch :: frFromBytes32 tier :: frFromBytes32 kEpoch ::
        (rows.map liftRow).flatMap rowDigestInputs) := by
  rw [digest, frFromBytes32_frToBytes32, List.flatMap_map, List.flatMap_map]
  rfl

/-- Active rows of different works, then padding, pass the pairwise check. -/
theorem accepted_enforceUnique_padded {kEpoch : Bytes32} {active : List RowWitness} (n : Nat)
    (hdistinct : (active.map fun row => frFromBytes32 row.workId).Nodup) :
    (enforceUnique ((active ++ List.replicate n (paddedRow poseidonHash kEpoch)).map
      liftRow)).Accepted := by
  have hpad : (liftRow (paddedRow poseidonHash kEpoch)).activeVar = 0 := rfl
  rw [accepted_enforceUnique, List.map_append, List.map_replicate, List.pairwise_append]
  refine ⟨?_, ?_, ?_⟩
  · -- Two active rows: their works differ.
    rw [List.pairwise_map]
    rw [List.Nodup, List.pairwise_map] at hdistinct
    refine hdistinct.imp ?_
    intro a b hne
    have hif : (liftRow a).workIdVar ≠ (liftRow b).workIdVar := hne
    rw [if_neg hif, mul_zero, mul_zero]
  · -- Two rows of padding: neither is active.
    rw [List.pairwise_replicate]
    right
    rw [hpad, zero_mul]
  · -- An active row and padding: the second flag is zero.
    intro a _ b hb
    rw [List.eq_of_mem_replicate hb, hpad, zero_mul, mul_zero]

/-! ## Completeness -/

section Assembled

variable {epoch : Nat} {tier kEpoch : Bytes32} {inputs : List UsageRowInput}
variable {circuit : UsageCircuit}

theorem satisfied_of_provable
    (hassemble : assemble poseidonHash checks epoch tier kEpoch 1000000 inputs = .ok circuit)
    (hdistinct : (inputs.map fun input => frFromBytes32 input.workId).Nodup)
    (hrange : ∀ input ∈ inputs, input.InRange)
    (hprovable : ∀ input ∈ inputs, input.Provable) : circuit.Satisfied poseidonHash := by
  rcases assemble_eq_ok hassemble with
    ⟨hlength, active, hactive, hepoch, htier, hkEpoch, hrows, hdigest⟩
  have hlen := hactive.length_eq
  have hshape : circuit.rows.length = maxWorks := by
    rw [hrows, List.length_append, List.length_replicate]
    omega
  have hids : active.map (fun row => frFromBytes32 row.workId) =
      inputs.map fun input => frFromBytes32 input.workId := by
    clear hdistinct hrange hprovable hlength hrows hassemble hlen
    induction hactive with
    | nil => rfl
    | cons hrow _ ih =>
        rcases activeRow_eq_ok hrow with ⟨weight, -, rfl⟩
        simp [ih]
  rw [satisfied_iff hshape, accepted_synthesize]
  refine ⟨?_, ?_, ?_⟩
  · intro row hrow
    rw [hkEpoch]
    rw [hrows, List.mem_append] at hrow
    rcases hrow with hrow | hrow
    · rcases exists_left_of_forall₂ hactive hrow with ⟨input, hinput, hget⟩
      exact accepted_enforceRow_active
        (honestRow_of_activeRow (hrange input hinput) (hprovable input hinput) hget)
    · rw [List.eq_of_mem_replicate hrow]
      exact accepted_enforceRow_padded kEpoch
  · rw [hrows]
    exact accepted_enforceUnique_padded _ (hids ▸ hdistinct)
  · rw [hdigest, hepoch, htier, hkEpoch]
    exact digest_agrees epoch tier kEpoch circuit.rows

/-- A satisfied circuit comes from provable inputs: soundness, applied to the prover's own
assignment. -/
theorem provable_of_satisfied
    (hassemble : assemble poseidonHash checks epoch tier kEpoch 1000000 inputs = .ok circuit)
    (hsatisfied : circuit.Satisfied poseidonHash) (hrange : ∀ input ∈ inputs, input.InRange) :
    ∀ input ∈ inputs, input.Provable := by
  rcases assemble_eq_ok hassemble with
    ⟨hlength, active, hactive, -, -, -, hrows, -⟩
  have hlen := hactive.length_eq
  have hshape : circuit.rows.length = maxWorks := by
    rw [hrows, List.length_append, List.length_replicate]
    omega
  -- The honest assignment is one of those that soundness speaks of.
  have hreads := (check_honest_iff _).2 ((satisfied_iff hshape).1 hsatisfied)
  have hensures : Ensures (synthesize poseidonHash circuit) fun v =>
      ∀ r ∈ v.rows, ProvenRow poseidonHash v.kEpochVar r := by
    apply ensures_newInput_bind
    intro digestVar
    exact (ensures_synthesizeWitness circuit digestVar).mono fun v hv => hv.2.2.rows
  have hproven := hensures.of_reads hreads
  rw [value_synthesize] at hproven
  intro input hinput
  rcases exists_right_of_forall₂ hactive hinput with ⟨row, hrow, hget⟩
  refine provable_of_activeRow (hrange input hinput) hget (hproven _ ?_)
  rw [hrows, List.map_append, List.mem_append]
  exact .inl (List.mem_map_of_mem hrow)

end Assembled

/-- For every list of rows in the admitted ranges, with works distinct and non-zero in the field,
`prove` assembles a satisfied circuit if and only if every row is provable. -/
theorem prove_satisfied_iff (poseidonHash : PoseidonHash) (checks : Bool) (epoch : Nat)
    (tier kEpoch : Bytes32) (inputs : List UsageRowInput) (hlength : inputs.length ≤ maxWorks)
    (hdistinct : (inputs.map fun input => frFromBytes32 input.workId).Nodup)
    (hrange : ∀ input ∈ inputs, input.InRange) :
    (∃ circuit, assemble poseidonHash checks epoch tier kEpoch 1000000 inputs = .ok circuit ∧
      circuit.Satisfied poseidonHash) ↔ ∀ input ∈ inputs, input.Provable := by
  constructor
  · rintro ⟨circuit, hassemble, hsatisfied⟩
    exact provable_of_satisfied hassemble hsatisfied hrange
  · intro hprovable
    rcases exists_assemble poseidonHash checks epoch tier kEpoch hlength hrange hprovable with
      ⟨circuit, hassemble⟩
    exact ⟨circuit, hassemble, satisfied_of_provable hassemble hdistinct hrange hprovable⟩

/-! ## Samples -/

/-- One hour of work 1. -/
def sampleInput (plays : Nat) : UsageRowInput :=
  { workId := 1, minutes := 60, plays := plays, salt := 9, pricePpm := 1000000
    regionPpm := 1000000 }

/-- The top of the admitted ranges. -/
def sampleTop : UsageRowInput :=
  { workId := 1, minutes := 2 ^ 32 - 1, plays := 1, salt := 9, pricePpm := 2 ^ 40 - 1
    regionPpm := 2 ^ 40 - 1 }

theorem sampleInput_inRange (plays : Nat) (hplays : plays < 2 ^ 64) :
    (sampleInput plays).InRange :=
  { minutes := by simp [sampleInput]
    plays := hplays
    price := by simp [sampleInput]
    region := by simp [sampleInput]
    workId := show frFromBytes32 1 ≠ 0 by decide +kernel }

theorem sampleInput_provable : (sampleInput 2).Provable := by
  refine ⟨by decide, by decide, ?_⟩
  intro d hd
  have hd2 : dPpm (sampleInput 2).plays 1000000 = .ok 750000 := by decide +kernel
  rw [hd2] at hd
  rw [← Except.ok.inj hd]
  decide

theorem prove_satisfied_iff_sample :
    ∃ circuit, assemble List.sum true 7 0xAB 0x5c 1000000 [sampleInput 2] = .ok circuit ∧
      circuit.Satisfied List.sum :=
  (prove_satisfied_iff List.sum true 7 0xAB 0x5c [sampleInput 2] (by decide) (by simp)
    (by simpa using sampleInput_inRange 2 (by decide))).2
    (by simpa using sampleInput_provable)

/-- The circuit of one sample row has a satisfying assignment, and its public input is what the
soundness theorem says. -/
theorem usage_circuit_sound_sample :
    ∃ circuit system, assemble List.sum true 7 0xAB 0x5c 1000000 [sampleInput 2] = .ok circuit ∧
      generateConstraints List.sum circuit = .ok system ∧
      system.honest.inputs = [system.value.digestVar] ∧ system.value.rows.length = 16 ∧
      ∀ r ∈ system.value.rows, ProvenRow List.sum system.value.kEpochVar r := by
  have hrange : ∀ input ∈ [sampleInput 2], input.InRange := by
    simpa using sampleInput_inRange 2 (by decide)
  have hprovable : ∀ input ∈ [sampleInput 2], input.Provable := by
    simpa using sampleInput_provable
  rcases exists_assemble List.sum true 7 0xAB 0x5c (by decide) hrange hprovable with
    ⟨circuit, hassemble⟩
  rcases satisfied_of_provable hassemble (by simp) hrange hprovable with
    ⟨system, hsystem, hreads⟩
  rcases usage_circuit_sound List.sum circuit system system.honest system.value hsystem hreads
    with ⟨hinputs, hlength, hrows, -, -⟩
  exact ⟨circuit, system, hassemble, hsystem, hinputs, hlength, hrows⟩

/-- Sixty-five plays, no play, and the top of the ranges: in none of these cases is the circuit
satisfied, with overflow checks or without. -/
theorem sample_not_satisfied :
    ((sampleInput 65).InRange ∧ (sampleInput 0).InRange ∧ sampleTop.InRange) ∧
    ∀ checks, ∀ input ∈ [sampleInput 65, sampleInput 0, sampleTop], ¬ ∃ circuit,
      assemble List.sum checks 7 0xAB 0x5c 1000000 [input] = .ok circuit ∧
        circuit.Satisfied List.sum := by
  have hranges : (sampleInput 65).InRange ∧ (sampleInput 0).InRange ∧ sampleTop.InRange := by
    refine ⟨sampleInput_inRange _ (by decide), sampleInput_inRange _ (by decide), ?_⟩
    exact
      { minutes := by decide
        plays := by decide
        price := by decide
        region := by decide
        workId := by decide +kernel }
  have hprovable : ∀ input ∈ [sampleInput 65, sampleInput 0, sampleTop], ¬ input.Provable := by
    intro input hinput hprovable
    rcases hprovable with ⟨h1, h64, hfits⟩
    simp only [List.mem_cons, List.not_mem_nil, or_false] at hinput
    rcases hinput with rfl | rfl | rfl
    · exact absurd h64 (by decide)
    · exact absurd h1 (by decide)
    · have hd : dPpm sampleTop.plays 1000000 = .ok 1000000 := by decide +kernel
      exact absurd (hfits 1000000 hd) (by decide)
  refine ⟨hranges, ?_⟩
  rintro checks input hinput ⟨circuit, hassemble, hsatisfied⟩
  have hrange : input.InRange := by
    simp only [List.mem_cons, List.not_mem_nil, or_false] at hinput
    rcases hinput with rfl | rfl | rfl
    · exact hranges.1
    · exact hranges.2.1
    · exact hranges.2.2
  refine hprovable input hinput (provable_of_satisfied hassemble hsatisfied ?_ input (by simp))
  intro other hother
  rw [List.mem_singleton.1 hother]
  exact hrange

end Zk
end CleanWeb
