import CleanWeb.Settle.Finalize

/-!
# What `finalize` returns

`finalize` sends every credited work to exactly one of the direct entries and the escrow list, in
the order of the payouts, and adds up both sides.  `Finalized` records this together with the tree
that the entries' proofs were read from.
-/

namespace CleanWeb
namespace Settle

open Lib Lib.Exec Dapr

variable {hex : HexCodec} {keccak256 : Keccak} {escrowWorks : BTreeSet WorkId}

/-! ## The routing loop -/

/-- The id that a work's text parses to, zero where it does not parse. -/
def idOf (hex : HexCodec) (workHex : WorkId) : Bytes32 :=
  match Bytes32.fromStr hex workHex with
  | .ok work => work
  | .error _ => 0

/-- The credits that go to the direct tree. -/
def directOf (escrowWorks : BTreeSet WorkId) (credits : List (WorkId × Nat)) :
    List (WorkId × Nat) :=
  credits.filter fun e => !escrowWorks.contains e.1

/-- The credits that go to escrow. -/
def escrowedOf (escrowWorks : BTreeSet WorkId) (credits : List (WorkId × Nat)) :
    List (WorkId × Nat) :=
  credits.filter fun e => escrowWorks.contains e.1

/-- A credit under its on-chain id. -/
def creditOf (hex : HexCodec) (e : WorkId × Nat) : Bytes32 × Nat :=
  (idOf hex e.1, e.2)

theorem sum_directOf_add_sum_escrowedOf (escrowWorks : BTreeSet WorkId)
    (credits : List (WorkId × Nat)) :
    ((directOf escrowWorks credits).map Prod.snd).sum +
      ((escrowedOf escrowWorks credits).map Prod.snd).sum = (credits.map Prod.snd).sum := by
  induction credits with
  | nil =>
      rfl
  | cons e credits ih =>
      by_cases h : escrowWorks.contains e.1 = true
      · simp only [directOf, escrowedOf, h, List.filter_cons, Bool.not_true, if_true, List.map_cons,
          List.sum_cons, Bool.false_eq_true, if_false] at ih ⊢
        omega
      · have hfalse : escrowWorks.contains e.1 = false := eq_false_of_ne_true h
        simp only [directOf, escrowedOf, hfalse, List.filter_cons, Bool.not_false, if_true,
          List.map_cons, List.sum_cons, Bool.false_eq_true, if_false] at ih ⊢
        omega

/-- What the routing loop has established after the credits `done`. -/
structure Routed (hex : HexCodec) (keccak256 : Keccak) (escrowWorks : BTreeSet WorkId)
    (done : List (WorkId × Nat)) (st : RoutePass) : Prop where
  directIds : st.directIds = (directOf escrowWorks done).map fun e => idOf hex e.1
  directAmounts : st.directAmounts = (directOf escrowWorks done).map Prod.snd
  leaves : st.leaves = (directOf escrowWorks done).map fun e =>
    leafHash keccak256 (idOf hex e.1) e.2
  escrow : st.escrow = (escrowedOf escrowWorks done).map fun e => ⟨idOf hex e.1, e.2⟩
  escrowTotal : st.escrowTotal = ((escrowedOf escrowWorks done).map Prod.snd).sum

/-- Why `finalize` stops: no credit, a work id that does not parse, or a sum that does not fit. -/
inductive Stops (hex : HexCodec) (credits : List (WorkId × Nat)) : Trap SettleError → Prop where
  | noCredits : credits = [] → Stops hex credits (.err .noCredits)
  | badWorkId (work : WorkId) (a : Nat) : (work, a) ∈ credits →
      (∀ b, Bytes32.fromStr hex work ≠ .ok b) → Stops hex credits (.err (.badWorkId work))
  | overflow : 2 ^ 128 ≤ (credits.map Prod.snd).sum → Stops hex credits .panic

theorem fromStr_ne_panic (s : String) : Bytes32.fromStr hex s ≠ .error .panic := by
  unfold Bytes32.fromStr
  cases hdec : hex.decode (Bytes32.stripHexPrefix s) with
  | none =>
      simp [okOr, fail]
  | some bs =>
      simp only [okOr, ok_bind]
      split <;> simp [fail, pure, Except.pure]

theorem parseWorkId_meets (workHex : WorkId) :
    Meets (parseWorkId hex workHex) (fun work => work = idOf hex workHex)
      (fun t => t = .err (.badWorkId workHex) ∧ ∀ b, Bytes32.fromStr hex workHex ≠ .ok b) := by
  unfold parseWorkId idOf
  rw [meets_mapErr]
  cases hparse : Bytes32.fromStr hex workHex with
  | ok work =>
      rfl
  | error t =>
      cases t with
      | err e =>
          simp
      | panic =>
          exact absurd hparse (fromStr_ne_panic workHex)

theorem routeStep_meets {done : List (WorkId × Nat)} {st : RoutePass} {e : WorkId × Nat}
    (hst : Routed hex keccak256 escrowWorks done st) :
    Meets (routeStep hex keccak256 escrowWorks st e)
      (Routed hex keccak256 escrowWorks (done ++ [e])) (Stops hex (done ++ [e])) := by
  have hparts := sum_directOf_add_sum_escrowedOf escrowWorks done
  unfold routeStep
  refine ((parseWorkId_meets e.1).mono (fun _ _ h => h) fun t ht => ?_).bind ?_
  · rcases ht with ⟨rfl, hbad⟩
    exact Stops.badWorkId e.1 e.2 (by simp) hbad
  rintro work rfl
  by_cases h : escrowWorks.contains e.1 = true
  · rw [if_pos h]
    have hdirect : directOf escrowWorks (done ++ [e]) = directOf escrowWorks done := by
      simp [directOf, h]
    have hescrowed : escrowedOf escrowWorks (done ++ [e]) = escrowedOf escrowWorks done ++ [e] := by
      simp [escrowedOf, h]
    unfold addU
    split
    · refine ⟨?_, ?_, ?_, ?_, ?_⟩
      · simp only [hdirect, hst.directIds]
      · simp only [hdirect, hst.directAmounts]
      · simp only [hdirect, hst.leaves]
      · simp [hescrowed, hst.escrow]
      · simp [hescrowed, hst.escrowTotal]
    · rename_i hfit
      refine Stops.overflow ?_
      rw [hst.escrowTotal] at hfit
      simp only [List.map_append, List.sum_append, List.map_cons, List.map_nil, List.sum_cons,
        List.sum_nil]
      omega
  · rw [if_neg h]
    have hfalse : escrowWorks.contains e.1 = false := eq_false_of_ne_true h
    have hdirect : directOf escrowWorks (done ++ [e]) = directOf escrowWorks done ++ [e] := by
      simp [directOf, hfalse]
    have hescrowed : escrowedOf escrowWorks (done ++ [e]) = escrowedOf escrowWorks done := by
      simp [escrowedOf, hfalse]
    refine ⟨?_, ?_, ?_, ?_, ?_⟩
    · simp [hdirect, hst.directIds]
    · simp [hdirect, hst.directAmounts]
    · simp [hdirect, hst.leaves]
    · simp only [hescrowed, hst.escrow]
    · simp only [hescrowed, hst.escrowTotal]

theorem Stops.append {as : List (WorkId × Nat)} {t : Trap SettleError} (h : Stops hex as t)
    (hne : as ≠ []) (bs : List (WorkId × Nat)) : Stops hex (as ++ bs) t := by
  cases h with
  | noCredits hnil =>
      exact absurd hnil hne
  | badWorkId work a hmem hbad =>
      exact Stops.badWorkId work a (List.mem_append_left _ hmem) hbad
  | overflow hsum =>
      refine Stops.overflow (hsum.trans ?_)
      simp

theorem routeLoop_meets (credits : List (WorkId × Nat)) :
    Meets (credits.foldlM (routeStep hex keccak256 escrowWorks) ⟨[], [], [], [], 0⟩)
      (Routed hex keccak256 escrowWorks credits) (Stops hex credits) := by
  refine Meets.foldlM (Routed hex keccak256 escrowWorks) ⟨rfl, rfl, rfl, rfl, rfl⟩ ?_
  intro done e rest st hsplit hst
  refine (routeStep_meets hst).mono (fun _ _ h => h) fun t ht => ?_
  have hall := ht.append (by simp) rest
  rwa [List.append_assoc, List.singleton_append, ← hsplit] at hall

/-! ## The direct tree -/

/-- The entries of the direct side: ids, amounts, and proofs read from one tree. -/
structure Committed (keccak256 : Keccak) (ids : List Bytes32) (amounts : List Nat)
    (root : Bytes32) (entries : List SettlementEntry) (totalCredits : Nat) : Prop where
  workIds_eq : entries.map SettlementEntry.workId = ids
  amounts_eq : entries.map SettlementEntry.amount = amounts
  total : totalCredits = amounts.sum
  fits : ∀ e ∈ entries, e.amount < 2 ^ 128
  empty : entries = [] → root = 0
  tree : entries ≠ [] → ∃ tree : MerkleTree,
    (MerkleTree.build keccak256 (entries.map fun e => leafHash keccak256 e.workId e.amount) :
      Exec SettleError MerkleTree) = .ok tree ∧
    (tree.root : Exec SettleError Bytes32) = .ok root ∧
    ∀ i e, entries[i]? = some e → e.proof = tree.proof i

theorem directEntry_meets {st : RoutePass} {tree : MerkleTree} {i : Nat}
    {E : Trap SettleError → Prop} (hids : i < st.directIds.length)
    (hamounts : i < st.directAmounts.length) :
    Meets (directEntry st tree i)
      (fun e => st.directIds[i]? = some e.workId ∧ st.directAmounts[i]? = some e.amount ∧
        e.proof = tree.proof i) E := by
  unfold directEntry
  rw [List.getElem?_eq_getElem hids, List.getElem?_eq_getElem hamounts]
  exact ⟨rfl, rfl, rfl⟩

/-- Entries read index by index list the ids and amounts they were read from. -/
theorem entries_eq_of_forall₂ {st : RoutePass} {tree : MerkleTree}
    {entries : List SettlementEntry} (hlen : st.directAmounts.length = st.directIds.length)
    (h : List.Forall₂ (fun i e => st.directIds[i]? = some e.workId ∧
      st.directAmounts[i]? = some e.amount ∧ e.proof = tree.proof i)
      (List.range st.directIds.length) entries) :
    entries.map SettlementEntry.workId = st.directIds ∧
      entries.map SettlementEntry.amount = st.directAmounts ∧
      ∀ i e, entries[i]? = some e → e.proof = tree.proof i := by
  have hcount : entries.length = st.directIds.length := by
    rw [← h.length_eq, List.length_range]
  have hat : ∀ i (hi : i < entries.length), st.directIds[i]? = some entries[i].workId ∧
      st.directAmounts[i]? = some entries[i].amount ∧ entries[i].proof = tree.proof i := by
    intro i hi
    simpa using h.get (i := i) (by simpa using hcount ▸ hi) hi
  refine ⟨?_, ?_, ?_⟩
  · refine List.ext_getElem (by simpa using hcount) ?_
    intro i hi _
    have hid := (hat i (by simpa using hi)).1
    rw [List.getElem?_eq_some_iff] at hid
    simpa using hid.2.symm
  · refine List.ext_getElem (by simpa [hlen] using hcount) ?_
    intro i hi _
    have hamount := (hat i (by simpa using hi)).2.1
    rw [List.getElem?_eq_some_iff] at hamount
    simpa using hamount.2.symm
  · intro i e he
    rcases List.getElem?_eq_some_iff.1 he with ⟨hi, rfl⟩
    exact (hat i hi).2.2

theorem directTree_meets {st : RoutePass} (hlen : st.directAmounts.length = st.directIds.length)
    (hleaves : st.leaves = (st.directIds.zip st.directAmounts).map fun e =>
      leafHash keccak256 e.1 e.2) :
    Meets (directTree keccak256 st)
      (fun out => Committed keccak256 st.directIds st.directAmounts out.1 out.2.1 out.2.2)
      (fun t => t = .panic ∧ 2 ^ 128 ≤ st.directAmounts.sum) := by
  unfold directTree
  by_cases hempty : st.directIds = []
  · have hamounts : st.directAmounts = [] := by
      rw [← List.length_eq_zero_iff, hlen, hempty, List.length_nil]
    rw [if_pos (by simp [hempty])]
    refine ⟨?_, ?_, ?_, ?_, ?_, ?_⟩ <;> simp [hempty, hamounts]
  rw [if_neg (by simp [hempty])]
  have hlengths : st.leaves.length = st.directIds.length := by
    simp [hleaves, hlen]
  have hne : st.leaves ≠ [] := by
    rw [← List.length_pos_iff, hlengths, List.length_pos_iff]
    exact hempty
  have hpos : 0 < st.leaves.length := List.length_pos_iff.2 hne
  rcases verify_proof_of_getElem? SettleError keccak256
    (List.getElem?_eq_getElem hpos) with ⟨tree, root, hbuild, hroot, -⟩
  rw [hbuild, ok_bind, hroot, ok_bind]
  refine (meets_mapM fun i hi => directEntry_meets (by simpa using hi)
    (by simpa [hlen] using hi)).bind ?_
  intro entries hall
  rcases entries_eq_of_forall₂ hlen hall with ⟨hids, hamounts, hproofs⟩
  refine (meets_sumU 128 st.directAmounts).bind ?_
  rintro total ⟨rfl, hfits⟩
  refine ⟨hids, hamounts, rfl, ?_, ?_, ?_⟩
  · intro e he
    refine hfits e.amount ?_
    rw [← hamounts]
    exact List.mem_map_of_mem he
  · intro hnil
    have hnil' : entries = [] := hnil
    rw [← hids, hnil'] at hempty
    simp at hempty
  · intro _
    refine ⟨tree, ?_, hroot, hproofs⟩
    have hleaves' : (entries.map fun e => leafHash keccak256 e.workId e.amount) = st.leaves := by
      rw [hleaves, ← hids, ← hamounts, List.zip_map', List.map_map]
      rfl
    rw [hleaves', hbuild]

/-! ## The whole function -/

/-- What a settlement says about the payouts it was made from. -/
structure Finalized (hex : HexCodec) (keccak256 : Keccak) (escrowWorks : BTreeSet WorkId)
    (payouts : Payouts) (s : Settlement) : Prop where
  direct : s.entries.map (fun e => (e.workId, e.amount)) =
    (directOf escrowWorks payouts.perWork.toList).map (creditOf hex)
  escrow : s.escrow.map (fun e => (e.workId, e.amount)) =
    (escrowedOf escrowWorks payouts.perWork.toList).map (creditOf hex)
  committed : Committed keccak256 (s.entries.map SettlementEntry.workId)
    (s.entries.map SettlementEntry.amount) s.merkleRoot s.entries s.totalCredits
  escrowTotal : s.escrowTotal = (s.escrow.map EscrowEntry.amount).sum
  unallocated : s.unallocated = payouts.unallocated

theorem finalize_meets (hex : HexCodec) (keccak256 : Keccak) (escrowWorks : BTreeSet WorkId)
    (epoch : Nat) (payouts : Payouts) :
    Meets (finalize hex keccak256 epoch payouts escrowWorks)
      (Finalized hex keccak256 escrowWorks payouts) (Stops hex payouts.perWork.toList) := by
  unfold finalize
  split
  · rename_i hempty
    refine Stops.noCredits ?_
    simpa [Std.ExtTreeMap.toList_eq_nil_iff] using hempty
  refine (routeLoop_meets payouts.perWork.toList).bind ?_
  intro st hst
  have hparts := sum_directOf_add_sum_escrowedOf escrowWorks payouts.perWork.toList
  have hlen : st.directAmounts.length = st.directIds.length := by
    simp [hst.directAmounts, hst.directIds]
  have hleaves : st.leaves = (st.directIds.zip st.directAmounts).map fun e =>
      leafHash keccak256 e.1 e.2 := by
    rw [hst.leaves, hst.directIds, hst.directAmounts, List.zip_map', List.map_map]
    rfl
  refine ((directTree_meets hlen hleaves).mono (fun _ _ h => h) fun t ht => ?_).bind ?_
  · rcases ht with ⟨rfl, hbig⟩
    rw [hst.directAmounts] at hbig
    exact Stops.overflow (by omega)
  rintro ⟨root, entries, totalCredits⟩ hcommitted
  refine ⟨?_, ?_, ?_, ?_, rfl⟩
  · have hzip : entries.map (fun e => (e.workId, e.amount)) =
        (entries.map SettlementEntry.workId).zip (entries.map SettlementEntry.amount) := by
      rw [List.zip_map']
    change entries.map (fun e => (e.workId, e.amount)) = _
    rw [hzip, hcommitted.workIds_eq, hcommitted.amounts_eq, hst.directIds, hst.directAmounts,
      List.zip_map']
    rfl
  · change st.escrow.map (fun e => (e.workId, e.amount)) = _
    rw [hst.escrow, List.map_map]
    rfl
  · change Committed keccak256 (entries.map SettlementEntry.workId)
      (entries.map SettlementEntry.amount) root entries totalCredits
    rwa [hcommitted.workIds_eq, hcommitted.amounts_eq]
  · change st.escrowTotal = (st.escrow.map EscrowEntry.amount).sum
    rw [hst.escrowTotal, hst.escrow, List.map_map]
    rfl

end Settle
end CleanWeb
