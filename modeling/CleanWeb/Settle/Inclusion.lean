import Mathlib.Data.Set.Insert
import CleanWeb.Contracts.MerkleProof
import CleanWeb.Settle.Routing
import CleanWeb.Wallet.Hex

/-!
# Inclusion proofs between the settlement job and the chain

Completeness: every proof the job writes passes the check of `CWEPayouts.withdraw`.  Soundness:
which `(workId, amount)` pairs can pass that check at all.
-/

namespace CleanWeb
namespace Settle

open Lib Lib.Exec Lib.BigEndian Bytes32 Contracts Dapr

/-! ## Completeness -/

/-- Every entry of a settlement passes the on-chain check. -/
theorem Finalized.entry_verifies {hex : HexCodec} {keccak256 : Keccak}
    {escrowWorks : BTreeSet WorkId} {payouts : Payouts} {s : Settlement}
    (hs : Finalized hex keccak256 escrowWorks payouts s) {e : SettlementEntry}
    (he : e ∈ s.entries) :
    MerkleProof.verify keccak256 e.proof s.merkleRoot
      (CWEPayouts.leafHash keccak256 e.workId e.amount) = true := by
  have hne : s.entries ≠ [] := List.ne_nil_of_mem he
  rcases hs.committed.tree hne with ⟨tree, hbuild, hroot, hproof⟩
  rcases List.mem_iff_getElem?.1 he with ⟨i, hi⟩
  have hleaf : (s.entries.map fun e => leafHash keccak256 e.workId e.amount)[i]? =
      some (leafHash keccak256 e.workId e.amount) := by
    simp [hi]
  rcases verify_proof_of_getElem? SettleError keccak256 hleaf with
    ⟨tree', root', hbuild', hroot', hverify⟩
  have htree : tree' = tree := by
    rw [hbuild] at hbuild'
    exact (Except.ok.inj hbuild').symm
  subst htree
  have hrootEq : root' = s.merkleRoot := by
    rw [hroot] at hroot'
    exact (Except.ok.inj hroot').symm
  rw [MerkleProof.verify_eq, CWEPayouts.leafHash_eq keccak256 e.workId (hs.committed.fits e he),
    hproof i e hi, ← hrootEq]
  exact hverify

/-- The job's proofs verify on chain: for every tree and index, byte for byte at the leaves, and
for every entry of every settlement. -/
theorem proofs_verify_on_chain (hex : HexCodec) (keccak256 : Keccak) :
    (∀ (leaves : List Bytes32) (i : Nat) (hi : i < leaves.length), ∃ tree root,
      (MerkleTree.build keccak256 leaves : Exec SettleError MerkleTree) = .ok tree ∧
      (tree.root : Exec SettleError Bytes32) = .ok root ∧
      MerkleProof.verify keccak256 (tree.proof i) root leaves[i] = true) ∧
    (∀ (workId : Bytes32) (amount : Nat), amount < 2 ^ 128 →
      leafBuf workId amount = CWEPayouts.leafPreimage workId amount) ∧
    ∀ (epoch : Nat) (payouts : Payouts) (escrowWorks : BTreeSet WorkId) (s : Settlement),
      finalize hex keccak256 epoch payouts escrowWorks = .ok s → ∀ e ∈ s.entries,
        MerkleProof.verify keccak256 e.proof s.merkleRoot
          (CWEPayouts.leafHash keccak256 e.workId e.amount) = true := by
  refine ⟨?_, ?_, ?_⟩
  · intro leaves i hi
    rw [MerkleProof.verify_eq]
    exact verify_proof_of_getElem? SettleError keccak256 (List.getElem?_eq_getElem hi)
  · intro workId amount h
    exact (CWEPayouts.leafPreimage_eq workId h).symm
  · intro epoch payouts escrowWorks s hs e he
    exact ((finalize_meets hex keccak256 escrowWorks epoch payouts).of_ok hs).entry_verifies he

/-- The digests of the leaves `(1, 1000)` and `(2, 2000)`, which are in increasing order. -/
def sampleLo : Bytes32 := 0x681ddc4ded82489ece5b394825609a599ba7472f7907c7d8de897067f61fd251

def sampleHi : Bytes32 := 0xebed0c52c860f2e39e16830073ee37054729ad2804d4dc7637325777ccb56882

/-- The digest of `sampleLo` and `sampleHi`. -/
def sampleRoot : Bytes32 := 0xd0f14b23da161d6e5df6f734857ad996886402c11faeb96db74dd6fb0aa0bfd4

/-- The digests of a few strings, for the runs below. -/
def sampleKeccak : Keccak :=
  Keccak.ofTable
    [(pairBuf 1 2, 0xe90b7bceb6e7df5418fb78d8ee546e97c83a08bbccc01a0644d599ccd2a7c2e0),
     (pairBuf 3 0xe90b7bceb6e7df5418fb78d8ee546e97c83a08bbccc01a0644d599ccd2a7c2e0,
      0x9b0225f2c6f59eeaf8302811ea290e95258763189b82dc033158e99a6ef45a87),
     (leafBuf 1 1000, sampleLo), (leafBuf 2 2000, sampleHi),
     (pairBuf sampleLo sampleHi, sampleRoot)]

/-- Three leaves, so that the last is carried up once, and a settlement of one work. -/
theorem proofs_verify_on_chain_small :
    (∃ tree root,
      (MerkleTree.build sampleKeccak [1, 2, 3] : Exec SettleError MerkleTree) = .ok tree ∧
      (tree.root : Exec SettleError Bytes32) = .ok root ∧
      MerkleProof.verify sampleKeccak (tree.proof 2) root 3 = true) ∧
    leafBuf 1 1000 = CWEPayouts.leafPreimage 1 1000 ∧
    MerkleProof.verify sampleKeccak [] sampleLo (CWEPayouts.leafHash sampleKeccak 1 1000) =
      true := by
  rcases proofs_verify_on_chain Hex.codec sampleKeccak with ⟨htree, hleaf, hentry⟩
  refine ⟨htree [1, 2, 3] 2 (by decide), hleaf 1 1000 (by decide), ?_⟩
  exact hentry 3 ⟨{(display Hex.codec 1, 1000)}, 0, ∅⟩ ∅
    ⟨3, sampleLo, 1000, 0, [⟨1, 1000, []⟩], [], 0⟩ (by decide +kernel) ⟨1, 1000, []⟩ (by simp)

/-! ## What is hashed -/

/-- The pairs joined while building the tree. -/
def MerkleTree.joined (tree : MerkleTree) : List (Bytes32 × Bytes32) :=
  tree.levels.flatMap LevelTree.pairs

/-- The strings hashed to build the tree over `entries`. -/
def buildStrings (entries : List (Bytes32 × Nat)) (tree : MerkleTree) : Set (List UInt8) :=
  { s | (∃ e ∈ entries, s = leafBuf e.1 e.2) ∨ ∃ p ∈ tree.joined, s = pairBuf p.1 p.2 }

/-- The digest the check has computed after `k` siblings. -/
def computedAfter (keccak256 : Keccak) (workId : Bytes32) (amount : Nat) (proof : List Bytes32)
    (k : Nat) : Bytes32 :=
  (proof.take k).foldl (MerkleProof.hashPair keccak256)
    (CWEPayouts.leafHash keccak256 workId amount)

/-- The strings hashed by the on-chain check of `(workId, amount)` with `proof`. -/
def checkStrings (keccak256 : Keccak) (workId : Bytes32) (amount : Nat) (proof : List Bytes32) :
    Set (List UInt8) :=
  { s | s = CWEPayouts.leafPreimage workId amount ∨
      ∃ k sibling, proof[k]? = some sibling ∧
        s = pairBuf (computedAfter keccak256 workId amount proof k) sibling }

/-! ## Soundness -/

/-- The amount as a word. -/
def amountWord (amount : Nat) : Bytes32 :=
  BitVec.ofNat 256 amount

theorem bytes_amountWord {amount : Nat} (h : amount < 2 ^ 256) :
    bytes (amountWord amount) = toBytes 32 amount := by
  rw [bytes, amountWord, BitVec.toNat_ofNat, Nat.mod_eq_of_lt h]

theorem toNat_amountWord {amount : Nat} (h : amount < 2 ^ 256) :
    (amountWord amount).toNat = amount := by
  rw [amountWord, BitVec.toNat_ofNat, Nat.mod_eq_of_lt h]

theorem leafPreimage_eq_words (workId : Bytes32) {amount : Nat} (h : amount < 2 ^ 256) :
    CWEPayouts.leafPreimage workId amount = bytes workId ++ bytes (amountWord amount) := by
  rw [CWEPayouts.leafPreimage, bytes_amountWord h]

/-- An entry as the pair of words that its leaf hashes. -/
def entryWords (e : Bytes32 × Nat) : Bytes32 × Bytes32 :=
  (e.1, amountWord e.2)

section Soundness

variable {keccak256 : Keccak} {entries : List (Bytes32 × Nat)} {workId : Bytes32} {amount : Nat}
variable {proof : List Bytes32}

theorem leafBuf_eq_words {e : Bytes32 × Nat} (h : e.2 < 2 ^ 128) :
    leafBuf e.1 e.2 = bytes (entryWords e).1 ++ bytes (entryWords e).2 := by
  rw [← CWEPayouts.leafPreimage_eq e.1 h, leafPreimage_eq_words e.1 (by omega)]
  rfl

theorem leaves_eq_words (h : ∀ e ∈ entries, e.2 < 2 ^ 128) :
    (entries.map fun e => leafHash keccak256 e.1 e.2) =
      (entries.map entryWords).map fun q => wordHash keccak256 q.1 q.2 := by
  rw [List.map_map]
  refine List.map_congr_left ?_
  intro e he
  rw [leafHash, leafBuf_eq_words (h e he)]
  rfl

theorem mem_entries_of_words (hu128 : ∀ e ∈ entries, e.2 < 2 ^ 128) (hamount : amount < 2 ^ 256)
    (h : (workId, amountWord amount) ∈ entries.map entryWords) : (workId, amount) ∈ entries := by
  rcases List.mem_map.1 h with ⟨e, he, heq⟩
  have hid : e.1 = workId := congrArg Prod.fst heq
  have hword : amountWord e.2 = amountWord amount := congrArg Prod.snd heq
  have hbound := hu128 e he
  have hsame : e.2 = amount := by
    rw [← toNat_amountWord (by omega : e.2 < 2 ^ 256), hword, toNat_amountWord hamount]
  rw [← hid, ← hsame]
  exact he

theorem computedAfter_eq (keccak256 : Keccak) (workId : Bytes32) (proof : List Bytes32)
    (hamount : amount < 2 ^ 256) (k : Nat) :
    computedAfter keccak256 workId amount proof k =
      (proof.take k).foldl (HashTree.node (wordHash keccak256))
        (wordHash keccak256 workId (amountWord amount)) := by
  rw [computedAfter, MerkleProof.hashPair_eq, hashPair_eq_node, CWEPayouts.leafHash,
    leafPreimage_eq_words workId hamount]
  rfl

/-- The built tree as a hash tree over the entries' words. -/
theorem exists_tree_of_build {tree : MerkleTree} {root : Bytes32}
    (hu128 : ∀ e ∈ entries, e.2 < 2 ^ 128)
    (hbuild : (MerkleTree.build keccak256 (entries.map fun e => leafHash keccak256 e.1 e.2) :
      Exec SettleError MerkleTree) = .ok tree)
    (hroot : (tree.root : Exec SettleError Bytes32) = .ok root) :
    ∃ t : HashTree.Tree Bytes32, t.leaves = entries.map entryWords ∧
      t.digest (wordHash keccak256) = root ∧
      ∀ q ∈ t.inners (wordHash keccak256), ∃ p ∈ tree.joined,
        pairBuf p.1 p.2 = bytes q.1 ++ bytes q.2 := by
  have hne : entries ≠ [] := by
    rintro rfl
    simp [MerkleTree.build, panics] at hbuild
  have hlevels : tree.levels = LevelTree.levels (HashTree.node (wordHash keccak256))
      entries.length ((entries.map entryWords).map fun q => wordHash keccak256 q.1 q.2) := by
    rw [build_eq_ok (by simpa using hne)] at hbuild
    rw [← Except.ok.inj hbuild, leaves_eq_words hu128, hashPair_eq_node]
    simp
  rcases HashTree.exists_tree (wordHash keccak256) (entries.map entryWords)
    (by simpa using hne) entries.length (by simp) with ⟨t, hleaves, hlast, hinners⟩
  rw [← hlevels] at hlast hinners
  refine ⟨t, hleaves, ?_, ?_⟩
  · rw [MerkleTree.root, hlast] at hroot
    exact Except.ok.inj hroot
  · intro q hq
    rcases hinners q hq with ⟨level, hlevel, p, hp, rfl⟩
    exact ⟨p, List.mem_flatMap.2 ⟨level, hlevel, hp⟩, pairBuf_eq p.1 p.2⟩

/-- Collision-freeness of the strings hashed is injectivity on the pairs of words. -/
theorem injOn_words {tree : MerkleTree} {t : HashTree.Tree Bytes32}
    (hu128 : ∀ e ∈ entries, e.2 < 2 ^ 128) (hamount : amount < 2 ^ 256)
    (hleaves : t.leaves = entries.map entryWords)
    (hinners : ∀ q ∈ t.inners (wordHash keccak256), ∃ p ∈ tree.joined,
      pairBuf p.1 p.2 = bytes q.1 ++ bytes q.2)
    (hcollision : Set.InjOn keccak256
      (buildStrings entries tree ∪ checkStrings keccak256 workId amount proof)) :
    Set.InjOn (fun q : Bytes32 × Bytes32 => wordHash keccak256 q.1 q.2)
      (HashTree.hashed (wordHash keccak256) t workId (amountWord amount) proof) := by
  have hstring : ∀ q ∈ HashTree.hashed (wordHash keccak256) t workId (amountWord amount) proof,
      bytes q.1 ++ bytes q.2 ∈
        buildStrings entries tree ∪ checkStrings keccak256 workId amount proof := by
    intro q hq
    rcases hq with hq | hq | hq | rfl
    · rw [hleaves] at hq
      rcases List.mem_map.1 hq with ⟨e, he, rfl⟩
      exact Or.inl (Or.inl ⟨e, he, (leafBuf_eq_words (hu128 e he)).symm⟩)
    · rcases hinners q hq with ⟨p, hp, hbuf⟩
      exact Or.inl (Or.inr ⟨p, hp, hbuf.symm⟩)
    · rcases HashTree.exists_of_mem_walk hq with ⟨k, s, hs, rfl⟩
      refine Or.inr (Or.inr ⟨k, s, hs, ?_⟩)
      rw [computedAfter_eq keccak256 workId proof hamount, pairBuf_eq]
      rfl
    · exact Or.inr (Or.inl (leafPreimage_eq_words workId hamount).symm)
  intro q hq q' hq' heq
  have hbytes := append_bytes_inj (hcollision (hstring q hq) (hstring q' hq') heq)
  exact Prod.ext hbytes.1 hbytes.2

/-- Without collisions among the strings actually hashed, a pair that passes the check is an
entry, or is the ordered pair of siblings under an inner node, or some step of the check hashes the
work id and the amount of an entry. -/
theorem provable_credits {tree : MerkleTree} {root : Bytes32}
    (hu128 : ∀ e ∈ entries, e.2 < 2 ^ 128)
    (hbuild : (MerkleTree.build keccak256 (entries.map fun e => leafHash keccak256 e.1 e.2) :
      Exec SettleError MerkleTree) = .ok tree)
    (hroot : (tree.root : Exec SettleError Bytes32) = .ok root) (hamount : amount < 2 ^ 256)
    (hcollision : Set.InjOn keccak256
      (buildStrings entries tree ∪ checkStrings keccak256 workId amount proof))
    (hverify : MerkleProof.verify keccak256 proof root
      (CWEPayouts.leafHash keccak256 workId amount) = true) :
    (workId, amount) ∈ entries ∨
      (∃ p ∈ tree.joined, CWEPayouts.leafPreimage workId amount = pairBuf p.1 p.2) ∨
      ∃ k s, proof[k]? = some s ∧ ∃ e ∈ entries,
        e.1 = min (computedAfter keccak256 workId amount proof k) s ∧
        amountWord e.2 = max (computedAfter keccak256 workId amount proof k) s := by
  rcases exists_tree_of_build hu128 hbuild hroot with ⟨t, hleaves, hdigest, hinners⟩
  have hinj := injOn_words hu128 hamount hleaves hinners hcollision
  have hcomputed := computedAfter_eq keccak256 workId proof hamount
  have hfold : proof.foldl (HashTree.node (wordHash keccak256))
      (wordHash keccak256 workId (amountWord amount)) = t.digest (wordHash keccak256) := by
    have hall := hcomputed proof.length
    rw [List.take_length] at hall
    rw [← hall, hdigest, computedAfter, List.take_length]
    simpa [MerkleProof.verify] using hverify
  rcases HashTree.fold_eq_digest hinj hfold with hleaf | hin | ⟨q, hq, hleaf⟩
  · rw [hleaves] at hleaf
    exact Or.inl (mem_entries_of_words hu128 hamount hleaf)
  · rcases hinners _ hin with ⟨p, hp, hbuf⟩
    exact Or.inr (Or.inl ⟨p, hp, (leafPreimage_eq_words workId hamount).trans hbuf.symm⟩)
  · -- The step hashes an entry's string, so its two words are those of the entry.
    rcases HashTree.exists_of_mem_walk hq with ⟨k, s, hs, rfl⟩
    rw [hleaves] at hleaf
    rcases List.mem_map.1 hleaf with ⟨e, he, heq⟩
    refine Or.inr (Or.inr ⟨k, s, hs, e, he, ?_, ?_⟩)
    · rw [hcomputed]
      exact congrArg Prod.fst heq
    · rw [hcomputed]
      exact congrArg Prod.snd heq

end Soundness

/-! ## Two entries -/

/-- The tree over the entries `(1, 1000)` and `(2, 2000)`. -/
def sampleTree : MerkleTree :=
  ⟨[[sampleLo, sampleHi], [sampleRoot]]⟩

theorem buildStrings_sampleTree :
    buildStrings [(1, 1000), (2, 2000)] sampleTree ⊆
      { s | s ∈ [leafBuf 1 1000, leafBuf 2 2000, pairBuf sampleLo sampleHi] } := by
  rintro s (⟨e, he, rfl⟩ | ⟨p, hp, rfl⟩)
  · rcases List.mem_pair.1 he with rfl | rfl <;> simp
  · have hp' : p = (sampleLo, sampleHi) := by
      simpa [sampleTree, MerkleTree.joined, LevelTree.pairs] using hp
    simp [hp']

theorem sampleKeccak_injOn :
    Set.InjOn sampleKeccak
      { s | s ∈ [leafBuf 1 1000, leafBuf 2 2000, pairBuf sampleLo sampleHi] } := by
  have hdistinct : ∀ s ∈ [leafBuf 1 1000, leafBuf 2 2000, pairBuf sampleLo sampleHi],
      ∀ s' ∈ [leafBuf 1 1000, leafBuf 2 2000, pairBuf sampleLo sampleHi],
      sampleKeccak s = sampleKeccak s' → s = s' := by
    decide +kernel
  exact fun s hs s' hs' => hdistinct s hs s' hs'

/-- The first entry, proved with its sibling. -/
theorem provable_credits_first :
    ((1 : Bytes32), 1000) ∈ [((1 : Bytes32), 1000), (2, 2000)] ∨
      (∃ p ∈ sampleTree.joined, CWEPayouts.leafPreimage 1 1000 = pairBuf p.1 p.2) ∨
      ∃ k s, [sampleHi][k]? = some s ∧ ∃ e ∈ [((1 : Bytes32), 1000), (2, 2000)],
        e.1 = min (computedAfter sampleKeccak 1 1000 [sampleHi] k) s ∧
        amountWord e.2 = max (computedAfter sampleKeccak 1 1000 [sampleHi] k) s := by
  have hcheck : checkStrings sampleKeccak 1 1000 [sampleHi] ⊆
      { s | s ∈ [leafBuf 1 1000, leafBuf 2 2000, pairBuf sampleLo sampleHi] } := by
    rintro s (rfl | ⟨k, sibling, hk, rfl⟩)
    · rw [CWEPayouts.leafPreimage_eq 1 (by decide : 1000 < 2 ^ 128)]
      simp
    · rcases k with _ | k
      · have hlo : computedAfter sampleKeccak 1 1000 [sampleHi] 0 = sampleLo := by
          decide +kernel
        have hsibling : sibling = sampleHi := by simpa using hk.symm
        rw [hlo, hsibling]
        simp
      · simp at hk
  have hroot : (sampleTree.root : Exec SettleError Bytes32) = .ok sampleRoot := by
    rfl
  exact provable_credits (by simp) (by decide +kernel) hroot (by decide)
    (sampleKeccak_injOn.mono (Set.union_subset buildStrings_sampleTree hcheck))
    (by decide +kernel)

/-- The ordered digests of the two leaves, read as a work id and an amount, pass the check with an
empty proof although they are no entry. -/
theorem provable_credit_not_listed :
    ¬ ∀ (keccak256 : Keccak) (entries : List (Bytes32 × Nat)) (tree : MerkleTree)
      (root workId : Bytes32) (amount : Nat) (proof : List Bytes32),
      (∀ e ∈ entries, e.2 < 2 ^ 128) →
      (MerkleTree.build keccak256 (entries.map fun e => leafHash keccak256 e.1 e.2) :
        Exec SettleError MerkleTree) = .ok tree →
      (tree.root : Exec SettleError Bytes32) = .ok root → amount < 2 ^ 256 →
      Set.InjOn keccak256
        (buildStrings entries tree ∪ checkStrings keccak256 workId amount proof) →
      MerkleProof.verify keccak256 proof root
        (CWEPayouts.leafHash keccak256 workId amount) = true →
      (workId, amount) ∈ entries := by
  intro hclaim
  have hcheck : checkStrings sampleKeccak sampleLo sampleHi.toNat [] ⊆
      { s | s ∈ [leafBuf 1 1000, leafBuf 2 2000, pairBuf sampleLo sampleHi] } := by
    rintro s (rfl | ⟨k, sibling, hk, -⟩)
    · have hpreimage : CWEPayouts.leafPreimage sampleLo sampleHi.toNat =
          pairBuf sampleLo sampleHi := by
        decide +kernel
      simp [hpreimage]
    · simp at hk
  have hmem := hclaim sampleKeccak [(1, 1000), (2, 2000)] sampleTree sampleRoot sampleLo
    sampleHi.toNat [] (by simp) (by decide +kernel) (by decide +kernel) sampleHi.isLt
    (sampleKeccak_injOn.mono (Set.union_subset buildStrings_sampleTree hcheck))
    (by decide +kernel)
  exact absurd hmem (by decide +kernel)

/-- Where the digest of `(9, 9)` is `1`, the check of it with the sibling `2` hashes the string of
the entry `(1, 2)`. -/
theorem provable_credit_not_node :
    ∃ (keccak256 : Keccak) (tree : MerkleTree) (root : Bytes32),
      (MerkleTree.build keccak256 [leafHash keccak256 1 2] : Exec SettleError MerkleTree) =
        .ok tree ∧
      (tree.root : Exec SettleError Bytes32) = .ok root ∧
      Set.InjOn keccak256 (buildStrings [(1, 2)] tree ∪ checkStrings keccak256 9 9 [2]) ∧
      MerkleProof.verify keccak256 [2] root (CWEPayouts.leafHash keccak256 9 9) = true ∧
      ((9 : Bytes32), 9) ∉ [((1 : Bytes32), 2)] ∧
      ∀ p ∈ tree.joined, CWEPayouts.leafPreimage 9 9 ≠ pairBuf p.1 p.2 := by
  let keccak256 := Keccak.ofTable [(leafBuf 9 9, 1), (leafBuf 1 2, 7)]
  have hinj : Set.InjOn keccak256 { s | s ∈ [leafBuf 9 9, leafBuf 1 2] } := by
    have hdistinct : ∀ s ∈ [leafBuf 9 9, leafBuf 1 2], ∀ s' ∈ [leafBuf 9 9, leafBuf 1 2],
        keccak256 s = keccak256 s' → s = s' := by
      decide +kernel
    exact fun s hs s' hs' => hdistinct s hs s' hs'
  refine ⟨keccak256, ⟨[[7]]⟩, 7, by decide +kernel, rfl, hinj.mono ?_, by decide +kernel,
    by decide, by simp [MerkleTree.joined, LevelTree.pairs]⟩
  rintro s ((⟨e, he, rfl⟩ | ⟨p, hp, rfl⟩) | (rfl | ⟨k, sibling, hk, rfl⟩))
  · rw [List.mem_singleton.1 he]
    simp
  · simp [MerkleTree.joined, LevelTree.pairs] at hp
  · rw [CWEPayouts.leafPreimage_eq 9 (by decide : 9 < 2 ^ 128)]
    simp
  · rcases k with _ | k
    · have hsibling : sibling = 2 := by simpa using hk.symm
      have hstring : pairBuf (computedAfter keccak256 9 9 [2] 0) 2 = leafBuf 1 2 := by
        decide +kernel
      rw [hsibling, hstring]
      simp
    · simp at hk

end Settle
end CleanWeb
