import CleanWeb.Lib.HashTree
import CleanWeb.Wallet.Bytes32

/-!
# The settlement Merkle tree (`services/settlement/src/merkle.rs`)

Leaves hash a work id and an amount, parents hash the byte-ordered pair of their children, and a
level of odd length carries its last node up.
-/

namespace CleanWeb
namespace Settle

open Lib Lib.Exec Lib.BigEndian Bytes32

variable {ε : Type}

/-- The 64 bytes hashed by `leafHash`: the amount fills the low 16 bytes of the second word. -/
def leafBuf (workId : Bytes32) (amount : Nat) : List UInt8 :=
  bytes workId ++ (List.replicate 16 0 ++ toBytes 16 amount)

def leafHash (keccak256 : Keccak) (workId : Bytes32) (amount : Nat) : Bytes32 :=
  keccak256 (leafBuf workId amount)

/-- The 64 bytes hashed by `hashPair`. -/
def pairBuf (a b : Bytes32) : List UInt8 :=
  if bytes a ≤ bytes b then bytes a ++ bytes b else bytes b ++ bytes a

def hashPair (keccak256 : Keccak) (a b : Bytes32) : Bytes32 :=
  keccak256 (pairBuf a b)

/-- Every level, leaves first, root last. -/
structure MerkleTree where
  levels : List (List Bytes32)
  deriving DecidableEq

namespace MerkleTree

/-- The `while` loop stops at a level of one node, which the fuel always allows. -/
def build (keccak256 : Keccak) (leaves : List Bytes32) : Exec ε MerkleTree :=
  if leaves.isEmpty then panics
  else .ok { levels := LevelTree.levels (hashPair keccak256) leaves.length leaves }

def root (tree : MerkleTree) : Exec ε Bytes32 :=
  match tree.levels.getLast? with
  | some (r :: _) => .ok r
  | _ => panics

/-- The sibling hashes from the leaf at `index` up to the root. -/
def proof (tree : MerkleTree) (index : Nat) : List Bytes32 :=
  LevelTree.siblings tree.levels.dropLast index

end MerkleTree

/-- The mirror of the on-chain verifier. -/
def verify (keccak256 : Keccak) (proof : List Bytes32) (root leaf : Bytes32) : Bool :=
  proof.foldl (hashPair keccak256) leaf == root

/-! ## The node operation -/

/-- Two words hashed one after the other. -/
def wordHash (keccak256 : Keccak) (a b : Bytes32) : Bytes32 :=
  keccak256 (bytes a ++ bytes b)

theorem pairBuf_eq (a b : Bytes32) : pairBuf a b = bytes (min a b) ++ bytes (max a b) := by
  unfold pairBuf
  by_cases h : a ≤ b
  · rw [if_pos ((bytes_le_iff a b).2 h), min_eq_left h, max_eq_right h]
  · have hba : b ≤ a := (not_le.1 h).le
    rw [if_neg (by rwa [bytes_le_iff]), min_eq_right hba, max_eq_left hba]

/-- Ordering by bytes is ordering by value. -/
theorem hashPair_eq_node (keccak256 : Keccak) :
    hashPair keccak256 = HashTree.node (wordHash keccak256) := by
  funext a b
  rw [hashPair, pairBuf_eq]
  rfl

theorem hashPair_comm (keccak256 : Keccak) (a b : Bytes32) :
    hashPair keccak256 a b = hashPair keccak256 b a := by
  rw [hashPair_eq_node]
  exact HashTree.node_comm _ a b

/-! ## The tree -/

/-- Every non-empty leaf list has a tree, whose loop ran to a single root. -/
theorem build_eq_ok {keccak256 : Keccak} {leaves : List Bytes32} (hne : leaves ≠ []) :
    (MerkleTree.build keccak256 leaves : Exec ε MerkleTree) =
      .ok ⟨LevelTree.levels (hashPair keccak256) leaves.length leaves⟩ := by
  simp [MerkleTree.build, hne]

theorem verify_proof_of_getElem? (ε : Type) (keccak256 : Keccak) {leaves : List Bytes32} {i : Nat}
    {leaf : Bytes32} (hleaf : leaves[i]? = some leaf) :
    ∃ tree root, (MerkleTree.build keccak256 leaves : Exec ε MerkleTree) = .ok tree ∧
      (tree.root : Exec ε Bytes32) = .ok root ∧
      verify keccak256 (tree.proof i) root leaf = true := by
  have hne : leaves ≠ [] := by
    rintro rfl
    simp at hleaf
  let tree : MerkleTree := ⟨LevelTree.levels (hashPair keccak256) leaves.length leaves⟩
  have hfold : tree.levels.getLast? = some [(tree.proof i).foldl (hashPair keccak256) leaf] :=
    LevelTree.fold_siblings (hashPair_comm keccak256) leaves.length (Nat.le_succ _) hleaf
  refine ⟨tree, (tree.proof i).foldl (hashPair keccak256) leaf, build_eq_ok hne, ?_, ?_⟩
  · rw [MerkleTree.root, hfold]
  · simp [verify]

end Settle
end CleanWeb
