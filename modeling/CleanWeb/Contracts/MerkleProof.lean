import CleanWeb.Settle.Merkle

/-!
# The on-chain verifier (`contracts/utils/MerkleProof.sol`, `CWEPayouts.leafHash`)
-/

namespace CleanWeb
namespace Contracts

open Lib Lib.Exec Lib.BigEndian Bytes32

namespace MerkleProof

/-- `keccak256` of two words in scratch memory. -/
def efficientHash (keccak256 : Keccak) (a b : Bytes32) : Bytes32 :=
  keccak256 (bytes a ++ bytes b)

/-- Ordering is by numeric value. -/
def hashPair (keccak256 : Keccak) (a b : Bytes32) : Bytes32 :=
  if a < b then efficientHash keccak256 a b else efficientHash keccak256 b a

def verify (keccak256 : Keccak) (proof : List Bytes32) (root leaf : Bytes32) : Bool :=
  proof.foldl (hashPair keccak256) leaf == root

end MerkleProof

namespace CWEPayouts

/-- `abi.encodePacked(workId, amount)`. -/
def leafPreimage (workId : Bytes32) (amount : Nat) : List UInt8 :=
  bytes workId ++ toBytes 32 amount

def leafHash (keccak256 : Keccak) (workId : Bytes32) (amount : Nat) : Bytes32 :=
  keccak256 (leafPreimage workId amount)

end CWEPayouts

/-! ## Agreement with the settlement job -/

/-- The two pair orderings hash the same string, equal siblings included. -/
theorem MerkleProof.hashPair_eq (keccak256 : Keccak) :
    MerkleProof.hashPair keccak256 = Settle.hashPair keccak256 := by
  funext a b
  rw [Settle.hashPair, Settle.pairBuf_eq, MerkleProof.hashPair]
  rcases lt_trichotomy a b with h | rfl | h
  · rw [if_pos h, min_eq_left h.le, max_eq_right h.le]
    rfl
  · simp [MerkleProof.efficientHash]
  · rw [if_neg h.asymm, min_eq_right h.le, max_eq_left h.le]
    rfl

theorem MerkleProof.verify_eq (keccak256 : Keccak) :
    MerkleProof.verify keccak256 = Settle.verify keccak256 := by
  funext proof root leaf
  rw [MerkleProof.verify, MerkleProof.hashPair_eq]
  rfl

theorem CWEPayouts.leafPreimage_eq (workId : Bytes32) {amount : Nat} (h : amount < 2 ^ 128) :
    CWEPayouts.leafPreimage workId amount = Settle.leafBuf workId amount := by
  have hwide : toBytes (16 + 16) amount = List.replicate 16 0 ++ toBytes 16 amount :=
    toBytes_add_of_lt 16 (by omega)
  rw [CWEPayouts.leafPreimage, Settle.leafBuf, ← hwide]

theorem CWEPayouts.leafHash_eq (keccak256 : Keccak) (workId : Bytes32) {amount : Nat}
    (h : amount < 2 ^ 128) :
    CWEPayouts.leafHash keccak256 workId amount = Settle.leafHash keccak256 workId amount := by
  rw [CWEPayouts.leafHash, CWEPayouts.leafPreimage_eq workId h]
  rfl

end Contracts
end CleanWeb
