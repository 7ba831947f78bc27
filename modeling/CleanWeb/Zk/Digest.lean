import CleanWeb.Zk.Field

/-!
# The usage digest (`libs/zk-circuits`: `poseidon.rs`, `prove.rs`)

The Poseidon commitments and the digest over a submission's public rows, padded to the
circuit's fixed shape.  The Poseidon hash itself is a parameter.
-/

namespace CleanWeb
namespace Zk

open Lib Lib.Exec

/-! ## Commitments -/

/-- `poseidon_hash`. -/
abbrev PoseidonHash := List Fr → Fr

section

variable (poseidonHash : PoseidonHash)

def commitment (workId : Bytes32) (minutes plays : Nat) (salt : Bytes32) : Bytes32 :=
  frToBytes32 (poseidonHash
    [frFromBytes32 workId, frFromU128 minutes, frFromU128 plays, frFromBytes32 salt])

/-- The epoch-bound pseudonym. -/
def pseudonym (kEpoch commitment : Bytes32) : Bytes32 :=
  frToBytes32 (poseidonHash [frFromBytes32 kEpoch, frFromBytes32 commitment])

/-! ## Rows -/

/-- Maximum works a single proof covers. -/
def maxWorks : Nat := 16

/-- The public projection of a usage row. -/
structure PublicRow where
  workId : Bytes32
  commitment : Bytes32
  pseudonym : Bytes32
  weight : Nat
  deriving DecidableEq, Repr

/-- The witness of one row. -/
structure RowWitness where
  active : Bool
  workId : Bytes32
  minutes : Nat
  plays : Nat
  salt : Bytes32
  pricePpm : Nat
  regionPpm : Nat
  weight : Nat
  commitment : Bytes32
  pseudonym : Bytes32
  deriving DecidableEq, Repr

/-- The canonical inactive row under `kEpoch`. -/
def paddedRow (kEpoch : Bytes32) : RowWitness :=
  let c := commitment poseidonHash 0 0 0 0
  { active := false
    workId := 0
    minutes := 0
    plays := 0
    salt := 0
    pricePpm := 0
    regionPpm := 0
    weight := 0
    commitment := c
    pseudonym := pseudonym poseidonHash kEpoch c }

def publicRowOf (row : RowWitness) : PublicRow :=
  { workId := row.workId
    commitment := row.commitment
    pseudonym := row.pseudonym
    weight := row.weight }

/-! ## The digest -/

/-- The part of the preimage that one row contributes. -/
def rowInputs (row : PublicRow) : List Fr :=
  [frFromBytes32 row.pseudonym, frFromBytes32 row.workId, frFromU128 row.weight]

def digest (epoch : Nat) (tier kEpoch : Bytes32) (rows : List PublicRow) : Bytes32 :=
  frToBytes32 (poseidonHash
    (frFromU128 epoch :: frFromBytes32 tier :: frFromBytes32 kEpoch :: rows.flatMap rowInputs))

inductive ProveError where
  | tooManyWorks
  deriving DecidableEq, Repr

/-- The digest of a submission's active rows, padded to the fixed shape. -/
def digestFromActive (epoch : Nat) (tier kEpoch : Bytes32) (active : List PublicRow) :
    Exec ProveError Bytes32 :=
  if maxWorks < active.length then fail .tooManyWorks
  else
    let pad := publicRowOf (paddedRow poseidonHash kEpoch)
    .ok (digest poseidonHash epoch tier kEpoch
      (active ++ List.replicate (maxWorks - active.length) pad))

end

end Zk
end CleanWeb
