import CleanWeb.Wallet.Session
import CleanWeb.Zk.Digest

/-!
# Openings and their commitments (`libs/wallet-zk/src/commit.rs`)
-/

namespace CleanWeb
namespace Wallet

open Zk

/-- The pre-image behind a commitment. -/
structure Opening where
  workId : Bytes32
  minutes : Nat
  plays : Nat
  salt : Bytes32
  deriving DecidableEq, Repr

namespace Opening

variable (poseidonHash : PoseidonHash)

def commit (o : Opening) : Bytes32 :=
  commitment poseidonHash o.workId o.minutes o.plays o.salt

def verify (o : Opening) (c : Bytes32) : Bool :=
  o.commit poseidonHash == c

end Opening
end Wallet
end CleanWeb
