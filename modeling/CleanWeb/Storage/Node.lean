import CleanWeb.Settle.Receipts

/-!
# The storage node (`services/storage/src/lib.rs`)

A node reads a block of a work's content, streams it to a consumer, and remembers it once the
stream has been driven to its end; a receipt is signed for what it remembers.  `NodeWorld` holds
the ledger, every response body, and a history; one input is one atomic step, so that a list of
inputs is an interleaving of concurrent requests.
-/

namespace CleanWeb
namespace Storage

open Lib Lib.Exec Settle

attribute [local instance] lexOrd

/-! ## Content -/

/-- A `Vec<u8>`, whose length is a `usize`. -/
structure ByteVec where
  bytes : List UInt8
  fits : bytes.length < 2 ^ 64

/-- Reading a file of the content directory by its name: the bytes, or the text of the error. -/
abbrev Files := String → Except String ByteVec

inductive StorageError where
  | notServed
  | badWorkId
  | content (message : String)
  deriving DecidableEq, Repr

def StorageError.display : StorageError → String
  | .notServed => "no chunk was fully delivered for that consumer, work and chunk index"
  | .badWorkId => "malformed work id"
  | .content message => "reading content: " ++ message

/-- Exactly `0x` followed by 64 hex characters. -/
def isWorkId (s : String) : Bool :=
  match s.toList with
  | '0' :: 'x' :: rest => (String.ofList rest).utf8ByteSize == 64 && rest.all Char.isHexDigit
  | _ => false

/-- The file that holds a work's content. -/
def fileName (workId : String) : String :=
  toAsciiLowercase workId ++ ".bin"

def saturatingMulU64 (a b : Nat) : Nat :=
  min (a * b) (2 ^ 64 - 1)

def saturatingAddU64 (a b : Nat) : Nat :=
  min (a + b) (2 ^ 64 - 1)

/-- The `chunkIndex`-th block of the work's content, clamped to the file. -/
def fragmentForChunk (files : Files) (workId : String) (chunkIndex : Nat) :
    Exec StorageError (List UInt8) :=
  if !isWorkId workId then fail .badWorkId
  else
    match files (fileName workId) with
    | .error message => fail (.content message)
    | .ok data =>
        let start := min (saturatingMulU64 chunkIndex chunkSize) data.bytes.length
        let end_ := min (saturatingAddU64 start chunkSize) data.bytes.length
        slice data.bytes start end_

/-! ## The ledger -/

structure ServedChunk where
  workId : String
  consumer : String
  bytes : Nat
  deriving DecidableEq, Repr

theorem transOrd_key : Std.TransOrd (String × String × Nat) := inferInstance

attribute [local instance] transOrd_key

/-- Keyed by `(consumer, work_id, chunk_index)`. -/
abbrev Ledger := BTreeMap (String × String × Nat) ServedChunk

namespace Ledger

def record (ledger : Ledger) (consumer workId : String) (chunkIndex : Nat)
    (served : ServedChunk) : Ledger :=
  ledger.insert (normalizeAddr consumer, toAsciiLowercase workId, chunkIndex) served

def get (ledger : Ledger) (consumer workId : String) (chunkIndex : Nat) : Option ServedChunk :=
  ledger[(normalizeAddr consumer, toAsciiLowercase workId, chunkIndex)]?

end Ledger

def issueReceipt (ledger : Ledger) (nodeAddr : String) (epoch : Nat) (consumer workId : String)
    (chunkIndex : Nat) : Exec StorageError Receipt := do
  let served ← okOr (ledger.get consumer workId chunkIndex) .notServed
  pure
    { workId := toAsciiLowercase served.workId
      consumer := normalizeAddr served.consumer
      node := normalizeAddr nodeAddr
      chunkIndex := chunkIndex
      bytes := served.bytes
      epoch := epoch }

/-! ## The delivery stream -/

/-- A response body that hands out `data` in pieces; `onComplete` is what its callback captured,
absent once the callback has run. -/
structure DeliveryStream (κ : Type) where
  data : List UInt8
  pos : Nat
  piece : Nat
  onComplete : Option κ

/-- What a poll returns: a slice, or the end, with the callback if it ran. -/
inductive Polled (κ : Type) where
  | slice (bytes : List UInt8)
  | ended (fired : Option κ)

namespace DeliveryStream

variable {κ : Type}

def new (data : List UInt8) (piece : Nat) (onComplete : κ) : DeliveryStream κ :=
  ⟨data, 0, max piece 1, some onComplete⟩

def pollNext (s : DeliveryStream κ) : Exec StorageError (DeliveryStream κ × Polled κ) :=
  if s.data.length ≤ s.pos then pure ({ s with onComplete := none }, .ended s.onComplete)
  else do
    let reach ← addU 64 s.pos s.piece
    let end_ := min reach s.data.length
    let bytes ← Exec.slice s.data s.pos end_
    pure ({ s with pos := end_ }, .slice bytes)

end DeliveryStream

/-! ## The node -/

/-- What the handlers share and never change: the identity, the content, the signer. -/
structure Node where
  hex : HexCodec
  address : Address
  epoch : Nat
  files : Files
  canonicalBytes : Receipt → Except String (List UInt8)
  signMessage : List UInt8 → Except String (List UInt8)

/-- What the completion callback of a body captured. -/
structure Completion where
  consumer : String
  workId : String
  chunkIndex : Nat
  served : ServedChunk

/-- An answered request for content: as it was made, and the block read for it. -/
structure Delivery where
  consumer : String
  workId : String
  chunkIndex : Nat
  data : List UInt8

/-- A body is referred to by its position among all bodies. -/
inductive Event where
  | yielded (id : Nat) (bytes : List UInt8)
  | completed (id : Nat)
  | dropped (id : Nat)
  | issued (receipt : Receipt)
  deriving DecidableEq

inductive Response where
  | body (id : Nat)
  | receipt (receipt : Receipt) (nodeSig : String)
  | status (code : Nat) (text : String)
  | aborted

/-- The ledger, all bodies so far (absent once dropped), what each was for, and the history. -/
structure NodeWorld where
  ledger : Ledger
  streams : List (Option (DeliveryStream Completion))
  deliveries : List Delivery
  history : List Event

namespace NodeWorld

def init : NodeWorld :=
  ⟨∅, [], [], []⟩

/-- `16 * 1024`. -/
def pieceSize : Nat := 16384

/-- `GET /content/{work_id}`. -/
def content (node : Node) (w : NodeWorld) (workId consumer : String) (chunkIndex : Nat) :
    NodeWorld × Response :=
  match fragmentForChunk node.files workId chunkIndex with
  | .error (.err e) => (w, .status 404 e.display)
  | .error .panic => (w, .aborted)
  | .ok bytes =>
      let served : ServedChunk :=
        { workId := toAsciiLowercase workId
          consumer := normalizeAddr consumer
          bytes := bytes.length }
      let completion : Completion :=
        ⟨normalizeAddr consumer, toAsciiLowercase workId, chunkIndex, served⟩
      ({ w with
          streams := w.streams ++ [some (DeliveryStream.new bytes pieceSize completion)]
          deliveries := w.deliveries ++ [⟨consumer, workId, chunkIndex, bytes⟩] },
        .body w.streams.length)

/-- The transport polls a body; a poll that panics drops it. -/
def poll (w : NodeWorld) (id : Nat) : NodeWorld :=
  match w.streams[id]? with
  | some (some s) =>
      match s.pollNext with
      | .ok (s', .slice bytes) =>
          { w with
            streams := w.streams.set id (some s')
            history := w.history ++ [.yielded id bytes] }
      | .ok (s', .ended none) => { w with streams := w.streams.set id (some s') }
      | .ok (s', .ended (some c)) =>
          { w with
            ledger := w.ledger.record c.consumer c.workId c.chunkIndex c.served
            streams := w.streams.set id (some s')
            history := w.history ++ [.completed id] }
      | .error _ =>
          { w with
            streams := w.streams.set id none
            history := w.history ++ [.dropped id] }
  | _ => w

/-- The connection is gone. -/
def drop (w : NodeWorld) (id : Nat) : NodeWorld :=
  match w.streams[id]? with
  | some (some _) =>
      { w with
        streams := w.streams.set id none
        history := w.history ++ [.dropped id] }
  | _ => w

/-- `POST /receipt`. -/
def receipt (node : Node) (w : NodeWorld) (workId : String) (chunkIndex : Nat)
    (consumer : String) : NodeWorld × Response :=
  match issueReceipt w.ledger (Address.display node.hex node.address) node.epoch consumer workId
    chunkIndex with
  | .error (.err e) => (w, .status 404 e.display)
  | .error .panic => (w, .aborted)
  | .ok receipt =>
      match node.canonicalBytes receipt with
      | .error message => (w, .status 500 message)
      | .ok msg =>
          match node.signMessage msg with
          | .error message => (w, .status 500 message)
          | .ok sig =>
              ({ w with history := w.history ++ [.issued receipt] },
                .receipt receipt ("0x" ++ node.hex.encode sig))

end NodeWorld

/-- What reaches the node. -/
inductive Request where
  | content (workId consumer : String) (chunkIndex : Nat)
  | poll (id : Nat)
  | drop (id : Nat)
  | receipt (workId : String) (chunkIndex : Nat) (consumer : String)

def Node.next (node : Node) (w : NodeWorld) : Request → NodeWorld
  | .content workId consumer chunkIndex => (w.content node workId consumer chunkIndex).1
  | .poll id => w.poll id
  | .drop id => w.drop id
  | .receipt workId chunkIndex consumer => (w.receipt node workId chunkIndex consumer).1

/-- The world after the requests, in the order in which they took effect. -/
def Node.run (node : Node) (requests : List Request) : NodeWorld :=
  requests.foldl node.next NodeWorld.init

end Storage
end CleanWeb
