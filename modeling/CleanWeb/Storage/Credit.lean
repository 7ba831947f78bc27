import CleanWeb.Settle.DecodeHex
import CleanWeb.Wallet.Hex
import CleanWeb.Storage.Delivery

/-!
# Honest evidence is capped by the content

Every receipt of an honest node stands for a completed delivery and carries the true length of its
block; so whatever such receipts are bundled, a consumer is credited with at most the length of the
content, and with all of it when no block is missing.
-/

namespace CleanWeb
namespace Storage

open Lib Lib.Exec Settle

attribute [local instance] lexOrd

/-! ## One node -/

/-- A body hands out its data in order, and completes at most once, after its last byte, and not
when it was dropped. -/
structure DeliveriesSound (w : NodeWorld) : Prop where
  slices : ∀ id d, w.deliveries[id]? = some d → (slicesOf id w.history).flatten <+: d.data
  once : ∀ id, w.history.count (.completed id) ≤ 1
  complete : ∀ pre id post, w.history = pre ++ .completed id :: post →
    ∃ d, w.deliveries[id]? = some d ∧ (slicesOf id pre).flatten = d.data ∧ .dropped id ∉ pre

/-- An issued receipt has the true length of its block, and follows a completed delivery for its
coordinates. -/
structure ReceiptsSound (node : Node) (w : NodeWorld) : Prop where
  issued : ∀ pre r post, w.history = pre ++ .issued r :: post →
    (∃ content, node.files (r.workId ++ ".bin") = .ok content ∧
      r.bytes = (window chunkSize content.bytes r.chunkIndex).length) ∧
    ∃ id d, w.deliveries[id]? = some d ∧ .completed id ∈ pre ∧
      d.key = (r.consumer, r.workId, r.chunkIndex)

theorem deliveriesSound_run (node : Node) (requests : List Request) :
    DeliveriesSound (node.run requests) := by
  have h := nodeInv_run node requests
  -- Every delivery has a body, and the invariant says how far it has come.
  have hstream : ∀ {id d}, (node.run requests).deliveries[id]? = some d →
      ∃ s, Progress (node.run requests).history id d s := by
    intro id d hd
    have hlt : id < (node.run requests).streams.length :=
      h.lengths ▸ (List.getElem?_eq_some_iff.1 hd).1
    exact ⟨_, h.progress id d _ hd (List.getElem?_eq_getElem hlt)⟩
  refine ⟨?_, ?_, ?_⟩
  · intro id d hd
    rcases hstream hd with ⟨s, hs⟩
    cases hs with
    | flowing s hdata hslices hcallback hnone hopen =>
        rw [hslices]
        exact List.take_prefix _ _
    | ended s hdata hpos hslices hcallback honce => rw [hslices]
    | gone hslices honce => exact hslices
  · -- An id that no delivery has yet completes never; any other at most once.
    intro id
    by_cases hid : (node.run requests).deliveries.length ≤ id
    · rw [(h.unborn id hid).completed]
      exact Nat.zero_le _
    · rcases hstream (List.getElem?_eq_getElem (Nat.lt_of_not_le hid)) with ⟨s, hs⟩
      cases hs with
      | flowing s hdata hslices hcallback hnone hopen => omega
      | ended s hdata hpos hslices hcallback honce => omega
      | gone hslices honce => exact honce
  · intro pre id post heq
    exact h.ordered pre _ post heq

theorem receiptsSound_run (node : Node) (requests : List Request) :
    ReceiptsSound node (node.run requests) := by
  have h := nodeInv_run node requests
  refine ⟨?_⟩
  intro pre r post heq
  rcases h.ordered pre _ post heq with ⟨id, d, hd, hdone, rfl⟩
  rcases fragmentForChunk_eq_window (h.content d (List.mem_of_getElem? hd)) with
    ⟨content, hfile, hdata⟩
  exact ⟨⟨content, hfile, congrArg List.length hdata⟩, id, d, hd, hdone, rfl⟩

/-! ## A bundle of receipts -/

/-- The node signs `r` in some run. -/
def IssuedBy (node : Node) (r : Receipt) : Prop :=
  ∃ requests, .issued r ∈ (node.run requests).history

/-- A receipt of an honest node counts for the length of its block. -/
theorem credit_of_issuedBy {node : Node} {r : Receipt} {work : String} {content : ByteVec}
    (h : IssuedBy node r) (hwork : toAsciiLowercase r.workId = work)
    (hcontent : node.files (work ++ ".bin") = .ok content) :
    r.credit = (window chunkSize content.bytes r.chunkIndex).length := by
  rcases h with ⟨requests, hmem⟩
  rcases List.append_of_mem hmem with ⟨pre, post, heq⟩
  rcases (receiptsSound_run node requests).issued pre r post heq with
    ⟨⟨content', hfile, hbytes⟩, id, d, -, -, hkey⟩
  -- The receipt's work id is lowercase already.
  have hlower : toAsciiLowercase d.workId = r.workId := congrArg (fun k => k.2.1) hkey
  have hsame : r.workId = work := by
    rw [← hwork, ← hlower, toAsciiLowercase_idem]
  rw [hsame, hcontent] at hfile
  cases hfile
  rw [Receipt.credit, hbytes, length_window]
  exact Nat.min_eq_left (Nat.min_le_left _ _)

section Bundle

variable {hex : HexCodec} {recoverSigner : RecoverSigner} {epoch : Nat}
variable {credentialed : String → Bool} {receipts counted : List SignedReceipt}
variable {consumer work : String} {content : ByteVec}

/-- The blocks that are counted for the consumer and the work. -/
def blocksOf (counted : List SignedReceipt) (consumer work : String) : List Nat :=
  (counted.filter fun s => s.receipt.pair = (consumer, work)).map (·.receipt.chunkIndex)

theorem nodup_blocksOf (h : Counted hex recoverSigner epoch credentialed receipts counted) :
    (blocksOf counted consumer work).Nodup := by
  -- With the consumer and the work fixed, the index is the whole content position.
  refine List.Nodup.of_map (fun i => (consumer, work, i)) ?_
  have hkeys : ((counted.filter fun s => s.receipt.pair = (consumer, work)).map
      (·.receipt.dedupKey)).Nodup := h.once.sublist ((List.filter_sublist).map _)
  have heq : (blocksOf counted consumer work).map (fun i => (consumer, work, i)) =
      (counted.filter fun s => s.receipt.pair = (consumer, work)).map (·.receipt.dedupKey) := by
    rw [blocksOf, List.map_map]
    refine List.map_congr_left ?_
    intro s hs
    have hpair : s.receipt.pair = (consumer, work) := by
      simpa using (List.mem_filter.1 hs).2
    change (consumer, work, s.receipt.chunkIndex) =
      (s.receipt.pair.1, s.receipt.pair.2, s.receipt.chunkIndex)
    rw [hpair]
  rwa [heq]

/-- The amount credited is the length of these blocks. -/
theorem amountAt_credits (h : Counted hex recoverSigner epoch credentialed receipts counted)
    (hissued : ∀ s ∈ receipts, Checked hex recoverSigner epoch credentialed s →
      s.receipt.pair = (consumer, work) →
        ∃ node, IssuedBy node s.receipt ∧ node.files (work ++ ".bin") = .ok content) :
    amountAt (consumer, work) (credits counted) =
      ((blocksOf counted consumer work).map fun i =>
        (window chunkSize content.bytes i).length).sum := by
  simp only [amountAt, credits, blocksOf, List.filter_map, List.map_map, Function.comp_def]
  refine congrArg List.sum (List.map_congr_left ?_)
  intro s hs
  rcases List.mem_filter.1 hs with ⟨hmem, hpair⟩
  have hpair' : s.receipt.pair = (consumer, work) := by
    simpa using hpair
  rcases h.checked s hmem with ⟨hreceipt, hchecked⟩
  rcases hissued s hreceipt hchecked hpair' with ⟨node, hnode, hcontent⟩
  exact credit_of_issuedBy hnode (congrArg Prod.snd hpair') hcontent

theorem mem_blocksOf (h : Counted hex recoverSigner epoch credentialed receipts counted)
    {s : SignedReceipt} (hs : s ∈ receipts)
    (hchecked : Checked hex recoverSigner epoch credentialed s)
    (hpair : s.receipt.pair = (consumer, work)) :
    s.receipt.chunkIndex ∈ blocksOf counted consumer work := by
  rcases List.mem_map.1 (h.complete s hs hchecked) with ⟨t, ht, hkey⟩
  have hpair' : t.receipt.pair = (consumer, work) := by
    rw [← hpair]
    exact congrArg (fun k : String × String × Nat => (k.1, k.2.1)) hkey
  have hindex : t.receipt.chunkIndex = s.receipt.chunkIndex := congrArg (fun k => k.2.2) hkey
  exact List.mem_map.2 ⟨t, List.mem_filter.2 ⟨ht, by simpa using hpair'⟩, hindex⟩

end Bundle

/-! ## The cap -/

/-- Every run of an honest node delivers and attests soundly.  Of receipts that honest nodes with
the same content issued, every bundle is credited with at most the length of the content, and with
exactly that when every block is among them. -/
theorem honest_evidence_capped :
    (∀ (node : Node) (requests : List Request),
      DeliveriesSound (node.run requests) ∧ ReceiptsSound node (node.run requests)) ∧
    ∀ (hex : HexCodec) (recoverSigner : RecoverSigner) (bundle : ReceiptBundle) (epoch : Nat)
      (credentialed : String → Bool) (consumer work : String) (content : ByteVec),
      (∀ s ∈ bundle.receipts, Checked hex recoverSigner epoch credentialed s →
        s.receipt.pair = (consumer, work) →
          ∃ node, IssuedBy node s.receipt ∧ node.files (work ++ ".bin") = .ok content) →
      let credit := (acceptReceipts hex recoverSigner bundle epoch credentialed).getD
        (consumer, work) 0
      credit ≤ content.bytes.length ∧
        ((∀ i, i * chunkSize < content.bytes.length → ∃ s ∈ bundle.receipts,
            Checked hex recoverSigner epoch credentialed s ∧
              s.receipt.pair = (consumer, work) ∧ s.receipt.chunkIndex = i) →
          credit = content.bytes.length) := by
  refine ⟨fun node requests => ⟨deliveriesSound_run node requests, receiptsSound_run node requests⟩,
    ?_⟩
  intro hex recoverSigner bundle epoch credentialed consumer work content hissued credit
  rcases acceptReceipts_spec hex recoverSigner bundle epoch credentialed with
    ⟨counted, hcounted, htally⟩
  -- The saturating total is the capped sum over the distinct blocks counted.
  have hcredit : credit = min ((blocksOf counted consumer work).map fun i =>
      (window chunkSize content.bytes i).length).sum (2 ^ 128 - 1) := by
    rw [← amountAt_credits hcounted hissued]
    exact htally.amount (consumer, work)
  have hnodup := @nodup_blocksOf _ _ _ _ _ _ consumer work hcounted
  refine ⟨?_, ?_⟩
  · rw [hcredit]
    exact (Nat.min_le_left _ _).trans (sum_length_window_le chunkSize content.bytes hnodup)
  · intro hall
    have hpos : 0 < chunkSize := by decide
    have hsum := sum_length_window_eq hpos content.bytes hnodup (by
      intro i hi
      rcases hall i hi with ⟨s, hs, hchecked, hpair, rfl⟩
      exact mem_blocksOf hcounted hs hchecked hpair)
    -- A length is a `usize`, so the cap of 128 bits is not reached.
    have hfits := content.fits
    rw [hcredit, hsum]
    omega

/-! ## One block, delivered and attested by two nodes -/

def sampleWork : String :=
  "0xaaaaaaaaaaaaaaaaaaaaaaaaaaaaaaaaaaaaaaaaaaaaaaaaaaaaaaaaaaaaaaaa"

def sampleContent : ByteVec :=
  ⟨[1, 2, 3, 4, 5], by decide⟩

def sampleNode (address : Address) : Node :=
  { hex := Hex.codec
    address := address
    epoch := 3
    files := fun name =>
      if name = sampleWork ++ ".bin" then .ok sampleContent else .error "not found"
    canonicalBytes := fun _ => .ok []
    signMessage := fun _ => .ok [0] }

/-- Consumer 1 drains the block and asks for its receipt. -/
def sampleRequests : List Request :=
  [.content sampleWork (Address.display Hex.codec 1) 0, .poll 0, .poll 0,
    .receipt sampleWork 0 (Address.display Hex.codec 1)]

def sampleReceipt (node : Address) : Receipt :=
  { workId := sampleWork
    consumer := Address.display Hex.codec 1
    node := Address.display Hex.codec node
    chunkIndex := 0
    bytes := 5
    epoch := 3 }

def sampleDelivery : Delivery :=
  ⟨Address.display Hex.codec 1, sampleWork, 0, sampleContent.bytes⟩

/-- The body of `sampleDelivery`. -/
def sampleStream (pos : Nat) (onComplete : Option Completion) : DeliveryStream Completion :=
  ⟨sampleContent.bytes, pos, NodeWorld.pieceSize, onComplete⟩

theorem sampleWork_lowercase : toAsciiLowercase sampleWork = sampleWork := by
  decide +kernel

theorem fragmentForChunk_sample (address : Address) :
    fragmentForChunk (sampleNode address).files sampleWork 0 = .ok sampleContent.bytes := by
  have hvalid : isWorkId sampleWork = true := by
    decide +kernel
  have hfile : (sampleNode address).files (sampleWork ++ ".bin") = .ok sampleContent := by
    simp only [sampleNode, if_true]
  rw [fragmentForChunk, if_neg (by simp [hvalid]), fileName, sampleWork_lowercase, hfile]
  rfl

theorem sampleRequests_history (address : Address) :
    ((sampleNode address).run sampleRequests).history =
      [.yielded 0 [1, 2, 3, 4, 5], .completed 0, .issued (sampleReceipt address)] := by
  have hconsumer : normalizeAddr (Address.display Hex.codec 1) = Address.display Hex.codec 1 :=
    toAsciiLowercase_display Hex.codec 1
  have hcontent : (sampleNode address).next .init
      (.content sampleWork (Address.display Hex.codec 1) 0) =
        ⟨∅, [some (sampleStream 0 (some sampleDelivery.completion))], [sampleDelivery], []⟩ := by
    simp only [Node.next, NodeWorld.content, fragmentForChunk_sample]
    rfl
  have hslice : (sampleNode address).next
      ⟨∅, [some (sampleStream 0 (some sampleDelivery.completion))], [sampleDelivery], []⟩
        (.poll 0) =
      ⟨∅, [some (sampleStream 5 (some sampleDelivery.completion))], [sampleDelivery],
        [.yielded 0 sampleContent.bytes]⟩ := rfl
  have hend : (sampleNode address).next
      ⟨∅, [some (sampleStream 5 (some sampleDelivery.completion))], [sampleDelivery],
        [.yielded 0 sampleContent.bytes]⟩ (.poll 0) =
      ⟨(∅ : Ledger).record (Address.display Hex.codec 1) sampleWork 0 sampleDelivery.served,
        [some (sampleStream 5 none)], [sampleDelivery],
        [.yielded 0 sampleContent.bytes, .completed 0]⟩ := by
    have hcompletion : sampleDelivery.completion =
        ⟨Address.display Hex.codec 1, sampleWork, 0, sampleDelivery.served⟩ := by
      rw [Delivery.completion, sampleDelivery, hconsumer, sampleWork_lowercase]
    rw [hcompletion]
    rfl
  have hissue : issueReceipt
      ((∅ : Ledger).record (Address.display Hex.codec 1) sampleWork 0 sampleDelivery.served)
      (Address.display (sampleNode address).hex (sampleNode address).address)
      (sampleNode address).epoch (Address.display Hex.codec 1) sampleWork 0 =
        .ok (sampleReceipt address) := by
    have hnode : normalizeAddr (Address.display Hex.codec address) =
        Address.display Hex.codec address := toAsciiLowercase_display Hex.codec address
    rw [issueReceipt, Ledger.get, Ledger.record, Std.ExtTreeMap.getElem?_insert_self]
    simp only [okOr, Delivery.served, sampleDelivery, sampleNode, ok_bind, sampleWork_lowercase,
      hconsumer, hnode]
    rfl
  -- One input after the other, each on an explicit world.
  rw [Node.run, sampleRequests, List.foldl_cons, hcontent, List.foldl_cons, hslice,
    List.foldl_cons, hend, List.foldl_cons, List.foldl_nil]
  simp only [Node.next, NodeWorld.receipt, hissue]
  rfl

/-- The nodes 2 and 4 both attest the block. -/
def sampleBundle : ReceiptBundle :=
  ⟨3, [⟨sampleReceipt 2, "node 2", "consumer"⟩, ⟨sampleReceipt 4, "node 4", "consumer"⟩]⟩

/-- Recovery of the signatures of `sampleBundle`. -/
def sampleRecoverSigner : RecoverSigner := fun _ sig =>
  if sig = "node 2" then some 2 else if sig = "node 4" then some 4 else some 1

theorem sampleBundle_checked {s : SignedReceipt} (hs : s ∈ sampleBundle.receipts) :
    Checked Hex.codec sampleRecoverSigner 3 (fun _ => true) s := by
  rcases List.mem_pair.1 hs with rfl | rfl
  · exact ⟨by decide +kernel, rfl, rfl⟩
  · exact ⟨by decide +kernel, rfl, rfl⟩

/-- Two receipts pass for the one block, and it is credited once. -/
theorem honest_evidence_capped_sample :
    (∀ s ∈ sampleBundle.receipts, Checked Hex.codec sampleRecoverSigner 3 (fun _ => true) s) ∧
      (acceptReceipts Hex.codec sampleRecoverSigner sampleBundle 3 fun _ => true).getD
        (Address.display Hex.codec 1, sampleWork) 0 = sampleContent.bytes.length := by
  have hissued : ∀ address, IssuedBy (sampleNode address) (sampleReceipt address) :=
    fun address => ⟨sampleRequests, by simp [sampleRequests_history]⟩
  refine ⟨fun s hs => sampleBundle_checked hs, ?_⟩
  refine (honest_evidence_capped.2 Hex.codec sampleRecoverSigner sampleBundle 3 (fun _ => true)
    (Address.display Hex.codec 1) sampleWork sampleContent ?_).2 ?_
  · intro s hs _ _
    rcases List.mem_pair.1 hs with rfl | rfl
    · exact ⟨sampleNode 2, hissued 2, rfl⟩
    · exact ⟨sampleNode 4, hissued 4, rfl⟩
  · intro i hi
    have hlen : sampleContent.bytes.length = 5 := rfl
    -- The content is shorter than one block.
    have hzero : i = 0 := by
      rw [hlen, chunkSize] at hi
      omega
    subst hzero
    have hfirst : ⟨sampleReceipt 2, "node 2", "consumer"⟩ ∈ sampleBundle.receipts :=
      List.mem_cons_self
    exact ⟨_, hfirst, sampleBundle_checked hfirst, by decide +kernel, rfl⟩

end Storage
end CleanWeb
