import CleanWeb.Storage.Client

/-!
# The client and the node

The bandwidth client against the node of this repository: before each of its requests, and while a
body is on its way, any other requests reach the node, bodies are polled and connections are lost.
An honest download is credited in full, and the client never finds fault with the node.
-/

namespace CleanWeb
namespace Storage

open Lib Lib.Exec Settle

attribute [local instance] lexOrd transOrd_key

/-! ## The node as a server -/

/-- What happens around one exchange: what reaches the node before it, what happens while the body
is handed out, and whether the answer arrives. -/
structure Meanwhile where
  before : List Request
  during : List Request
  arrives : Bool

def nodeServer (node : Node) : Server (NodeWorld × List Meanwhile) where
  content := fun s workId consumer i =>
    let m := s.2.headD ⟨[], [], true⟩
    match (m.before.foldl node.next s.1).content node workId consumer i with
    | (w, .body id) =>
        let w := m.during.foldl node.next w
        (if m.arrives = true ∧ .completed id ∈ w.history then some (slicesOf id w.history).flatten
          else none, w, s.2.tail)
    | (w, _) => (none, w, s.2.tail)
  receipt := fun s workId i consumer =>
    let m := s.2.headD ⟨[], [], true⟩
    match (m.before.foldl node.next s.1).receipt node workId i consumer with
    | (w, .receipt r nodeSig) => (if m.arrives then .signed r nodeSig else .failed, w, s.2.tail)
    | (w, .status code _) =>
        (if m.arrives = true ∧ code = 404 then .notFound else .failed, w, s.2.tail)
    | (w, _) => (.failed, w, s.2.tail)

/-! ## What the node remembers -/

/-- Completed deliveries are in the ledger. -/
def Remembered (w : NodeWorld) : Prop :=
  ∀ id d, .completed id ∈ w.history → w.deliveries[id]? = some d → d.key ∈ w.ledger

/-- Nothing of the node's memory is lost. -/
structure Grown (w w' : NodeWorld) : Prop where
  history : w.history <+: w'.history
  deliveries : w.deliveries <+: w'.deliveries
  ledger : ∀ key ∈ w.ledger, key ∈ w'.ledger

section

variable {node : Node} {w w' w'' : NodeWorld}

theorem Grown.refl (w : NodeWorld) : Grown w w :=
  ⟨List.prefix_rfl, List.prefix_rfl, fun _ h => h⟩

theorem Grown.trans (h : Grown w w') (h' : Grown w' w'') : Grown w w'' :=
  ⟨h.history.trans h'.history, h.deliveries.trans h'.deliveries,
    fun key hkey => h'.ledger key (h.ledger key hkey)⟩

theorem grown_content (node : Node) (w : NodeWorld) (workId consumer : String) (i : Nat) :
    Grown w (w.content node workId consumer i).1 := by
  unfold NodeWorld.content
  split
  · exact .refl w
  · exact .refl w
  · exact ⟨List.prefix_rfl, List.prefix_append _ _, fun _ h => h⟩

theorem grown_poll (w : NodeWorld) (id : Nat) : Grown w (w.poll id) := by
  unfold NodeWorld.poll
  split
  swap
  · exact .refl w
  split
  · exact ⟨List.prefix_append _ _, List.prefix_rfl, fun _ h => h⟩
  · exact ⟨List.prefix_rfl, List.prefix_rfl, fun _ h => h⟩
  · refine ⟨List.prefix_append _ _, List.prefix_rfl, ?_⟩
    intro key hkey
    exact Std.ExtTreeMap.mem_insert.2 (Or.inr hkey)
  · exact ⟨List.prefix_append _ _, List.prefix_rfl, fun _ h => h⟩

theorem grown_drop (w : NodeWorld) (id : Nat) : Grown w (w.drop id) := by
  unfold NodeWorld.drop
  split
  · exact ⟨List.prefix_append _ _, List.prefix_rfl, fun _ h => h⟩
  · exact .refl w

theorem grown_receipt (node : Node) (w : NodeWorld) (workId : String) (i : Nat)
    (consumer : String) :
    Grown w (w.receipt node workId i consumer).1 := by
  unfold NodeWorld.receipt
  split
  · exact .refl w
  · exact .refl w
  split
  · exact .refl w
  split
  · exact .refl w
  · exact ⟨List.prefix_append _ _, List.prefix_rfl, fun _ h => h⟩

theorem grown_next (node : Node) (w : NodeWorld) (request : Request) :
    Grown w (node.next w request) := by
  cases request with
  | content workId consumer i => exact grown_content node w workId consumer i
  | poll id => exact grown_poll w id
  | drop id => exact grown_drop w id
  | receipt workId i consumer => exact grown_receipt node w workId i consumer

theorem grown_foldl (node : Node) (w : NodeWorld) (requests : List Request) :
    Grown w (requests.foldl node.next w) := by
  induction requests generalizing w with
  | nil => exact .refl w
  | cons request requests ih => exact (grown_next node w request).trans (ih _)

/-- A delivery that has completed is an old one. -/
theorem getElem?_of_grown (h : NodeInv node w) (hg : Grown w w') {id : Nat} {d : Delivery}
    (hdone : .completed id ∈ w.history) (hd : w'.deliveries[id]? = some d) :
    w.deliveries[id]? = some d := by
  have hlt : id < w.deliveries.length := by
    by_contra hnew
    have hnone := (h.unborn id (Nat.le_of_not_lt hnew)).completed
    exact (List.count_eq_zero.1 hnone) hdone
  rcases hg.deliveries with ⟨rest, hrest⟩
  rw [← hrest, List.getElem?_append_left hlt] at hd
  exact hd

/-- With no new completion the memory is enough. -/
theorem Remembered.grown (h : NodeInv node w) (hr : Remembered w) (hg : Grown w w')
    (hold : ∀ id, .completed id ∈ w'.history → .completed id ∈ w.history) : Remembered w' := by
  intro id d hdone hd
  have hdone' := hold id hdone
  exact hg.ledger _ (hr id d hdone' (getElem?_of_grown h hg hdone' hd))

/-- A poll that completes a body records its delivery. -/
theorem recorded_poll (h : NodeInv node w) (id i : Nat) :
    .completed i ∈ (w.poll id).history → .completed i ∈ w.history ∨
      ∀ d, w.deliveries[i]? = some d → d.key ∈ (w.poll id).ledger := by
  unfold NodeWorld.poll
  split
  swap
  · exact Or.inl
  rename_i s hs
  split
  · intro hdone
    exact Or.inl (by simpa using hdone)
  · exact Or.inl
  · rename_i s' c hpoll
    intro hdone
    by_cases hi : i = id
    · subst hi
      refine Or.inr ?_
      intro d hd
      rcases pollNext_cases hpoll with ⟨hpos, hp, rfl⟩ | ⟨end_, bytes', -, -, -, -, hp, -⟩
      swap
      · cases hp
      injection hp with hsome
      have hc : c = d.completion := by
        cases h.progress i d _ hd hs with
        | flowing _ hdata hslices hcallback hnone hopen =>
            rw [hcallback, Option.some.injEq] at hsome
            exact hsome
        | ended _ hdata hpos' hslices hcallback honce =>
            rw [hcallback] at hsome
            cases hsome
      refine Std.ExtTreeMap.mem_insert.2 (Or.inl ?_)
      rw [Std.compare_eq_iff_eq, hc]
      simp [Delivery.key, Delivery.completion]
    · exact Or.inl (by simpa [hi] using hdone)
  · intro hdone
    exact Or.inl (by simpa using hdone)

theorem remembered_poll (h : NodeInv node w) (hr : Remembered w) (id : Nat) :
    Remembered (w.poll id) := by
  have hg := grown_poll w id
  have hsame : (w.poll id).deliveries = w.deliveries := by
    unfold NodeWorld.poll
    split
    · split <;> rfl
    · rfl
  intro i d hdone hd
  rw [hsame] at hd
  rcases recorded_poll h id i hdone with hdone' | hrecorded
  · exact hg.ledger _ (hr i d hdone' hd)
  · exact hrecorded d hd

theorem remembered_next (h : NodeInv node w) (hr : Remembered w) (request : Request) :
    Remembered (node.next w request) := by
  have hg := grown_next node w request
  cases request with
  | content workId consumer i =>
      refine hr.grown h hg ?_
      intro id hdone
      simp only [Node.next, NodeWorld.content] at hdone
      split at hdone <;> exact hdone
  | poll id => exact remembered_poll h hr id
  | drop id =>
      refine hr.grown h hg ?_
      intro i hdone
      simp only [Node.next, NodeWorld.drop] at hdone
      split at hdone
      · simpa using hdone
      · exact hdone
  | receipt workId i consumer =>
      refine hr.grown h hg ?_
      intro id hdone
      simp only [Node.next, NodeWorld.receipt] at hdone
      split at hdone
      · exact hdone
      · exact hdone
      split at hdone
      · exact hdone
      split at hdone
      · exact hdone
      · simpa using hdone

end

/-! ## Reachable worlds -/

/-- The node gets there from its start. -/
def Reached (node : Node) (w : NodeWorld) : Prop :=
  ∃ requests, w = node.run requests

section

variable {node : Node} {w : NodeWorld}

theorem Reached.foldl (h : Reached node w) (requests : List Request) :
    Reached node (requests.foldl node.next w) := by
  rcases h with ⟨before, rfl⟩
  refine ⟨before ++ requests, ?_⟩
  rw [Node.run, Node.run, List.foldl_append]

theorem Reached.next (h : Reached node w) (request : Request) :
    Reached node (node.next w request) :=
  h.foldl [request]

theorem Reached.inv (h : Reached node w) : NodeInv node w := by
  rcases h with ⟨requests, rfl⟩
  exact nodeInv_run node requests

theorem Reached.remembered (h : Reached node w) : Remembered w := by
  rcases h with ⟨requests, rfl⟩
  induction requests using List.reverseRecOn with
  | nil =>
      intro id d hdone
      simp [Node.run, NodeWorld.init] at hdone
  | append_singleton requests request ih =>
      rw [Node.run, List.foldl_append, List.foldl_cons, List.foldl_nil]
      exact remembered_next (nodeInv_run node requests) ih request

/-- The slices of a completed body are its block. -/
theorem Reached.slices (h : Reached node w) {id : Nat} {d : Delivery}
    (hd : w.deliveries[id]? = some d) (hdone : .completed id ∈ w.history) :
    (slicesOf id w.history).flatten = d.data := by
  rcases h with ⟨requests, rfl⟩
  have hsound := deliveriesSound_run node requests
  rcases List.append_of_mem hdone with ⟨pre, post, heq⟩
  rcases hsound.complete pre id post heq with ⟨d', hd', hall, -⟩
  rw [hd, Option.some.injEq] at hd'
  subst hd'
  -- All of it was handed out before, and no more ever is.
  refine (hsound.slices id d hd).eq_of_length_le ?_
  rw [heq, slicesOf_append, List.flatten_append, hall, List.length_append]
  exact Nat.le_add_right _ _

end

/-! ## One exchange -/

section

variable {node : Node} {s s' : NodeWorld × List Meanwhile}

theorem content_reached (h : Reached node s.1) (workId consumer : String) (i : Nat) :
    Reached node ((nodeServer node).content s workId consumer i).2.1 := by
  have hnext := (h.foldl (s.2.headD ⟨[], [], true⟩).before).next (.content workId consumer i)
  simp only [Node.next] at hnext
  simp only [nodeServer]
  generalize (((s.2.headD ⟨[], [], true⟩).before.foldl node.next s.1).content node workId consumer
    i) = out at hnext
  rcases out with ⟨w, answer⟩
  cases answer with
  | body id => exact hnext.foldl _
  | receipt r nodeSig => exact hnext
  | status code text => exact hnext
  | aborted => exact hnext

theorem grown_contentExchange (node : Node) (s : NodeWorld × List Meanwhile)
    (workId consumer : String) (i : Nat) :
    Grown s.1 ((nodeServer node).content s workId consumer i).2.1 := by
  have hbefore := grown_foldl node s.1 (s.2.headD ⟨[], [], true⟩).before
  simp only [nodeServer]
  generalize (s.2.headD ⟨[], [], true⟩).before.foldl node.next s.1 = w at hbefore
  have hopen := grown_content node w workId consumer i
  generalize w.content node workId consumer i = out at hopen
  rcases out with ⟨w₁, answer⟩
  cases answer with
  | body id => exact (hbefore.trans hopen).trans (grown_foldl node _ _)
  | receipt r nodeSig => exact hbefore.trans hopen
  | status code text => exact hbefore.trans hopen
  | aborted => exact hbefore.trans hopen

theorem grown_receiptExchange (node : Node) (s : NodeWorld × List Meanwhile) (workId : String)
    (i : Nat) (consumer : String) :
    Grown s.1 ((nodeServer node).receipt s workId i consumer).2.1 := by
  have hbefore := grown_foldl node s.1 (s.2.headD ⟨[], [], true⟩).before
  simp only [nodeServer]
  generalize (s.2.headD ⟨[], [], true⟩).before.foldl node.next s.1 = w at hbefore
  have hissue := grown_receipt node w workId i consumer
  generalize w.receipt node workId i consumer = out at hissue
  rcases out with ⟨w₁, answer⟩
  cases answer with
  | body id => exact hbefore.trans hissue
  | receipt r nodeSig => exact hbefore.trans hissue
  | status code text => exact hbefore.trans hissue
  | aborted => exact hbefore.trans hissue

/-- A request for content opens a body for the block. -/
theorem content_opens {w w₁ : NodeWorld} {workId consumer : String} {i id : Nat}
    (h : w.content node workId consumer i = (w₁, .body id)) :
    ∃ bytes, fragmentForChunk node.files workId i = .ok bytes ∧ id = w.streams.length ∧
      w₁.deliveries = w.deliveries ++ [⟨consumer, workId, i, bytes⟩] := by
  unfold NodeWorld.content at h
  split at h
  · cases h
  · cases h
  · rename_i bytes hfragment
    injection h with hworld hbody
    injection hbody with hid
    exact ⟨bytes, hfragment, hid.symm, by rw [← hworld]⟩

/-- A body that arrives is the block, and the node remembers it. -/
theorem content_arrives (h : Reached node s.1) {workId consumer : String} {i : Nat}
    {body : List UInt8} (hbody : (nodeServer node).content s workId consumer i = (some body, s')) :
    fragmentForChunk node.files workId i = .ok body ∧
      (normalizeAddr consumer, toAsciiLowercase workId, i) ∈ s'.1.ledger := by
  have hreached := h.foldl (s.2.headD ⟨[], [], true⟩).before
  simp only [nodeServer] at hbody
  generalize (s.2.headD ⟨[], [], true⟩).before.foldl node.next s.1 = w at hreached hbody
  have hnext := hreached.next (.content workId consumer i)
  simp only [Node.next] at hnext
  split at hbody
  swap
  · simp at hbody
  rename_i w₁ id hanswer
  rw [hanswer] at hnext
  rcases content_opens hanswer with ⟨bytes, hfragment, rfl, hdeliveries⟩
  have hlater := hnext.foldl (s.2.headD ⟨[], [], true⟩).during
  have hgrown := grown_foldl node w₁ (s.2.headD ⟨[], [], true⟩).during
  dsimp only at hlater
  generalize (s.2.headD ⟨[], [], true⟩).during.foldl node.next w₁ = w₂ at hbody hlater hgrown
  split at hbody
  · rename_i hdone
    injection hbody with hslices hstate
    rw [Option.some.injEq] at hslices
    subst hstate
    -- The delivery of this body is where it was put.
    have hkept : w₂.deliveries[w.streams.length]? = some ⟨consumer, workId, i, bytes⟩ := by
      rcases hgrown.deliveries with ⟨rest, hrest⟩
      rw [← hrest, hdeliveries, hreached.inv.lengths]
      simp
    have hkey := hlater.remembered _ _ hdone.2 hkept
    rw [Delivery.key] at hkey
    refine ⟨?_, hkey⟩
    rw [← hslices, hlater.slices hkept hdone.2]
    exact hfragment
  · simp at hbody

/-- The receipt that the node gives for a block. -/
def attested (node : Node) (consumer workId : String) (content : ByteVec) (i : Nat) : Receipt :=
  { workId := toAsciiLowercase workId
    consumer := normalizeAddr consumer
    node := normalizeAddr (Address.display node.hex node.address)
    chunkIndex := i
    bytes := (window chunkSize content.bytes i).length
    epoch := node.epoch }

/-- What comes back for a receipt request: a refusal only where nothing is remembered, and the one
receipt for the block otherwise. -/
inductive Answers (node : Node) (consumer workId : String) (content : ByteVec) (i : Nat)
    (s : NodeWorld × List Meanwhile) : Attestation × NodeWorld × List Meanwhile → Prop where
  | notFound (s' : NodeWorld × List Meanwhile) : Reached node s'.1 →
      (normalizeAddr consumer, toAsciiLowercase workId, i) ∉ s.1.ledger →
      Answers node consumer workId content i s (.notFound, s')
  | failed (s' : NodeWorld × List Meanwhile) : Reached node s'.1 →
      Answers node consumer workId content i s (.failed, s')
  | signed (msg sig : List UInt8) (s' : NodeWorld × List Meanwhile) : Reached node s'.1 →
      (normalizeAddr consumer, toAsciiLowercase workId, i) ∈ s'.1.ledger →
      IssuedBy node (attested node consumer workId content i) →
      node.canonicalBytes (attested node consumer workId content i) = .ok msg →
      node.signMessage msg = .ok sig →
      Answers node consumer workId content i s
        (.signed (attested node consumer workId content i) ("0x" ++ node.hex.encode sig), s')

/-- What the ledger of a reachable world holds is the length of the block. -/
theorem issueReceipt_eq {w : NodeWorld} (h : Reached node w) {consumer workId : String}
    {content : ByteVec} {i : Nat} {r : Receipt}
    (hcontent : node.files (fileName workId) = .ok content)
    (hr : issueReceipt w.ledger (Address.display node.hex node.address) node.epoch consumer workId
      i = .ok r) : r = attested node consumer workId content i := by
  unfold issueReceipt at hr
  rcases bind_eq_ok.1 hr with ⟨served, hget, hr⟩
  rw [okOr_eq_ok] at hget
  rcases h.inv.ledger _ _ hget with ⟨id, d, hd, -, hkey, hserved⟩
  have hconsumer : normalizeAddr consumer = normalizeAddr d.consumer := congrArg Prod.fst hkey
  have hwork : toAsciiLowercase workId = toAsciiLowercase d.workId := congrArg (·.2.1) hkey
  have hindex : i = d.chunkIndex := congrArg (·.2.2) hkey
  rcases fragmentForChunk_eq_window (h.inv.content d (List.mem_of_getElem? hd)) with
    ⟨content', hfile, hdata⟩
  -- The file is found under the lowercase id, which is the same.
  rw [fileName, ← hwork] at hfile
  rw [fileName, hfile, Except.ok.injEq] at hcontent
  subst hcontent
  have hr' := (Except.ok.inj hr).symm
  rw [hr', hserved, attested, hconsumer, hwork, hindex]
  simp [Delivery.served, hdata]

theorem receipt_answers (h : Reached node s.1) (consumer workId : String) (i : Nat)
    {content : ByteVec} (hcontent : node.files (fileName workId) = .ok content) :
    Answers node consumer workId content i s
      ((nodeServer node).receipt s workId i consumer) := by
  have hreached := h.foldl (s.2.headD ⟨[], [], true⟩).before
  have hgrown := grown_foldl node s.1 (s.2.headD ⟨[], [], true⟩).before
  simp only [nodeServer]
  generalize (s.2.headD ⟨[], [], true⟩).before.foldl node.next s.1 = w at hreached hgrown
  have hnext := hreached.next (.receipt workId i consumer)
  simp only [Node.next] at hnext
  unfold NodeWorld.receipt at hnext ⊢
  cases hissue : issueReceipt w.ledger (Address.display node.hex node.address) node.epoch consumer
      workId i with
  | error t =>
      rw [hissue] at hnext
      cases t with
      | panic => exact .failed _ hnext
      | err e =>
          dsimp only
          split
          · refine .notFound _ hnext ?_
            intro hkey
            have hsome := Std.ExtTreeMap.getElem?_eq_some_getElem (hgrown.ledger _ hkey)
            rw [issueReceipt, Ledger.get, hsome] at hissue
            cases hissue
          · exact .failed _ hnext
  | ok r =>
      have hr := issueReceipt_eq hreached hcontent hissue
      subst hr
      rw [hissue] at hnext
      dsimp only at hnext ⊢
      cases hmsg : node.canonicalBytes (attested node consumer workId content i) with
      | error message =>
          dsimp only
          rw [if_neg (by simp)]
          exact .failed _ hreached
      | ok msg =>
          rw [hmsg] at hnext
          dsimp only at hnext ⊢
          cases hsig : node.signMessage msg with
          | error message =>
              dsimp only
              rw [if_neg (by simp)]
              exact .failed _ hreached
          | ok sig =>
              rw [hsig] at hnext
              dsimp only at hnext ⊢
              split
              · refine .signed msg sig _ hnext ?_ ?_ hmsg hsig
                · -- Only what is in the ledger is attested.
                  unfold issueReceipt at hissue
                  rcases bind_eq_ok.1 hissue with ⟨served, hget, -⟩
                  rw [okOr_eq_ok] at hget
                  exact Std.ExtTreeMap.mem_iff_isSome_getElem?.2 (by
                    rw [Ledger.get] at hget
                    simp [hget])
                · rcases hnext with ⟨requests, hrun⟩
                  refine ⟨requests, ?_⟩
                  rw [← hrun]
                  exact List.mem_append_right _ (List.mem_singleton.2 rfl)
              · exact .failed _ hnext

end

/-! ## The whole errand -/

/-- The node serves the work of the errand in its epoch; encoding and signing work, and what the two
sides sign recovers to their addresses. -/
structure Fit (node : Node) (c : Consumer) (errand : Errand) (content : ByteVec) : Prop where
  hex : node.hex = c.hex
  nodeSigns : ∀ r msg sig, node.canonicalBytes r = .ok msg → node.signMessage msg = .ok sig →
    c.recoverSigner r ("0x" ++ c.hex.encode sig) = some node.address
  own : SelfSigning c
  encodes : ∀ r, ∃ msg, c.canonicalBytes r = .ok msg
  signs : ∀ msg, ∃ sig, c.signMessage msg = .ok sig
  epoch : node.epoch = errand.epoch
  lowercase : toAsciiLowercase errand.workId = errand.workId
  content : node.files (fileName errand.workId) = .ok content

section

variable {node : Node} {c : Consumer} {errand : Errand} {content : ByteVec}

/-- The receipt of a fitting node passes every check of the client. -/
theorem Fit.agreed (h : Fit node c errand content) {i : Nat} {got : Option Nat}
    (hgot : ∀ n, got = some n → n = (window chunkSize content.bytes i).length)
    {msg sig : List UInt8}
    (hmsg : node.canonicalBytes (attested node c.name errand.workId content i) = .ok msg)
    (hsig : node.signMessage msg = .ok sig) :
    Agreed c errand i got (attested node c.name errand.workId content i)
      ("0x" ++ node.hex.encode sig) where
  signer := by
    refine ⟨node.address, ?_, ?_⟩
    · rw [h.hex]
      exact h.nodeSigns _ _ _ hmsg hsig
    · simp [attested, normalizeAddr, h.hex, toAsciiLowercase_display]
  epoch := h.epoch
  work := h.lowercase
  consumer := by simp [attested, normalizeAddr]
  chunk := rfl
  bytes := fun n hn => (hgot n hn).symm

/-- The content position of the errand. -/
def keyOf (c : Consumer) (errand : Errand) (i : Nat) : String × String × Nat :=
  (normalizeAddr c.name, toAsciiLowercase errand.workId, i)

/-- What the client has after the blocks `done`. -/
structure Served (node : Node) (c : Consumer) (errand : Errand) (content : ByteVec)
    (downloads : Bool) (done : List Nat) (s : NodeWorld × List Meanwhile)
    (signed : List SignedReceipt) : Prop where
  reached : Reached node s.1
  issued : ∀ sr ∈ signed, ∃ i ∈ done, ∃ got, CoSigned c errand i got sr ∧
    sr.receipt = attested node c.name errand.workId content i ∧ IssuedBy node sr.receipt ∧
      keyOf c errand i ∈ s.1.ledger
  all : downloads = true → ∀ i ∈ done, ∃ sr ∈ signed, sr.receipt.chunkIndex = i

/-- What a fetch leaves: with a download, the bytes of the block and an entry in the ledger. -/
structure Fetched (node : Node) (c : Consumer) (errand : Errand) (content : ByteVec)
    (downloads : Bool) (i : Nat) (got : Option Nat) (s s' : NodeWorld × List Meanwhile) : Prop where
  reached : Reached node s'.1
  grown : Grown s.1 s'.1
  bytes : ∀ n, got = some n → n = (window chunkSize content.bytes i).length
  remembered : downloads = true → keyOf c errand i ∈ s'.1.ledger

theorem fetched_of_fetchChunk (h : Fit node c errand content) {downloads : Bool} {i : Nat}
    {s s' : NodeWorld × List Meanwhile} (hs : Reached node s.1) {got : Option Nat}
    (hfetch : fetchChunk (nodeServer node) c errand downloads i s = (.ok got, s')) :
    Fetched node c errand content downloads i got s s' := by
  unfold fetchChunk at hfetch
  cases downloads with
  | false =>
      injection hfetch with hgot hstate
      cases hgot
      subst hstate
      exact ⟨hs, .refl _, by simp, by simp⟩
  | true =>
      simp only [if_true] at hfetch
      have hreached := content_reached hs errand.workId c.name i
      have hgrown := grown_contentExchange node s errand.workId c.name i
      split at hfetch
      · simp [fail] at hfetch
      · rename_i body t hbody
        injection hfetch with hgot hstate
        cases hgot
        subst hstate
        rw [hbody] at hreached hgrown
        rcases content_arrives hs hbody with ⟨hfragment, hkey⟩
        rcases fragmentForChunk_eq_window hfragment with ⟨content', hfile, hdata⟩
        rw [h.content, Except.ok.injEq] at hfile
        subst hfile
        refine ⟨hreached, hgrown, ?_, fun _ => hkey⟩
        intro n hn
        rw [← hdata]
        exact (Option.some.inj hn).symm

theorem served_step (h : Fit node c errand content) {downloads : Bool} {done : List Nat} {i : Nat}
    {s s₁ s₂ : NodeWorld × List Meanwhile} {signed : List SignedReceipt} {got : Option Nat}
    {out : Option SignedReceipt} (hs : Served node c errand content downloads done s signed)
    (hfetch : fetchChunk (nodeServer node) c errand downloads i s = (.ok got, s₁))
    (hattests : Attests (nodeServer node) c errand i got s₁ (out, s₂)) :
    Served node c errand content downloads (done ++ [i]) s₂ (signed ++ out.toList) := by
  have hfetched := fetched_of_fetchChunk h hs.reached hfetch
  have hanswer := receipt_answers hfetched.reached c.name errand.workId i h.content
  have hgrown := grown_receiptExchange node s₁ errand.workId i c.name
  -- The receipts collected so far stay what they are.
  have hold : Grown s.1 s₂.1 → ∀ sr ∈ signed, ∃ j ∈ done ++ [i], ∃ got, CoSigned c errand j got sr ∧
      sr.receipt = attested node c.name errand.workId content j ∧ IssuedBy node sr.receipt ∧
        keyOf c errand j ∈ s₂.1.ledger := by
    intro hg sr hsr
    rcases hs.issued sr hsr with ⟨j, hj, got', hsigned, hreceipt, hissued, hkey⟩
    exact ⟨j, List.mem_append_left _ hj, got', hsigned, hreceipt, hissued, hg.ledger _ hkey⟩
  cases hattests with
  | refused _ hrefused =>
      rw [hrefused] at hanswer hgrown
      cases hanswer with
      | notFound _ hreached hforgotten =>
          refine ⟨hreached, by simpa using hold (hfetched.grown.trans hgrown), ?_⟩
          -- After a download the node does not refuse.
          intro hdown
          exact absurd (hfetched.remembered hdown) hforgotten
  | signed sr _ hsigned hco =>
      rw [hsigned] at hanswer hgrown
      have hg := hfetched.grown.trans hgrown
      generalize hreceipt : sr.receipt = r at hanswer
      generalize sr.nodeSig = nodeSig at hanswer
      cases hanswer with
      | signed msg sig _ hreached hkey hissued hmsg hsig =>
          refine ⟨hreached, ?_, ?_⟩
          · intro sr' hsr'
            rcases List.mem_append.1 hsr' with hsr' | hsr'
            · exact hold hg sr' hsr'
            · have heq : sr' = sr := by simpa using hsr'
              subst heq
              exact ⟨i, by simp, got, hco, hreceipt, hreceipt ▸ hissued, hkey⟩
          · intro hdown j hj
            rcases List.mem_append.1 hj with hj | hj
            · rcases hs.all hdown j hj with ⟨sr', hsr', hindex⟩
              exact ⟨sr', List.mem_append_left _ hsr', hindex⟩
            · refine ⟨sr, by simp, ?_⟩
              rw [hreceipt, List.mem_singleton.1 hj]
              rfl

/-! ## What is credited -/

theorem mem_blocks_iff (mode : Mode) (i : Nat) :
    i ∈ mode.blocks ↔ i < mode.blocks.dedup.length := by
  cases mode with
  | honest chunks => simp [Mode.blocks, List.nodup_range.dedup]
  | noDownload chunks => simp [Mode.blocks, List.nodup_range.dedup]
  | refetch repeats =>
      cases repeats with
      | zero => simp [Mode.blocks]
      | succ n => simp [Mode.blocks, List.replicate_dedup]

/-- A mode that stops goes through the blocks in order. -/
theorem mem_before_of_lt {mode : Mode} (hstops : mode.stops = true) {before rest : List Nat}
    {i j : Nat} (hblocks : mode.blocks = before ++ i :: rest) (hj : j ∈ mode.blocks) (hlt : j < i) :
    j ∈ before := by
  cases mode with
  | honest chunks =>
      have hsorted : (before ++ i :: rest).Pairwise (· < ·) := by
        rw [← hblocks]
        exact List.pairwise_lt_range
      rw [hblocks] at hj
      rcases List.mem_append.1 hj with hj | hj
      · exact hj
      · rcases List.mem_cons.1 hj with rfl | hj
        · exact absurd hlt (lt_irrefl _)
        · have hlater := List.rel_of_pairwise_cons (List.pairwise_append.1 hsorted).2.1 hj
          exact absurd hlater (Nat.lt_asymm hlt)
  | noDownload chunks => cases hstops
  | refetch repeats => cases hstops

/-- The bundle has all blocks of the mode that the content has. -/
structure Complete (node : Node) (c : Consumer) (errand : Errand) (content : ByteVec) (mode : Mode)
    (s : NodeWorld × List Meanwhile) (receipts : List SignedReceipt) : Prop where
  reached : Reached node s.1
  issued : ∀ sr ∈ receipts, ∃ i ∈ mode.blocks, ∃ got, CoSigned c errand i got sr ∧
    sr.receipt = attested node c.name errand.workId content i ∧ IssuedBy node sr.receipt ∧
      keyOf c errand i ∈ s.1.ledger
  all : mode.downloads = true → ∀ i ∈ mode.blocks, i * chunkSize < content.bytes.length →
    ∃ sr ∈ receipts, sr.receipt.chunkIndex = i

theorem Complete.credit {mode : Mode} {s : NodeWorld × List Meanwhile}
    {receipts : List SignedReceipt} (h : Complete node c errand content mode s receipts)
    (hfit : Fit node c errand content) (hdown : mode.downloads = true)
    {credentialed : String → Bool}
    (hcred : credentialed (Address.display c.hex node.address) = true) :
    bundleCredit c ⟨errand.epoch, receipts⟩ errand.epoch credentialed
        (c.name, toAsciiLowercase errand.workId) =
      min content.bytes.length (mode.blocks.dedup.length * chunkSize) := by
  rcases acceptReceipts_spec c.hex c.recoverSigner ⟨errand.epoch, receipts⟩ errand.epoch
    credentialed with ⟨counted, hcounted, htally⟩
  have hname : normalizeAddr c.name = c.name := by
    rw [normalizeAddr, Consumer.name, toAsciiLowercase_display]
  have hpairs : ∀ sr ∈ receipts, sr.receipt.pair = (c.name, toAsciiLowercase errand.workId) ∧
      Checked c.hex c.recoverSigner errand.epoch credentialed sr := by
    intro sr hsr
    rcases h.issued sr hsr with ⟨i, -, got, hco, hreceipt, -⟩
    refine ⟨?_, hco.verify hfit.own, hco.agreed.epoch, ?_⟩
    · rw [Receipt.pair, hreceipt]
      simp [attested, hname]
    · rw [hreceipt]
      simpa [attested, hfit.hex, normalizeAddr, toAsciiLowercase_display] using hcred
  have hfile : node.files (toAsciiLowercase errand.workId ++ ".bin") = .ok content := hfit.content
  have hamount : amountAt (c.name, toAsciiLowercase errand.workId) (credits counted) =
      ((blocksOf counted c.name (toAsciiLowercase errand.workId)).map fun i =>
        (window chunkSize content.bytes i).length).sum := by
    refine amountAt_credits hcounted ?_
    intro sr hsr _ _
    rcases h.issued sr hsr with ⟨i, -, got, -, -, hissued, -⟩
    exact ⟨node, hissued, hfile⟩
  have hsum : ((blocksOf counted c.name (toAsciiLowercase errand.workId)).map fun i =>
      (window chunkSize content.bytes i).length).sum =
        min content.bytes.length (mode.blocks.dedup.length * chunkSize) := by
    refine sum_length_window_cover content.bytes (nodup_blocksOf hcounted) ?_ ?_
    · intro i hi
      rcases List.mem_map.1 hi with ⟨sr, hsr, rfl⟩
      rcases h.issued sr (hcounted.checked sr (List.mem_filter.1 hsr).1).1 with
        ⟨i, hi, got, -, hreceipt, -⟩
      rw [← mem_blocks_iff, hreceipt]
      exact hi
    · intro i hi hlt
      rcases h.all hdown i ((mem_blocks_iff mode i).2 hi) hlt with ⟨sr, hsr, rfl⟩
      exact mem_blocksOf hcounted hsr (hpairs sr hsr).2 (hpairs sr hsr).1
  have hcap := htally.amount (c.name, toAsciiLowercase errand.workId)
  have hfits := content.fits
  rw [hamount, hsum] at hcap
  rw [bundleCredit, hcap]
  omega

/-- Without a delivery for the consumer there is nothing to sign. -/
theorem Complete.nil_of_undelivered {mode : Mode} {s : NodeWorld × List Meanwhile}
    {receipts : List SignedReceipt} (h : Complete node c errand content mode s receipts)
    (hnone : ∀ d ∈ s.1.deliveries, ¬ (normalizeAddr d.consumer = normalizeAddr c.name ∧
      toAsciiLowercase d.workId = toAsciiLowercase errand.workId)) : receipts = [] := by
  refine List.eq_nil_iff_forall_not_mem.2 ?_
  intro sr hsr
  rcases h.issued sr hsr with ⟨i, -, got, -, -, -, hkey⟩
  have hsome := Std.ExtTreeMap.getElem?_eq_some_getElem hkey
  rcases h.reached.inv.ledger _ _ hsome with ⟨id, d, hd, -, heq, -⟩
  exact hnone d (List.mem_of_getElem? hd)
    ⟨(congrArg Prod.fst heq).symm, (congrArg (·.2.1) heq).symm⟩

/-- The only errors are a body or an answer that does not arrive. -/
theorem coSignChunk_error (h : Fit node c errand content) {i : Nat} {got : Option Nat}
    {s s' : NodeWorld × List Meanwhile} (hs : Reached node s.1)
    (hgot : ∀ n, got = some n → n = (window chunkSize content.bytes i).length)
    {t : Trap ClientError} (herror : coSignChunk (nodeServer node) c errand i got s =
      (.error t, s')) : t = .err .attest := by
  have hanswer := receipt_answers hs c.name errand.workId i h.content
  unfold coSignChunk at herror
  generalize (nodeServer node).receipt s errand.workId i c.name = out at hanswer herror
  cases hanswer with
  | notFound _ _ _ => simp at herror
  | failed _ _ =>
      injection herror with htrap
      exact (Except.error.inj htrap).symm
  | signed msg sig _ _ _ _ hmsg hsig =>
      have hchecked := (checkReceipt_eq_ok (u := ())).2 (h.agreed hgot hmsg hsig)
      rcases h.encodes (attested node c.name errand.workId content i) with ⟨own, hown⟩
      rcases h.signs own with ⟨ownSig, hownSig⟩
      simp [hchecked, hown, hownSig, orFail] at herror

theorem fetchChunk_error {downloads : Bool} {i : Nat} {s s' : NodeWorld × List Meanwhile}
    {t : Trap ClientError}
    (herror : fetchChunk (nodeServer node) c errand downloads i s = (.error t, s')) :
    t = .err .fetch := by
  unfold fetchChunk at herror
  split at herror
  · split at herror
    · injection herror with htrap
      exact (Except.error.inj htrap).symm
    · simp at herror
  · simp at herror

theorem main_complete (h : Fit node c errand content) (requests : List Request)
    (plan : List Meanwhile) (mode : Mode) :
    Meets (main (nodeServer node) c errand mode (node.run requests, plan)).1
      (fun bundle => bundle.epoch = errand.epoch ∧ Complete node c errand content mode
        (main (nodeServer node) c errand mode (node.run requests, plan)).2 bundle.receipts)
      (fun t => t = .err .fetch ∨ t = .err .attest) := by
  have hinit : Served node c errand content mode.downloads [] (node.run requests, plan) [] :=
    ⟨⟨requests, rfl⟩, by simp, by simp⟩
  have hends : Ends (nodeServer node) c errand mode.downloads mode.stops
      (Served node c errand content mode.downloads) mode.blocks
      (collect (nodeServer node) c errand mode.downloads mode.stops mode.blocks
        (node.run requests, plan) []) :=
    collect_ends (fun done i s signed got s₁ out s₂ hs hfetch hattests =>
      served_step h hs hfetch hattests) hinit rfl
  unfold main
  generalize collect (nodeServer node) c errand mode.downloads mode.stops mode.blocks
    (node.run requests, plan) [] = out at hends
  cases hends with
  | finished s signed hserved =>
      exact ⟨rfl, hserved.reached, hserved.issued, fun hdown i hi _ => hserved.all hdown i hi⟩
  | stopped before rest i s s' signed hblocks hstops hserved hfetch =>
      have hfetched := fetched_of_fetchChunk h hserved.reached hfetch
      have hempty := hfetched.bytes 0 rfl
      refine ⟨rfl, hfetched.reached, ?_, ?_⟩
      · intro sr hsr
        rcases hserved.issued sr hsr with ⟨j, hj, got, hco, hreceipt, hissued, hkey⟩
        refine ⟨j, ?_, got, hco, hreceipt, hissued, hfetched.grown.ledger _ hkey⟩
        rw [hblocks]
        exact List.mem_append_left _ hj
      · -- The blocks not asked for are past the end.
        intro hdown j hj hlt
        refine hserved.all hdown j (mem_before_of_lt hstops hblocks hj ?_)
        by_contra hge
        have hmul := Nat.mul_le_mul_right chunkSize (Nat.le_of_not_lt hge)
        have hpos : 0 < chunkSize := by decide
        rw [length_window] at hempty
        omega
  | unfetched before rest i s s' signed t hblocks hserved hfetch =>
      exact Or.inl (fetchChunk_error hfetch)
  | unattested before rest i s s₁ s' signed got t hblocks hserved hfetch hsigned =>
      have hfetched := fetched_of_fetchChunk h hserved.reached hfetch
      exact Or.inr (coSignChunk_error h hfetched.reached hfetched.bytes hsigned)

/-- The client and the node, with any other requests, polls and lost connections in between: the
client fails only where a body or an answer does not arrive.  Otherwise, from a credentialed node,
the modes that download are credited with exactly the part of the content that their blocks cover,
and the mode that does not gets no receipt, unless somebody downloaded in the consumer's name. -/
theorem download_credited (h : Fit node c errand content) (requests : List Request)
    (plan : List Meanwhile) (mode : Mode) {credentialed : String → Bool}
    (hcred : credentialed (Address.display c.hex node.address) = true) :
    (∀ t, (main (nodeServer node) c errand mode (node.run requests, plan)).1 = .error t →
      t = .err .fetch ∨ t = .err .attest) ∧
    ∀ bundle, (main (nodeServer node) c errand mode (node.run requests, plan)).1 = .ok bundle →
      (mode.downloads = true → bundleCredit c bundle errand.epoch credentialed
        (c.name, toAsciiLowercase errand.workId) =
          min content.bytes.length (mode.blocks.dedup.length * chunkSize)) ∧
      ((∀ d ∈ (main (nodeServer node) c errand mode (node.run requests, plan)).2.1.deliveries,
        ¬ (normalizeAddr d.consumer = normalizeAddr c.name ∧
          toAsciiLowercase d.workId = toAsciiLowercase errand.workId)) → bundle.receipts = []) := by
  have hmeets := main_complete h requests plan mode
  refine ⟨fun t ht => hmeets.of_error ht, ?_⟩
  rintro ⟨epoch, receipts⟩ hok
  rcases hmeets.of_ok hok with ⟨rfl, hcomplete⟩
  exact ⟨fun hdown => hcomplete.credit h hdown hcred, hcomplete.nil_of_undelivered⟩

end

/-! ## One download -/

def shopNode : Node :=
  { hex := Hex.codec
    address := 2
    epoch := 3
    files := fun name =>
      if name = sampleWork ++ ".bin" then .ok sampleContent else .error "not found"
    canonicalBytes := fun _ => .ok []
    signMessage := fun _ => .ok [2] }

def shopErrand : Errand :=
  ⟨sampleWork, 3⟩

/-- The connection is lost after the body has arrived. -/
def shopPlan : List Meanwhile :=
  [⟨[], [.poll 0, .poll 0], true⟩, ⟨[.drop 0], [], true⟩]

theorem fit_shop : Fit shopNode plainConsumer shopErrand sampleContent where
  hex := rfl
  nodeSigns := by
    intro r msg sig _ hsig
    cases hsig
    have htext : "0x" ++ Hex.codec.encode [2] = "0x02" := by
      decide +kernel
    simp [plainConsumer, shopNode, htext]
  own := selfSigning_plainConsumer
  encodes := fun _ => ⟨[], rfl⟩
  signs := fun _ => ⟨[1], rfl⟩
  epoch := rfl
  lowercase := by decide +kernel
  content := by
    have hlower : toAsciiLowercase sampleWork = sampleWork := by
      decide +kernel
    simp [fileName, shopErrand, shopNode, hlower]

/-- One block of five bytes. -/
theorem download_credited_shop :
    ∃ bundle, (main (nodeServer shopNode) plainConsumer shopErrand (.honest 1)
        (shopNode.run [], shopPlan)).1 = .ok bundle ∧
      bundleCredit plainConsumer bundle 3 (fun _ => true)
        (plainConsumer.name, toAsciiLowercase sampleWork) = 5 := by
  have hreturns : (main (nodeServer shopNode) plainConsumer shopErrand (.honest 1)
      (shopNode.run [], shopPlan)).1.toBool = true := by
    decide +kernel
  cases hmain : (main (nodeServer shopNode) plainConsumer shopErrand (.honest 1)
      (shopNode.run [], shopPlan)).1 with
  | error t =>
      rw [hmain] at hreturns
      cases hreturns
  | ok bundle =>
      have hcredit := (@download_credited _ _ _ _ fit_shop [] shopPlan (.honest 1) (fun _ => true)
        rfl).2 bundle hmain
      exact ⟨bundle, rfl, hcredit.1 rfl⟩

end Storage
end CleanWeb
