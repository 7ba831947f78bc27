import CleanWeb.Lib.History
import CleanWeb.Lib.Window
import CleanWeb.Settle.ReceiptTally
import CleanWeb.Storage.Node

/-!
# What a node remembers was delivered

The invariant of the node under every interleaving of requests, polls and dropped connections: a
body hands out its data in order, completes at most once and only after the last byte, and the
ledger holds completed deliveries only.
-/

namespace CleanWeb
namespace Storage

open Lib Lib.Exec Settle

attribute [local instance] lexOrd

/-! ## Blocks -/

/-- A block is a window of the content: the clamps and the saturation change nothing. -/
theorem fragmentForChunk_eq_window {files : Files} {workId : String} {chunkIndex : Nat}
    {data : List UInt8} (h : fragmentForChunk files workId chunkIndex = .ok data) :
    ∃ content, files (fileName workId) = .ok content ∧
      data = window chunkSize content.bytes chunkIndex := by
  unfold fragmentForChunk at h
  split at h
  · cases h
  split at h
  · cases h
  rename_i content hfile
  refine ⟨content, hfile, ?_⟩
  dsimp only at h
  rw [slice_eq_ok] at h
  rw [← h.2, window]
  have hfits := content.fits
  unfold saturatingMulU64 saturatingAddU64
  generalize chunkIndex * chunkSize = offset
  generalize chunkSize = n
  by_cases hin : offset < content.bytes.length
  · have hstart : min (min offset (2 ^ 64 - 1)) content.bytes.length = offset := by
      omega
    have hend : min (min (offset + n) (2 ^ 64 - 1)) content.bytes.length - offset =
        min n (content.bytes.drop offset).length := by
      rw [List.length_drop]
      omega
    rw [hstart, hend, ← List.take_eq_take_min]
  · -- Past the end both are empty.
    have hstart : min (min offset (2 ^ 64 - 1)) content.bytes.length = content.bytes.length := by
      omega
    rw [hstart, List.drop_length, List.drop_eq_nil_of_le (by omega), List.take_nil, List.take_nil]

/-! ## The stream -/

section Stream

variable {κ : Type} {s s' : DeliveryStream κ}

/-- A poll hands out the next slice, or ends the stream and gives the callback away. -/
theorem pollNext_cases {p : Polled κ} (h : s.pollNext = .ok (s', p)) :
    (s.data.length ≤ s.pos ∧ p = .ended s.onComplete ∧ s' = { s with onComplete := none }) ∨
      ∃ end_ bytes, s.pos < s.data.length ∧ end_ ≤ s.data.length ∧
        bytes = (s.data.drop s.pos).take (end_ - s.pos) ∧ s.pos ≤ end_ ∧ p = .slice bytes ∧
        s' = { s with pos := end_ } := by
  unfold DeliveryStream.pollNext at h
  split at h
  · rename_i hend
    cases h
    exact Or.inl ⟨hend, rfl, rfl⟩
  · rename_i hend
    rcases bind_eq_ok.1 h with ⟨reach, hreach, h⟩
    rcases bind_eq_ok.1 h with ⟨bytes, hslice, h⟩
    rw [addU_eq_ok] at hreach
    rw [slice_eq_ok] at hslice
    cases h
    exact Or.inr ⟨_, bytes, by omega, hslice.1.2, hslice.2.symm, hslice.1.1, rfl, rfl⟩

theorem take_append_slice (l : List UInt8) {a b : Nat} (h : a ≤ b) :
    l.take a ++ (l.drop a).take (b - a) = l.take b := by
  have hb : b = a + (b - a) := by omega
  conv_rhs => rw [hb, List.take_add]

end Stream

/-! ## Reading the history -/

/-- The slices that the body has handed out. -/
def slicesOf (id : Nat) (history : List Event) : List (List UInt8) :=
  history.filterMap fun
    | .yielded i bytes => if i = id then some bytes else none
    | _ => none

@[simp] theorem slicesOf_append (id : Nat) (as bs : List Event) :
    slicesOf id (as ++ bs) = slicesOf id as ++ slicesOf id bs := by
  simp [slicesOf]

/-- The entry of the ledger for a delivery. -/
def Delivery.served (d : Delivery) : ServedChunk :=
  { workId := toAsciiLowercase d.workId
    consumer := normalizeAddr d.consumer
    bytes := d.data.length }

def Delivery.key (d : Delivery) : String × String × Nat :=
  (normalizeAddr d.consumer, toAsciiLowercase d.workId, d.chunkIndex)

def Delivery.completion (d : Delivery) : Completion :=
  ⟨normalizeAddr d.consumer, toAsciiLowercase d.workId, d.chunkIndex, d.served⟩

/-! ## The invariant -/

/-- How far the delivery `d` has come, by the history and by the body. -/
inductive Progress (history : List Event) (id : Nat) (d : Delivery) :
    Option (DeliveryStream Completion) → Prop where
  | flowing (s : DeliveryStream Completion) (hdata : s.data = d.data)
      (hslices : (slicesOf id history).flatten = d.data.take s.pos)
      (hcallback : s.onComplete = some d.completion)
      (hnone : history.count (.completed id) = 0) (hopen : .dropped id ∉ history) :
      Progress history id d (some s)
  | ended (s : DeliveryStream Completion) (hdata : s.data = d.data)
      (hpos : d.data.length ≤ s.pos) (hslices : (slicesOf id history).flatten = d.data)
      (hcallback : s.onComplete = none) (honce : history.count (.completed id) = 1) :
      Progress history id d (some s)
  | gone (hslices : (slicesOf id history).flatten <+: d.data)
      (honce : history.count (.completed id) ≤ 1) : Progress history id d none

/-- A body completes after its last byte, and not once dropped; a receipt repeats a completed
delivery. -/
def Lawful (node : Node) (deliveries : List Delivery) (before : List Event) : Event → Prop
  | .completed id => ∃ d, deliveries[id]? = some d ∧
      (slicesOf id before).flatten = d.data ∧ .dropped id ∉ before
  | .issued r => ∃ id d, deliveries[id]? = some d ∧ .completed id ∈ before ∧
      r = { workId := toAsciiLowercase d.workId
            consumer := normalizeAddr d.consumer
            node := normalizeAddr (Address.display node.hex node.address)
            chunkIndex := d.chunkIndex
            bytes := d.data.length
            epoch := node.epoch }
  | _ => True

/-- The body `id` does not occur in the history. -/
structure Unborn (history : List Event) (id : Nat) : Prop where
  slices : slicesOf id history = []
  completed : history.count (.completed id) = 0
  dropped : .dropped id ∉ history

structure NodeInv (node : Node) (w : NodeWorld) : Prop where
  lengths : w.streams.length = w.deliveries.length
  progress : ∀ id d s, w.deliveries[id]? = some d → w.streams[id]? = some s →
    Progress w.history id d s
  unborn : ∀ id, w.deliveries.length ≤ id → Unborn w.history id
  content : ∀ d ∈ w.deliveries, fragmentForChunk node.files d.workId d.chunkIndex = .ok d.data
  ledger : ∀ key served, w.ledger[key]? = some served → ∃ id d,
    w.deliveries[id]? = some d ∧ .completed id ∈ w.history ∧ key = d.key ∧ served = d.served
  ordered : Ordered (Lawful node w.deliveries) w.history

/-! ## Events about one body -/

section Frame

variable {history : List Event} {id : Nat}

/-- The event is about another body, or about none. -/
def Event.Spares (id : Nat) : Event → Prop
  | .yielded i _ => i ≠ id
  | .completed i => i ≠ id
  | .dropped i => i ≠ id
  | .issued _ => True

theorem slicesOf_singleton_of_spares {e : Event} (h : e.Spares id) : slicesOf id [e] = [] := by
  cases e with
  | yielded i bytes =>
      have hne : i ≠ id := h
      simp [slicesOf, hne]
  | completed i => rfl
  | dropped i => rfl
  | issued r => rfl

theorem count_append_of_spares {e : Event} (h : e.Spares id) :
    (history ++ [e]).count (.completed id) = history.count (.completed id) := by
  have hne : e ≠ .completed id := by
    rintro rfl
    exact h rfl
  simp [List.count_append, hne]

theorem dropped_mem_append_of_spares {e : Event} (h : e.Spares id) :
    .dropped id ∈ history ++ [e] ↔ .dropped id ∈ history := by
  have hne : .dropped id ≠ e := by
    rintro rfl
    exact h rfl
  simp [hne]

theorem Progress.frame {d : Delivery} {s : Option (DeliveryStream Completion)} {e : Event}
    (h : Progress history id d s) (he : e.Spares id) : Progress (history ++ [e]) id d s := by
  have hslices : slicesOf id (history ++ [e]) = slicesOf id history := by
    rw [slicesOf_append, slicesOf_singleton_of_spares he, List.append_nil]
  cases h with
  | flowing s hdata hold hcallback hnone hopen =>
      exact .flowing s hdata (hslices ▸ hold) hcallback (by rwa [count_append_of_spares he])
        (by rwa [dropped_mem_append_of_spares he])
  | ended s hdata hpos hold hcallback honce =>
      exact .ended s hdata hpos (hslices ▸ hold) hcallback (by rwa [count_append_of_spares he])
  | gone hold honce =>
      exact .gone (hslices ▸ hold) (by rwa [count_append_of_spares he])

theorem Unborn.frame {e : Event} (h : Unborn history id) (he : e.Spares id) :
    Unborn (history ++ [e]) id := by
  refine ⟨?_, ?_, ?_⟩
  · rw [slicesOf_append, slicesOf_singleton_of_spares he, h.slices]
    rfl
  · rw [count_append_of_spares he]
    exact h.completed
  · rw [dropped_mem_append_of_spares he]
    exact h.dropped

end Frame

/-! ## One request -/

section Step

variable {node : Node} {w : NodeWorld}

theorem Lawful.mono {ds ds' : List Delivery} (hds : ds <+: ds') {before : List Event} {e : Event}
    (h : Lawful node ds before e) : Lawful node ds' before e := by
  have hget : ∀ {id : Nat} {d : Delivery}, ds[id]? = some d → ds'[id]? = some d := by
    intro id d hd
    rcases hds with ⟨rest, rfl⟩
    rw [List.getElem?_append_left (List.getElem?_eq_some_iff.1 hd).1]
    exact hd
  cases e with
  | completed id =>
      rcases h with ⟨d, hd, hrest⟩
      exact ⟨d, hget hd, hrest⟩
  | issued r =>
      rcases h with ⟨id, d, hd, hrest⟩
      exact ⟨id, d, hget hd, hrest⟩
  | yielded id bytes => trivial
  | dropped id => trivial

theorem nodeInv_init (node : Node) : NodeInv node NodeWorld.init := by
  refine ⟨rfl, ?_, ?_, ?_, ?_, Ordered.nil⟩
  · intro id d s hd
    simp [NodeWorld.init] at hd
  · intro id _
    exact ⟨rfl, rfl, by simp [NodeWorld.init]⟩
  · intro d hd
    simp [NodeWorld.init] at hd
  · intro key served hget
    simp [NodeWorld.init] at hget

/-- A new body has handed out nothing. -/
theorem nodeInv_content (h : NodeInv node w) (workId consumer : String) (chunkIndex : Nat) :
    NodeInv node (w.content node workId consumer chunkIndex).1 := by
  unfold NodeWorld.content
  split
  · exact h
  · exact h
  rename_i bytes hfragment
  dsimp only
  have hprefix : w.deliveries <+: w.deliveries ++ [⟨consumer, workId, chunkIndex, bytes⟩] :=
    List.prefix_append _ _
  refine ⟨?_, ?_, ?_, ?_, ?_, h.ordered.mono fun _ _ => Lawful.mono hprefix⟩
  · simp [h.lengths]
  · intro id d s hd hs
    dsimp only at hd hs ⊢
    by_cases hold : id < w.deliveries.length
    · rw [List.getElem?_append_left hold] at hd
      rw [List.getElem?_append_left (by rw [h.lengths]; exact hold)] at hs
      exact h.progress id d s hd hs
    · -- The new body has the next id, which occurs nowhere yet.
      have hid : id = w.deliveries.length := by
        have hlt := (List.getElem?_eq_some_iff.1 hd).1
        simp at hlt
        omega
      subst hid
      have hs' : s = some (DeliveryStream.new bytes NodeWorld.pieceSize
          ⟨normalizeAddr consumer, toAsciiLowercase workId, chunkIndex,
            toAsciiLowercase workId, normalizeAddr consumer, bytes.length⟩) := by
        simpa [h.lengths, eq_comm] using hs
      have hd' : d = ⟨consumer, workId, chunkIndex, bytes⟩ := by
        simpa [eq_comm] using hd
      subst hs' hd'
      have hnew := h.unborn w.deliveries.length le_rfl
      exact .flowing _ rfl (by simp [hnew.slices, DeliveryStream.new]) rfl hnew.completed
        hnew.dropped
  · intro id hid
    simp at hid
    exact h.unborn id (by omega)
  · intro d hd
    rcases List.mem_append.1 hd with hd | hd
    · exact h.content d hd
    · rw [List.mem_singleton.1 hd]
      exact hfragment
  · intro key served hget
    rcases h.ledger key served hget with ⟨id, d, hd, hrest⟩
    refine ⟨id, d, ?_, hrest⟩
    dsimp only
    rw [List.getElem?_append_left (List.getElem?_eq_some_iff.1 hd).1]
    exact hd

/-- A lawful event about the body `id`, which goes on as `s'`. -/
theorem NodeInv.event (h : NodeInv node w) {id : Nat} {d : Delivery}
    {s s' : Option (DeliveryStream Completion)} {e : Event} {ledger : Ledger}
    (hd : w.deliveries[id]? = some d) (hs : w.streams[id]? = some s)
    (hspares : ∀ i, i ≠ id → e.Spares i) (hprogress : Progress (w.history ++ [e]) id d s')
    (hlawful : Lawful node w.deliveries w.history e)
    (hledger : ∀ key served, ledger[key]? = some served → w.ledger[key]? = some served ∨
      e = .completed id ∧ key = d.key ∧ served = d.served) :
    NodeInv node { w with
      ledger := ledger
      streams := w.streams.set id s'
      history := w.history ++ [e] } := by
  have hlt : id < w.deliveries.length := (List.getElem?_eq_some_iff.1 hd).1
  refine ⟨?_, ?_, ?_, h.content, ?_, h.ordered.append_singleton hlawful⟩
  · simp [h.lengths]
  · intro i d' t hd' ht
    dsimp only at hd' ht ⊢
    -- The event is about the body `id`; every other body is framed.
    by_cases hi : i = id
    · subst hi
      rw [List.getElem?_set_self (by rw [h.lengths]; exact hlt)] at ht
      rw [hd] at hd'
      rw [← Option.some.inj hd', ← Option.some.inj ht]
      exact hprogress
    · rw [List.getElem?_set_ne (Ne.symm hi)] at ht
      exact (h.progress i d' t hd' ht).frame (hspares i hi)
  · intro i hi
    have hne : i ≠ id := by
      rintro rfl
      exact absurd hlt (Nat.not_lt.2 hi)
    exact (h.unborn i hi).frame (hspares i hne)
  · intro key served hget
    rcases hledger key served hget with hold | ⟨rfl, hkey, hserved⟩
    · rcases h.ledger key served hold with ⟨i, d', hd', hdone, hrest⟩
      exact ⟨i, d', hd', List.mem_append_left _ hdone, hrest⟩
    · exact ⟨id, d, hd, by simp, hkey, hserved⟩

/-- A body that is dropped. -/
theorem NodeInv.dropped (h : NodeInv node w) {id : Nat} {s : DeliveryStream Completion}
    (hs : w.streams[id]? = some (some s)) :
    NodeInv node { w with
      streams := w.streams.set id none
      history := w.history ++ [.dropped id] } := by
  have hlt : id < w.deliveries.length := h.lengths ▸ (List.getElem?_eq_some_iff.1 hs).1
  have hd : w.deliveries[id]? = some w.deliveries[id] := List.getElem?_eq_getElem hlt
  refine h.event hd hs (fun i hi => Ne.symm hi) ?_ trivial fun _ _ hget => Or.inl hget
  have hslices : slicesOf id (w.history ++ [.dropped id]) = slicesOf id w.history := by
    simp [slicesOf]
  have hcount : (w.history ++ [Event.dropped id]).count (Event.completed id) =
      w.history.count (.completed id) := by
    simp [List.count_append]
  cases h.progress id _ _ hd hs with
  | flowing _ hdata hold hcallback hnone hopen =>
      refine .gone ?_ (by omega)
      rw [hslices, hold]
      exact List.take_prefix _ _
  | ended _ hdata hpos hold hcallback honce =>
      refine .gone ?_ (by omega)
      rw [hslices, hold]

theorem nodeInv_drop (h : NodeInv node w) (id : Nat) : NodeInv node (w.drop id) := by
  unfold NodeWorld.drop
  split
  · rename_i s hs
    exact h.dropped hs
  · exact h

/-- A body that is not at its end hands out the next slice. -/
theorem NodeInv.slice (h : NodeInv node w) {id : Nat} {s : DeliveryStream Completion} {end_ : Nat}
    (hs : w.streams[id]? = some (some s)) (hpos : s.pos < s.data.length) (hle : s.pos ≤ end_) :
    NodeInv node { w with
      streams := w.streams.set id (some { s with pos := end_ })
      history := w.history ++ [.yielded id ((s.data.drop s.pos).take (end_ - s.pos))] } := by
  have hlt : id < w.deliveries.length := h.lengths ▸ (List.getElem?_eq_some_iff.1 hs).1
  have hd : w.deliveries[id]? = some w.deliveries[id] := List.getElem?_eq_getElem hlt
  -- The ledger is as it was; only the history and this body move.
  refine h.event hd hs (fun i hi => Ne.symm hi) ?_ trivial fun _ _ hget => Or.inl hget
  cases h.progress id _ _ hd hs with
  | flowing _ hdata hold hcallback hnone hopen =>
      refine .flowing _ hdata ?_ hcallback ?_ ?_
      · -- What was handed out grows from `take pos` to `take end_`.
        have hone : ∀ bytes, slicesOf id [.yielded id bytes] = [bytes] := by
          simp [slicesOf]
        rw [slicesOf_append, hone, List.flatten_append, hold, hdata]
        simpa using take_append_slice w.deliveries[id].data hle
      · simpa [List.count_append] using hnone
      · simpa using hopen
  | ended _ hdata hpos' hold hcallback honce =>
      rw [hdata] at hpos
      exact absurd hpos (Nat.not_lt.2 hpos')

/-- A body whose callback was given away stays as it is. -/
theorem set_without_callback {streams : List (Option (DeliveryStream Completion))} {id : Nat}
    {s : DeliveryStream Completion} (hs : streams[id]? = some (some s))
    (hnone : s.onComplete = none) :
    streams.set id (some { s with onComplete := none }) = streams := by
  have hself : ({ s with onComplete := none } : DeliveryStream Completion) = s := by
    rw [← hnone]
  rcases List.getElem?_eq_some_iff.1 hs with ⟨hbound, hget⟩
  rw [hself, ← hget, List.set_getElem_self]

/-- A body reaches its end for the first time, and its callback runs. -/
theorem NodeInv.completed (h : NodeInv node w) {id : Nat} {s : DeliveryStream Completion}
    {c : Completion} (hs : w.streams[id]? = some (some s)) (hpos : s.data.length ≤ s.pos)
    (hsome : s.onComplete = some c) :
    NodeInv node { w with
      ledger := w.ledger.record c.consumer c.workId c.chunkIndex c.served
      streams := w.streams.set id (some { s with onComplete := none })
      history := w.history ++ [.completed id] } := by
  have hlt : id < w.deliveries.length := h.lengths ▸ (List.getElem?_eq_some_iff.1 hs).1
  have hd : w.deliveries[id]? = some w.deliveries[id] := List.getElem?_eq_getElem hlt
  cases h.progress id _ _ hd hs with
  | flowing _ hdata hold hcallback hnone hopen =>
      have hc : c = w.deliveries[id].completion := by
        rw [hsome] at hcallback
        exact Option.some.inj hcallback
      -- At the end of the data nothing is missing, so the completion is lawful.
      have hall : (slicesOf id w.history).flatten = w.deliveries[id].data := by
        rw [hold, List.take_of_length_le (hdata ▸ hpos)]
      refine h.event hd hs (fun i hi => Ne.symm hi) ?_ ⟨_, hd, hall, hopen⟩ ?_
      · refine .ended _ hdata (hdata ▸ hpos) ?_ rfl ?_
        · simpa [slicesOf] using hall
        · simp [List.count_append, hnone]
      · -- The callback writes one entry: that of this delivery, or the entry was there.
        intro key served hget
        rw [Ledger.record, Std.ExtTreeMap.getElem?_insert, hc] at hget
        split at hget
        · rename_i hkey
          refine Or.inr ⟨rfl, ?_, (Option.some.inj hget).symm⟩
          rw [Std.compare_eq_iff_eq] at hkey
          rw [← hkey]
          simp [Delivery.key, Delivery.completion]
        · exact Or.inl hget
  | ended _ hdata hpos' hold hcallback honce =>
      rw [hsome] at hcallback
      cases hcallback

theorem nodeInv_poll (h : NodeInv node w) (id : Nat) : NodeInv node (w.poll id) := by
  unfold NodeWorld.poll
  split
  swap
  · exact h
  rename_i s hs
  split
  · -- A slice: the body was not at its end.
    rename_i s' bytes hpoll
    rcases pollNext_cases hpoll with ⟨-, hp, -⟩ | ⟨end_, bytes', hpos, hend, rfl, hle, hp, rfl⟩
    · cases hp
    cases hp
    exact h.slice hs hpos hle
  · -- The end once more: nothing is left to run.
    rename_i s' hpoll
    rcases pollNext_cases hpoll with ⟨-, hp, rfl⟩ | ⟨end_, bytes', -, -, -, -, hp, -⟩
    swap
    · cases hp
    injection hp with hnone
    rw [set_without_callback hs hnone.symm]
    exact h
  · -- The end for the first time: the callback runs.
    rename_i s' c hpoll
    rcases pollNext_cases hpoll with ⟨hpos, hp, rfl⟩ | ⟨end_, bytes', -, -, -, -, hp, -⟩
    swap
    · cases hp
    injection hp with hsome
    exact h.completed hs hpos hsome.symm
  · exact h.dropped hs

/-- A receipt is issued from the ledger. -/
theorem nodeInv_receipt (h : NodeInv node w) (workId : String) (chunkIndex : Nat)
    (consumer : String) : NodeInv node (w.receipt node workId chunkIndex consumer).1 := by
  unfold NodeWorld.receipt
  split
  · exact h
  · exact h
  rename_i r hissue
  split
  · exact h
  split
  · exact h
  dsimp only
  unfold issueReceipt at hissue
  rcases bind_eq_ok.1 hissue with ⟨served, hget, hr⟩
  rw [okOr_eq_ok] at hget
  -- What the ledger holds was delivered: the invariant names the delivery.
  rcases h.ledger _ _ hget with ⟨id, d, hd, hdone, hkey, hserved⟩
  have hr' := (Except.ok.inj hr).symm
  have hlawful : Lawful node w.deliveries w.history (.issued r) := by
    refine ⟨id, d, hd, hdone, ?_⟩
    rw [hr', hserved]
    have hindex : chunkIndex = d.chunkIndex := congrArg (fun k => k.2.2) hkey
    simp [Delivery.served, hindex]
  refine ⟨h.lengths, ?_, ?_, h.content, ?_, h.ordered.append_singleton hlawful⟩
  · intro i d' t hd' ht
    exact (h.progress i d' t hd' ht).frame trivial
  · intro i hi
    exact (h.unborn i hi).frame trivial
  · intro key served' hget'
    rcases h.ledger key served' hget' with ⟨i, d', hd', hdone', hrest⟩
    exact ⟨i, d', hd', List.mem_append_left _ hdone', hrest⟩

theorem nodeInv_next (h : NodeInv node w) (request : Request) :
    NodeInv node (node.next w request) := by
  cases request with
  | content workId consumer chunkIndex => exact nodeInv_content h workId consumer chunkIndex
  | poll id => exact nodeInv_poll h id
  | drop id => exact nodeInv_drop h id
  | receipt workId chunkIndex consumer => exact nodeInv_receipt h workId chunkIndex consumer

end Step

/-- The invariant holds after every interleaving. -/
theorem nodeInv_run (node : Node) (requests : List Request) : NodeInv node (node.run requests) := by
  unfold Node.run
  induction requests using List.reverseRecOn with
  | nil => exact nodeInv_init node
  | append_singleton requests request ih =>
      rw [List.foldl_append, List.foldl_cons, List.foldl_nil]
      exact nodeInv_next ih request

end Storage
end CleanWeb
