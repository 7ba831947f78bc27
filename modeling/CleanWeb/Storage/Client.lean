import CleanWeb.Settle.DecodeHex
import CleanWeb.Storage.Credit

/-!
# The bandwidth client (`services/storage/src/bin/bandwidth_client.rs`)

The consumer's half of the receipts: fetch a block, have the node attest it, check what it attests,
counter-sign.  The loops run against any server.  Whatever it answers, the bundle is worth no more
than the bytes that came over the line.
-/

namespace CleanWeb
namespace Storage

open Lib Lib.Exec Settle

attribute [local instance] lexOrd

/-! ## Errors -/

inductive ClientError where
  | fetch
  | attest
  | recover
  | nodeSignature (chunkIndex : Nat)
  | epoch (chunkIndex attested epoch : Nat)
  | work (chunkIndex : Nat) (attested workId : String)
  | consumer (chunkIndex : Nat) (attested consumer : String)
  | chunk (attested chunkIndex : Nat)
  | bytes (chunkIndex attested delivered : Nat)
  | canonicalBytes (message : String)
  | sign (message : String)
  deriving DecidableEq, Repr

/-! ## The client -/

/-- What comes back for `POST /receipt`. -/
inductive Attestation where
  | notFound
  | failed
  | signed (receipt : Receipt) (nodeSig : String)

/-- Whatever answers the client; a body is absent where it does not arrive in full. -/
structure Server (σ : Type) where
  content : σ → String → String → Nat → Option (List UInt8) × σ
  receipt : σ → String → Nat → String → Attestation × σ

/-- The key of the consumer, and the code that checks and makes signatures. -/
structure Consumer where
  hex : HexCodec
  address : Address
  recoverSigner : RecoverSigner
  canonicalBytes : Receipt → Except String (List UInt8)
  signMessage : List UInt8 → Except String (List UInt8)

/-- What the client was configured with. -/
structure Errand where
  workId : String
  epoch : Nat

section

variable {σ : Type} (srv : Server σ) (c : Consumer) (errand : Errand)

def Consumer.name : String :=
  Address.display c.hex c.address

def requireThat (b : Bool) (e : ClientError) : Exec ClientError Unit :=
  if b then .ok () else fail e

/-- `map_err` on a call of the signing library. -/
def orFail {α : Type} (x : Except String α) (e : String → ClientError) : Exec ClientError α :=
  match x with
  | .ok a => .ok a
  | .error message => fail (e message)

/-- The checks of `co_sign_chunk`, in their order. -/
def checkReceipt (i : Nat) (expectedBytes : Option Nat) (r : Receipt) (nodeSig : String) :
    Exec ClientError Unit := do
  let recovered ← okOr (c.recoverSigner r nodeSig) .recover
  requireThat (Address.display c.hex recovered = toAsciiLowercase r.node) (.nodeSignature i)
  requireThat (r.epoch = errand.epoch) (.epoch i r.epoch errand.epoch)
  requireThat (r.workId = errand.workId) (.work i r.workId errand.workId)
  requireThat (toAsciiLowercase r.consumer = toAsciiLowercase c.name)
    (.consumer i r.consumer c.name)
  requireThat (r.chunkIndex = i) (.chunk r.chunkIndex i)
  match expectedBytes with
  | some want => requireThat (r.bytes = want) (.bytes i r.bytes want)
  | none => pure ()

/-- Have a block attested, check and counter-sign; absent where the node refuses. -/
def coSignChunk (i : Nat) (expectedBytes : Option Nat) (s : σ) :
    Exec ClientError (Option SignedReceipt) × σ :=
  match srv.receipt s errand.workId i c.name with
  | (.notFound, s) => (.ok none, s)
  | (.failed, s) => (fail .attest, s)
  | (.signed r nodeSig, s) =>
      (do
        checkReceipt c errand i expectedBytes r nodeSig
        let msg ← orFail (c.canonicalBytes r) .canonicalBytes
        let sig ← orFail (c.signMessage msg) .sign
        pure (some ⟨r, nodeSig, "0x" ++ c.hex.encode sig⟩), s)

/-- The number of bytes received, absent without a download. -/
def fetchChunk (downloads : Bool) (i : Nat) (s : σ) : Exec ClientError (Option Nat) × σ :=
  if downloads then
    match srv.content s errand.workId c.name i with
    | (none, s) => (fail .fetch, s)
    | (some body, s) => (.ok (some body.length), s)
  else (.ok none, s)

/-- The loop of every mode: over which blocks, whether they are downloaded, and whether an empty
body ends it. -/
def collect (downloads stops : Bool) : List Nat → σ → List SignedReceipt →
    Exec ClientError (List SignedReceipt) × σ
  | [], s, signed => (.ok signed, s)
  | i :: rest, s, signed =>
      match fetchChunk srv c errand downloads i s with
      | (.error t, s) => (.error t, s)
      | (.ok got, s) =>
          if stops ∧ got = some 0 then (.ok signed, s)
          else
            match coSignChunk srv c errand i got s with
            | (.error t, s) => (.error t, s)
            | (.ok sr, s) => collect downloads stops rest s (signed ++ sr.toList)

inductive Mode where
  | honest (chunks : Nat)
  | noDownload (chunks : Nat)
  | refetch (repeats : Nat)
  deriving DecidableEq, Repr

namespace Mode

/-- The blocks of the loop, in its order. -/
def blocks : Mode → List Nat
  | .honest chunks => List.range chunks
  | .noDownload chunks => List.range chunks
  | .refetch repeats => List.replicate repeats 0

def downloads : Mode → Bool
  | .noDownload _ => false
  | _ => true

def stops : Mode → Bool
  | .honest _ => true
  | _ => false

end Mode

/-- The bundle that is written; with an error nothing is. -/
def main (mode : Mode) (s : σ) : Exec ClientError ReceiptBundle × σ :=
  let out := collect srv c errand mode.downloads mode.stops mode.blocks s []
  (out.1.map fun signed => ⟨errand.epoch, signed⟩, out.2)

end

/-! ## One block -/

section

variable {σ : Type} {srv : Server σ} {c : Consumer} {errand : Errand}

/-- What the client has checked of a receipt. -/
structure Agreed (c : Consumer) (errand : Errand) (i : Nat) (expectedBytes : Option Nat)
    (r : Receipt) (nodeSig : String) : Prop where
  signer : ∃ a, c.recoverSigner r nodeSig = some a ∧
    Address.display c.hex a = toAsciiLowercase r.node
  epoch : r.epoch = errand.epoch
  work : r.workId = errand.workId
  consumer : toAsciiLowercase r.consumer = toAsciiLowercase c.name
  chunk : r.chunkIndex = i
  bytes : ∀ want, expectedBytes = some want → r.bytes = want

theorem requireThat_eq_ok {b : Bool} {e : ClientError} {u : Unit} :
    requireThat b e = .ok u ↔ b = true := by
  unfold requireThat
  cases b with
  | true => simp
  | false => simp [fail]

theorem orFail_eq_ok {α : Type} {x : Except String α} {e : String → ClientError} {a : α} :
    orFail x e = .ok a ↔ x = .ok a := by
  cases x with
  | ok b => simp [orFail]
  | error message => simp [orFail, fail]

theorem checkReceipt_eq_ok {i : Nat} {expectedBytes : Option Nat} {r : Receipt} {nodeSig : String}
    {u : Unit} : checkReceipt c errand i expectedBytes r nodeSig = .ok u ↔
      Agreed c errand i expectedBytes r nodeSig := by
  unfold checkReceipt
  simp only [bind_eq_ok, okOr_eq_ok, requireThat_eq_ok, decide_eq_true_eq, exists_const]
  constructor
  · rintro ⟨a, ha, hnode, hepoch, hwork, hconsumer, hchunk, hbytes⟩
    refine ⟨⟨a, ha, hnode⟩, hepoch, hwork, hconsumer, hchunk, ?_⟩
    rintro want rfl
    simpa [requireThat_eq_ok] using hbytes
  · rintro ⟨⟨a, ha, hnode⟩, hepoch, hwork, hconsumer, hchunk, hbytes⟩
    refine ⟨a, ha, hnode, hepoch, hwork, hconsumer, hchunk, ?_⟩
    cases expectedBytes with
    | none => rfl
    | some want => simpa [requireThat_eq_ok] using hbytes want rfl

/-- A receipt that the client has checked and signed. -/
structure CoSigned (c : Consumer) (errand : Errand) (i : Nat) (expectedBytes : Option Nat)
    (s : SignedReceipt) : Prop where
  agreed : Agreed c errand i expectedBytes s.receipt s.nodeSig
  own : ∃ msg sig, c.canonicalBytes s.receipt = .ok msg ∧ c.signMessage msg = .ok sig ∧
    s.consumerSig = "0x" ++ c.hex.encode sig

/-- What `co_sign_chunk` returns where it does not fail. -/
inductive Attests (srv : Server σ) (c : Consumer) (errand : Errand) (i : Nat)
    (expectedBytes : Option Nat) (s : σ) : Option SignedReceipt × σ → Prop where
  | refused (s' : σ) : srv.receipt s errand.workId i c.name = (.notFound, s') →
      Attests srv c errand i expectedBytes s (none, s')
  | signed (sr : SignedReceipt) (s' : σ) :
      srv.receipt s errand.workId i c.name = (.signed sr.receipt sr.nodeSig, s') →
      CoSigned c errand i expectedBytes sr → Attests srv c errand i expectedBytes s (some sr, s')

theorem coSignChunk_attests {i : Nat} {expectedBytes : Option Nat} {s s' : σ}
    {out : Option SignedReceipt} (h : coSignChunk srv c errand i expectedBytes s = (.ok out, s')) :
    Attests srv c errand i expectedBytes s (out, s') := by
  unfold coSignChunk at h
  split at h
  · rename_i t hanswer
    injection h with hout hstate
    cases hout
    subst hstate
    exact .refused _ hanswer
  · simp [fail] at h
  · rename_i r nodeSig t hanswer
    injection h with hout hstate
    subst hstate
    rcases bind_eq_ok.1 hout with ⟨_, hchecked, hout⟩
    rcases bind_eq_ok.1 hout with ⟨msg, hmsg, hout⟩
    rcases bind_eq_ok.1 hout with ⟨sig, hsig, hout⟩
    cases hout
    exact .signed _ _ hanswer ⟨checkReceipt_eq_ok.1 hchecked, msg, sig, orFail_eq_ok.1 hmsg,
      orFail_eq_ok.1 hsig, rfl⟩

/-! ## The loop -/

/-- How the loop over `is` ends, where `I` says what the passes before have left. -/
inductive Ends (srv : Server σ) (c : Consumer) (errand : Errand) (downloads stops : Bool)
    (I : List Nat → σ → List SignedReceipt → Prop) (is : List Nat) :
    Exec ClientError (List SignedReceipt) × σ → Prop where
  | finished (s : σ) (signed : List SignedReceipt) : I is s signed →
      Ends srv c errand downloads stops I is (.ok signed, s)
  | stopped (before rest : List Nat) (i : Nat) (s s' : σ) (signed : List SignedReceipt) :
      is = before ++ i :: rest → stops = true → I before s signed →
      fetchChunk srv c errand downloads i s = (.ok (some 0), s') →
      Ends srv c errand downloads stops I is (.ok signed, s')
  | unfetched (before rest : List Nat) (i : Nat) (s s' : σ) (signed : List SignedReceipt)
      (t : Trap ClientError) : is = before ++ i :: rest → I before s signed →
      fetchChunk srv c errand downloads i s = (.error t, s') →
      Ends srv c errand downloads stops I is (.error t, s')
  | unattested (before rest : List Nat) (i : Nat) (s s₁ s' : σ) (signed : List SignedReceipt)
      (got : Option Nat) (t : Trap ClientError) : is = before ++ i :: rest → I before s signed →
      fetchChunk srv c errand downloads i s = (.ok got, s₁) →
      coSignChunk srv c errand i got s₁ = (.error t, s') →
      Ends srv c errand downloads stops I is (.error t, s')

/-- What one pass of the loop keeps, the loop keeps to its end. -/
theorem collect_ends {downloads stops : Bool} {I : List Nat → σ → List SignedReceipt → Prop}
    (hstep : ∀ done i s signed got s₁ out s₂, I done s signed →
      fetchChunk srv c errand downloads i s = (.ok got, s₁) →
      Attests srv c errand i got s₁ (out, s₂) → I (done ++ [i]) s₂ (signed ++ out.toList))
    {is done whole : List Nat} {s : σ} {signed : List SignedReceipt} (hinit : I done s signed)
    (hwhole : whole = done ++ is) :
    Ends srv c errand downloads stops I whole
      (collect srv c errand downloads stops is s signed) := by
  induction is generalizing done s signed with
  | nil =>
      rw [hwhole, List.append_nil]
      exact .finished s signed hinit
  | cons i rest ih =>
      rw [collect]
      split
      · rename_i t s₁ hfetch
        exact .unfetched done rest i s s₁ signed t hwhole hinit hfetch
      · rename_i got s₁ hfetch
        split
        · -- An empty body: the loop ends here.
          rename_i hstop
          rw [hstop.2] at hfetch
          exact .stopped done rest i s s₁ signed hwhole hstop.1 hinit hfetch
        · split
          · rename_i t s₂ hsigned
            exact .unattested done rest i s s₁ s₂ signed got t hwhole hinit hfetch hsigned
          · rename_i out s₂ hsigned
            refine ih (hstep done i s signed got s₁ out s₂ hinit hfetch
              (coSignChunk_attests hsigned)) ?_
            rw [hwhole, List.append_assoc]
            rfl

/-! ## Any server -/

/-- The server on a line that counts the bytes of the bodies. -/
def metered (srv : Server σ) : Server (σ × Nat) where
  content := fun s workId consumer i =>
    let out := srv.content s.1 workId consumer i
    (out.1, out.2, s.2 + (out.1.getD []).length)
  receipt := fun s workId i consumer =>
    let out := srv.receipt s.1 workId i consumer
    (out.1, out.2, s.2)

theorem coSignChunk_metered (i : Nat) (got : Option Nat) (s : σ × Nat) :
    coSignChunk (metered srv) c errand i got s =
      ((coSignChunk srv c errand i got s.1).1, (coSignChunk srv c errand i got s.1).2, s.2) := by
  unfold coSignChunk
  simp only [metered]
  rcases srv.receipt s.1 errand.workId i c.name with ⟨a, t⟩
  cases a <;> rfl

theorem fetchChunk_fst (srv : Server σ) (c : Consumer) (errand : Errand) (downloads : Bool)
    (i : Nat) (s : σ × Nat) :
    (fetchChunk (metered srv) c errand downloads i s).1 =
        (fetchChunk srv c errand downloads i s.1).1 ∧
      (fetchChunk (metered srv) c errand downloads i s).2.1 =
        (fetchChunk srv c errand downloads i s.1).2 := by
  unfold fetchChunk
  cases downloads with
  | false => exact ⟨rfl, rfl⟩
  | true =>
      simp only [if_true, metered]
      rcases srv.content s.1 errand.workId c.name i with ⟨body, t⟩
      cases body <;> exact ⟨rfl, rfl⟩

/-- The meter changes nothing. -/
theorem collect_metered (srv : Server σ) (c : Consumer) (errand : Errand) (downloads stops : Bool)
    (is : List Nat) (s : σ × Nat) (signed : List SignedReceipt) :
    (collect (metered srv) c errand downloads stops is s signed).1 =
        (collect srv c errand downloads stops is s.1 signed).1 ∧
      (collect (metered srv) c errand downloads stops is s signed).2.1 =
        (collect srv c errand downloads stops is s.1 signed).2 := by
  induction is generalizing s signed with
  | nil => exact ⟨rfl, rfl⟩
  | cons i rest ih =>
      rw [collect, collect]
      have hfetch := fetchChunk_fst srv c errand downloads i s
      generalize fetchChunk (metered srv) c errand downloads i s = out at hfetch
      generalize fetchChunk srv c errand downloads i s.1 = out' at hfetch
      rcases out with ⟨got, t⟩
      rcases out' with ⟨got', t'⟩
      rcases hfetch with ⟨rfl, rfl⟩
      cases got with
      | error trap => exact ⟨rfl, rfl⟩
      | ok n =>
          dsimp only
          split
          · exact ⟨rfl, rfl⟩
          · rw [coSignChunk_metered]
            generalize coSignChunk srv c errand i n t.1 = out
            rcases out with ⟨signed', t'⟩
            cases signed' with
            | error trap => exact ⟨rfl, rfl⟩
            | ok sr => exact ih _ _

/-- The bytes of the bodies that the client received. -/
def downloaded (srv : Server σ) (c : Consumer) (errand : Errand) (mode : Mode) (s : σ) : Nat :=
  (main (metered srv) c errand mode (s, 0)).2.2

/-- The invariant of the loop on a metered line. -/
structure Paid (c : Consumer) (errand : Errand) (downloads : Bool) (done : List Nat) (s : σ × Nat)
    (signed : List SignedReceipt) : Prop where
  coSigned : ∀ sr ∈ signed, ∃ i ∈ done, ∃ got, CoSigned c errand i got sr
  bytes : downloads = true → (signed.map (·.receipt.bytes)).sum ≤ s.2

/-- What a fetch over the metered line costs. -/
theorem fetchChunk_metered {downloads : Bool} {i : Nat} {s s' : σ × Nat} {got : Option Nat}
    (h : fetchChunk (metered srv) c errand downloads i s = (.ok got, s')) :
    s.2 ≤ s'.2 ∧ (downloads = true → ∃ n, got = some n ∧ s'.2 = s.2 + n) := by
  unfold fetchChunk at h
  cases downloads with
  | false =>
      injection h with hout hstate
      subst hstate
      simp
  | true =>
      simp only [if_true, metered] at h
      split at h
      · simp [fail] at h
      · rename_i body t hanswer
        injection hanswer with hbody hstate
        injection h with hout hstate'
        cases hout
        subst hstate'
        rw [← hstate, hbody]
        simp

theorem paid_step {downloads : Bool} {done : List Nat} {i : Nat} {s s₁ s₂ : σ × Nat}
    {signed : List SignedReceipt} {got : Option Nat} {out : Option SignedReceipt}
    (h : Paid c errand downloads done s signed)
    (hfetch : fetchChunk (metered srv) c errand downloads i s = (.ok got, s₁))
    (hattests : Attests (metered srv) c errand i got s₁ (out, s₂)) :
    Paid c errand downloads (done ++ [i]) s₂ (signed ++ out.toList) := by
  rcases fetchChunk_metered hfetch with ⟨hle, hcost⟩
  have hold : ∀ sr ∈ signed, ∃ j ∈ done ++ [i], ∃ got, CoSigned c errand j got sr := by
    intro sr hsr
    rcases h.coSigned sr hsr with ⟨j, hj, hrest⟩
    exact ⟨j, List.mem_append_left _ hj, hrest⟩
  cases hattests with
  | refused _ hanswer =>
      injection hanswer with _ hstate
      refine ⟨by simpa using hold, ?_⟩
      intro hdown
      rw [← hstate]
      simpa using (h.bytes hdown).trans hle
  | signed sr _ hanswer hsigned =>
      injection hanswer with _ hstate
      refine ⟨?_, ?_⟩
      · intro sr' hsr'
        rcases List.mem_append.1 hsr' with hsr' | hsr'
        · exact hold sr' hsr'
        · have heq : sr' = sr := by simpa using hsr'
          subst heq
          exact ⟨i, by simp, got, hsigned⟩
      · -- The receipt is for exactly the bytes that were just paid for.
        intro hdown
        rcases hcost hdown with ⟨n, rfl, hmeter⟩
        have hbytes := hsigned.agreed.bytes n rfl
        have hsum := h.bytes hdown
        rw [← hstate]
        simp only [Option.toList_some, List.map_append, List.sum_append, List.map_cons,
          List.map_nil, List.sum_cons, List.sum_nil, Nat.add_zero]
        omega

theorem paid_of_main {mode : Mode} {s s' : σ} {bundle : ReceiptBundle}
    (h : main srv c errand mode s = (.ok bundle, s')) :
    bundle.epoch = errand.epoch ∧
      Paid c errand mode.downloads mode.blocks (s', downloaded srv c errand mode s)
        bundle.receipts := by
  have hinit : Paid c errand mode.downloads [] (s, 0) [] := by
    refine ⟨by simp, ?_⟩
    intro _
    exact Nat.zero_le _
  unfold main at h
  injection h with hresult hstate
  have hmeter := collect_metered srv c errand mode.downloads mode.stops mode.blocks
    (s, 0) []
  generalize hcollect : collect (metered srv) c errand mode.downloads mode.stops mode.blocks (s, 0)
    [] = out at hmeter
  rcases out with ⟨result, t⟩
  have hdown : downloaded srv c errand mode s = t.2 := by
    rw [downloaded, main, hcollect]
  rw [← hmeter.1] at hresult
  cases result with
  | error trap => cases hresult
  | ok signed =>
      cases hresult
      have hworld : (s', downloaded srv c errand mode s) = t := by
        rw [hdown, ← hstate, ← hmeter.2]
      rw [hworld]
      refine ⟨rfl, ?_⟩
      have hends : Ends (metered srv) c errand mode.downloads mode.stops
          (Paid c errand mode.downloads) mode.blocks (collect (metered srv) c errand mode.downloads
            mode.stops mode.blocks (s, 0) []) :=
        collect_ends (fun done i s signed got s₁ out s₂ hpaid hfetch hattests =>
          paid_step hpaid hfetch hattests) hinit rfl
      rw [hcollect] at hends
      cases hends with
      | finished _ _ hall => exact hall
      | stopped before rest i u _ _ hblocks _ hkept hlast =>
          rcases fetchChunk_metered hlast with ⟨hle, -⟩
          refine ⟨?_, fun hdown => (hkept.bytes hdown).trans hle⟩
          intro sr hsr
          rcases hkept.coSigned sr hsr with ⟨j, hj, hrest⟩
          refine ⟨j, ?_, hrest⟩
          rw [hblocks]
          exact List.mem_append_left _ hj

end

/-! ## What the bundle is worth -/

section

variable {recoverSigner : RecoverSigner} {epoch : Nat} {credentialed : String → Bool}
variable {receipts counted : List SignedReceipt}

theorem amountAt_credits_le (key : String × String) (counted : List SignedReceipt) :
    amountAt key (credits counted) ≤ (counted.map (·.receipt.bytes)).sum := by
  induction counted with
  | nil => simp [credits]
  | cons s counted ih =>
      have hcredit : s.receipt.credit ≤ s.receipt.bytes := Nat.min_le_left _ _
      simp only [credits, amountAt, List.map_cons, List.filter_cons] at ih ⊢
      split
      · simp only [List.map_cons, List.sum_cons]
        omega
      · simp only [List.sum_cons]
        omega

theorem sum_bytes_counted_le
    (h : Counted hex recoverSigner epoch credentialed receipts counted) :
    (counted.map (·.receipt.bytes)).sum ≤ (receipts.map (·.receipt.bytes)).sum := by
  have hnodup : counted.Nodup := List.Nodup.of_map _ h.once
  rcases hnodup.subperm fun s hs => (h.checked s hs).1 with ⟨picked, hperm, hsub⟩
  calc
    (counted.map (·.receipt.bytes)).sum = (picked.map (·.receipt.bytes)).sum :=
        ((hperm.map _).sum_eq).symm
    _ ≤ (receipts.map (·.receipt.bytes)).sum := (hsub.map _).sum_le_sum fun _ _ => Nat.zero_le _

/-- A content position counts for one block. -/
theorem amountAt_credits_le_blocks
    (h : Counted hex recoverSigner epoch credentialed receipts counted) {is : List Nat}
    (his : ∀ s ∈ receipts, s.receipt.chunkIndex ∈ is) (consumer work : String) :
    amountAt (consumer, work) (credits counted) ≤ is.dedup.length * chunkSize := by
  have hsub : blocksOf counted consumer work ⊆ is.dedup := by
    intro i hi
    rcases List.mem_map.1 hi with ⟨s, hs, rfl⟩
    exact List.mem_dedup.2 (his s (h.checked s (List.mem_filter.1 hs).1).1)
  have hlen : (blocksOf counted consumer work).length ≤ is.dedup.length :=
    ((nodup_blocksOf h).subperm hsub).length_le
  have hsum : amountAt (consumer, work) (credits counted) ≤
      (blocksOf counted consumer work).length * chunkSize := by
    simp only [amountAt, credits, blocksOf, List.filter_map, List.map_map, List.length_map,
      Function.comp_def]
    refine (List.sum_le_card_nsmul _ chunkSize ?_).trans (by simp)
    intro n hn
    rcases List.mem_map.1 hn with ⟨s, -, rfl⟩
    exact Nat.min_le_right _ _
  exact hsum.trans (Nat.mul_le_mul_right _ hlen)

end

/-! ## Any server -/

/-- What the consumer signs recovers to its address. -/
def SelfSigning (c : Consumer) : Prop :=
  ∀ r msg sig, c.canonicalBytes r = .ok msg → c.signMessage msg = .ok sig →
    c.recoverSigner r ("0x" ++ c.hex.encode sig) = some c.address

theorem CoSigned.verify {c : Consumer} (hown : SelfSigning c) {errand : Errand} {i : Nat}
    {got : Option Nat} {sr : SignedReceipt} (h : CoSigned c errand i got sr) :
    sr.verify c.hex c.recoverSigner = true := by
  rcases h.agreed.signer with ⟨a, ha, hnode⟩
  rcases h.own with ⟨msg, sig, hmsg, hsig, hconsumer⟩
  have hself := hown _ _ _ hmsg hsig
  have hname : Address.display c.hex c.address = normalizeAddr sr.receipt.consumer := by
    rw [normalizeAddr, h.agreed.consumer, Consumer.name, toAsciiLowercase_display]
  simp [SignedReceipt.verify, ha, hnode, hconsumer, hself, hname, normalizeAddr]

/-- What is credited from a bundle. -/
def bundleCredit (c : Consumer) (bundle : ReceiptBundle) (epoch : Nat)
    (credentialed : String → Bool)
    (key : String × String) : Nat :=
  (acceptReceipts c.hex c.recoverSigner bundle epoch credentialed).getD key 0

/-- Whatever the server answers: every receipt of the bundle passes the aggregator's signature check
and is for the errand, so that nothing is credited to anyone else, and the credit is at most a block
for each position asked for, and at most the bytes downloaded in the modes that download. -/
theorem bundle_paid_for {σ : Type} (srv : Server σ) {c : Consumer} (hown : SelfSigning c)
    (errand : Errand) (mode : Mode) {s s' : σ} {bundle : ReceiptBundle}
    (h : main srv c errand mode s = (.ok bundle, s')) :
    (∀ sr ∈ bundle.receipts, sr.verify c.hex c.recoverSigner = true ∧
      sr.receipt.epoch = errand.epoch ∧
      sr.receipt.pair = (c.name, toAsciiLowercase errand.workId) ∧
      sr.receipt.chunkIndex ∈ mode.blocks) ∧
    ∀ epoch credentialed,
      (∀ key, key ≠ (c.name, toAsciiLowercase errand.workId) →
        bundleCredit c bundle epoch credentialed key = 0) ∧
      bundleCredit c bundle epoch credentialed (c.name, toAsciiLowercase errand.workId) ≤
        mode.blocks.dedup.length * chunkSize ∧
      (mode.downloads = true →
        bundleCredit c bundle epoch credentialed (c.name, toAsciiLowercase errand.workId) ≤
          downloaded srv c errand mode s) := by
  rcases paid_of_main h with ⟨hepoch, hpaid⟩
  have hreceipts : ∀ sr ∈ bundle.receipts, sr.verify c.hex c.recoverSigner = true ∧
      sr.receipt.epoch = errand.epoch ∧
      sr.receipt.pair = (c.name, toAsciiLowercase errand.workId) ∧
      sr.receipt.chunkIndex ∈ mode.blocks := by
    intro sr hsr
    rcases hpaid.coSigned sr hsr with ⟨i, hi, got, hsigned⟩
    refine ⟨hsigned.verify hown, hsigned.agreed.epoch, ?_, hsigned.agreed.chunk ▸ hi⟩
    rw [Receipt.pair, normalizeAddr, hsigned.agreed.consumer, hsigned.agreed.work, Consumer.name,
      toAsciiLowercase_display]
  refine ⟨hreceipts, ?_⟩
  intro epoch credentialed
  rcases acceptReceipts_spec c.hex c.recoverSigner bundle epoch credentialed with
    ⟨counted, hcounted, htally⟩
  have hle := htally.le (c.name, toAsciiLowercase errand.workId)
  refine ⟨?_, ?_, ?_⟩
  · -- No receipt names another consumer or work.
    intro key hkey
    have hnone : (credits counted).filter (fun e => e.1 = key) = [] := by
      rw [List.filter_eq_nil_iff]
      intro e he heq
      rcases List.mem_map.1 he with ⟨sr, hsr, rfl⟩
      refine hkey ?_
      rw [← (hreceipts sr (hcounted.checked sr hsr).1).2.2.1]
      simpa [eq_comm] using heq
    have hzero := htally.le key
    rw [amountAt, hnone] at hzero
    exact Nat.le_zero.1 hzero
  · refine hle.trans (amountAt_credits_le_blocks hcounted ?_ _ _)
    intro sr hsr
    exact (hreceipts sr hsr).2.2.2
  · intro hdown
    calc
      bundleCredit c bundle epoch credentialed (c.name, toAsciiLowercase errand.workId)
          ≤ amountAt (c.name, toAsciiLowercase errand.workId) (credits counted) := hle
      _ ≤ (counted.map (·.receipt.bytes)).sum := amountAt_credits_le _ _
      _ ≤ (bundle.receipts.map (·.receipt.bytes)).sum := sum_bytes_counted_le hcounted
      _ ≤ downloaded srv c errand mode s := hpaid.bytes hdown

/-- A server with three bytes for whatever is asked. -/
def plainServer : Server Unit :=
  { content := fun _ _ _ _ => (some [1, 2, 3], ())
    receipt := fun _ workId i consumer =>
      (.signed ⟨workId, consumer, Address.display Hex.codec 2, i, 3, 3⟩ "0x02", ()) }

/-- The signatures of node 2 and of consumer 1. -/
def plainConsumer : Consumer :=
  { hex := Hex.codec
    address := 1
    recoverSigner := fun _ sig => if sig = "0x02" then some 2 else some 1
    canonicalBytes := fun _ => .ok []
    signMessage := fun _ => .ok [1] }

theorem selfSigning_plainConsumer : SelfSigning plainConsumer := by
  intro r msg sig _ hsig
  cases hsig
  have htext : "0x" ++ Hex.codec.encode [1] = "0x01" := by
    decide +kernel
  simp [plainConsumer, htext]

/-- The same block fetched twice counts once. -/
theorem bundle_paid_for_plain :
    ∃ bundle, (main plainServer plainConsumer ⟨"0xaa", 3⟩ (.refetch 2) ()).1 = .ok bundle ∧
      ∀ epoch credentialed, bundleCredit plainConsumer bundle epoch credentialed
        (plainConsumer.name, toAsciiLowercase "0xaa") ≤ chunkSize := by
  have hreturns : (main plainServer plainConsumer ⟨"0xaa", 3⟩ (.refetch 2) ()).1.toBool = true := by
    decide +kernel
  cases hmain : main plainServer plainConsumer ⟨"0xaa", 3⟩ (.refetch 2) () with
  | mk result s' =>
      rw [hmain] at hreturns
      cases result with
      | error t => cases hreturns
      | ok bundle =>
          refine ⟨bundle, rfl, ?_⟩
          intro epoch credentialed
          have hpaid := (bundle_paid_for plainServer selfSigning_plainConsumer ⟨"0xaa", 3⟩
            (.refetch 2) hmain).2 epoch credentialed
          exact hpaid.2.1.trans (by decide)

end Storage
end CleanWeb
