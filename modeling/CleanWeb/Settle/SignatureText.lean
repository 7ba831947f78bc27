import CleanWeb.Settle.DecodeHex

/-!
# The texts of a signature (`Receipt::recover_signer` of `libs/receipt`)

A signature reaches the receipt library as text.  A signature without a byte below sixteen has one
text up to letter case and prefix; any other has a second one, with a plus sign in place of a zero.
No verdict depends on the text that was chosen.
-/

namespace CleanWeb
namespace Settle

open Lib Lib.Exec

attribute [local instance] lexOrd

inductive ReceiptError where
  | canonical (e : String)
  | badSignature
  | recover (e : String)
  | signerMismatch (field : String)
  | json (e : String)
  deriving DecidableEq, Repr

/-- The canonical JSON of a receipt and the signature library.  `σ` is a parsed signature. -/
structure Signatures (σ : Type) where
  canonicalBytes : Receipt → Except String (List UInt8)
  tryFrom : List UInt8 → Option σ
  recoverAddressFromMsg : σ → List UInt8 → Except String Address

variable {σ : Type}

/-- A failure of a library becomes the receipt library's own error. -/
def mapLibErr {α : Type} (g : String → ReceiptError) : Except String α → Exec ReceiptError α
  | .ok a => .ok a
  | .error e => fail (g e)

/-- `recover_signer` once the text is decoded. -/
def recoverBytes (lib : Signatures σ) (r : Receipt) (bytes : List UInt8) :
    Exec ReceiptError Address := do
  let sig ← okOr (lib.tryFrom bytes) .badSignature
  let msg ← mapLibErr .canonical (lib.canonicalBytes r)
  mapLibErr .recover (lib.recoverAddressFromMsg sig msg)

def recoverSigner (lib : Signatures σ) (r : Receipt) (sigHex : String) :
    Exec ReceiptError Address := do
  let raw := Bytes32.stripHexPrefix sigHex
  let bytes ← mapErr (fun _ => .badSignature) (decodeHex raw)
  recoverBytes lib r bytes

theorem recoverSigner_of_decodeHex {lib : Signatures σ} {r : Receipt} {t : String}
    {bytes : List UInt8} (h : decodeHex (Bytes32.stripHexPrefix t) = .ok bytes) :
    recoverSigner lib r t = recoverBytes lib r bytes := by
  unfold recoverSigner
  dsimp only
  rw [h]
  rfl

/-! ## One text or several -/

/-- `t` is a text of the signature `bytes` over `r`, and it is accepted. -/
def AcceptedText (lib : Signatures σ) (r : Receipt) (bytes : List UInt8) (t : String) : Prop :=
  decodeHex (Bytes32.stripHexPrefix t) = .ok bytes ∧ ∃ a, recoverSigner lib r t = .ok a

/-- The same text up to letter case and the optional prefix. -/
def SameText (t t' : String) : Prop :=
  toAsciiLowercase (Bytes32.stripHexPrefix t) = toAsciiLowercase (Bytes32.stripHexPrefix t')

/-- Exactly one text is accepted, up to letter case and the optional prefix. -/
def OneText (lib : Signatures σ) (r : Receipt) (bytes : List UInt8) : Prop :=
  ∃ t₀, ∀ t, AcceptedText lib r bytes t ↔ SameText t t₀

/-- The encoding of some bytes, with a plus sign for every leading zero. -/
def plusChars : List UInt8 → List Char
  | [] => []
  | b :: bs =>
      (if b.toNat < 16 then '+' else Hex.digit (b.toNat / 16)) :: Hex.digit (b.toNat % 16) ::
        plusChars bs

theorem decodeSigned_plusChars (bs : List UInt8) : decodeSigned (plusChars bs) = some bs := by
  induction bs with
  | nil =>
      rfl
  | cons b bs ih =>
      have hb : b.toNat < 256 := b.toNat_lt
      have hhi : signedValue (if b.toNat < 16 then '+' else Hex.digit (b.toNat / 16)) =
          some (b.toNat / 16) := by
        split
        · rename_i hsmall
          rw [Nat.div_eq_of_lt hsmall]
          rfl
        · have hval := Hex.value_digit (b.toNat / 16) (by omega)
          have hne : Hex.digit (b.toNat / 16) ≠ '+' := by
            intro heq
            rw [heq, value_plus] at hval
            cases hval
          rw [signedValue_eq hne, hval]
      refine decodeSigned_pair_iff.2 ⟨_, _, bs, hhi, Hex.value_digit _ (by omega), ih, ?_⟩
      rw [Nat.div_add_mod, UInt8.ofNat_toNat]

theorem plus_mem_plusChars {bs : List UInt8} {b : UInt8} (hb : b ∈ bs) (hsmall : b.toNat < 16) :
    '+' ∈ plusChars bs := by
  induction bs with
  | nil =>
      cases hb
  | cons x bs ih =>
      rcases List.mem_cons.1 hb with rfl | hb
      · rw [plusChars, if_pos hsmall]
        exact List.mem_cons_self
      · exact List.mem_cons_of_mem _ (List.mem_cons_of_mem _ (ih hb))

/-- A plus sign leaves a byte below sixteen. -/
theorem exists_small_of_plus {cs : List Char} {bs : List UInt8} (h : decodeSigned cs = some bs)
    (hplus : '+' ∈ cs) : ∃ b ∈ bs, b.toNat < 16 := by
  induction cs using decodeSigned.induct generalizing bs with
  | case1 =>
      cases hplus
  | case2 c =>
      cases h
  | case3 hi lo rest ih =>
      rcases decodeSigned_pair_iff.1 h with ⟨x, l, bs', hx, hl, hrest, rfl⟩
      -- The sign can only stand first in its window, where it counts as zero.
      rcases List.mem_cons.1 hplus with rfl | hplus
      · have hx0 : x = 0 := (Option.some.inj hx).symm
        have hl16 : l < 16 := Hex.value_lt hl
        refine ⟨_, List.mem_cons_self, ?_⟩
        rw [hx0, UInt8.toNat_ofNat']
        omega
      rcases List.mem_cons.1 hplus with rfl | hplus
      · rw [value_plus] at hl
        cases hl
      · rcases ih hrest hplus with ⟨b, hb, hsmall⟩
        exact ⟨b, List.mem_cons_of_mem _ hb, hsmall⟩

theorem acceptedText_iff {lib : Signatures σ} {r : Receipt} {bytes : List UInt8}
    (h : ∃ a, recoverBytes lib r bytes = .ok a) {t : String} :
    AcceptedText lib r bytes t ↔
      decodeSigned (Bytes32.stripHexPrefix t).toList = some bytes := by
  rw [AcceptedText, decodeHex_eq_ok]
  constructor
  · exact And.left
  · intro ht
    rw [recoverSigner_of_decodeHex (decodeHex_eq_ok.2 ht)]
    exact ⟨ht, h⟩

/-- The texts in the class of the lowercase encoding are the hexadecimal ones. -/
theorem sameText_encode_iff {t : String} {bytes : List UInt8} :
    SameText t ("0x" ++ Hex.codec.encode bytes) ↔
      Hex.decodeChars (Bytes32.stripHexPrefix t).toList = some bytes := by
  have hself : toAsciiLowercase (Hex.codec.encode bytes) = Hex.codec.encode bytes := by
    refine (encode_eq_iff.2 ?_).symm
    exact Hex.codec.decode_encode bytes
  rw [SameText, Bytes32.stripHexPrefix_prefixed, hself, eq_comm, encode_eq_iff]

theorem oneText_iff {lib : Signatures σ} {r : Receipt} {bytes : List UInt8}
    (h : ∃ a, recoverBytes lib r bytes = .ok a) :
    OneText lib r bytes ↔ ∀ b ∈ bytes, 16 ≤ b.toNat := by
  constructor
  · rintro ⟨t₀, hone⟩ b hb
    by_contra hsmall
    -- Both texts are accepted, so they would be the same text.
    have hplain : AcceptedText lib r bytes ("0x" ++ Hex.codec.encode bytes) := by
      rw [acceptedText_iff h, Bytes32.stripHexPrefix_prefixed]
      exact (decodeChars_iff.1 (Hex.codec.decode_encode bytes)).1
    have hother : AcceptedText lib r bytes ("0x" ++ String.ofList (plusChars bytes)) := by
      rw [acceptedText_iff h, Bytes32.stripHexPrefix_prefixed, String.toList_ofList]
      exact decodeSigned_plusChars bytes
    have hsame : SameText ("0x" ++ String.ofList (plusChars bytes))
        ("0x" ++ Hex.codec.encode bytes) :=
      ((hone _).1 hother).trans ((hone _).1 hplain).symm
    have hhex := sameText_encode_iff.1 hsame
    rw [Bytes32.stripHexPrefix_prefixed, String.toList_ofList] at hhex
    exact (decodeChars_iff.1 hhex).2 (plus_mem_plusChars hb (Nat.not_le.1 hsmall))
  · intro hlarge
    refine ⟨"0x" ++ Hex.codec.encode bytes, fun t => ?_⟩
    rw [acceptedText_iff h, sameText_encode_iff, decodeChars_iff]
    -- A plus sign in an accepted text would leave a byte below sixteen.
    refine ⟨fun ht => ⟨ht, fun hplus => ?_⟩, And.left⟩
    rcases exists_small_of_plus ht hplus with ⟨b, hb, hsmall⟩
    exact absurd (hlarge b hb) (Nat.not_le.2 hsmall)

/-! ## What is accepted -/

/-- Of this text, decoding accepts what is hexadecimal and returns the bytes it encodes. -/
structure ExactHex (s : String) : Prop where
  noPanic : decodeHex s ≠ .error .panic
  accepts : (∃ bs, decodeHex s = .ok bs) ↔ HexText s
  encodes : ∀ bs, decodeHex s = .ok bs → Hex.codec.encode bs = toAsciiLowercase s

/-- Decoding is exact but on the windows that the integer parser reads with a plus sign, and a
signature has exactly one text when no byte of it can be written that way. -/
theorem signature_text_exact (s : String) (lib : Signatures σ) (r : Receipt)
    (bytes : List UInt8) :
    (ExactHex s ↔ ¬ (SignedWindows s.toList ∧ '+' ∈ s.toList)) ∧
      ((∃ a, recoverBytes lib r bytes = .ok a) →
        (OneText lib r bytes ↔ ∀ b ∈ bytes, 16 ≤ b.toNat)) := by
  refine ⟨⟨?_, ?_⟩, oneText_iff⟩
  · rintro hexact ⟨hwindows, hplus⟩
    rcases exists_decodeSigned_iff.2 hwindows with ⟨bs, hbs⟩
    have htext := hexact.accepts.1 ⟨bs, decodeHex_eq_ok.2 hbs⟩
    rcases hexText_iff.1 htext with ⟨bs', hhex⟩
    exact not_mem_of_decodeChars hhex hplus
  · intro hnot
    -- What is accepted has no plus sign, so it is hexadecimal.
    have hagree : ∀ bs, decodeHex s = .ok bs ↔ Hex.decodeChars s.toList = some bs := by
      intro bs
      rw [decodeHex_eq_ok, decodeChars_iff]
      refine ⟨fun h => ⟨h, fun hplus => ?_⟩, And.left⟩
      exact hnot ⟨exists_decodeSigned_iff.1 ⟨bs, h⟩, hplus⟩
    refine ⟨decodeHex_ne_panic s, ?_, ?_⟩
    · rw [hexText_iff]
      exact exists_congr hagree
    · intro bs h
      exact encode_eq_iff.2 ((hagree bs).1 h)

/-- A signature library that accepts 65 bytes and recovers the address one. -/
def sampleLib : Signatures (List UInt8) where
  canonicalBytes r := .ok (Lib.Utf8.asBytes r.workId)
  tryFrom bytes := if bytes.length = 65 then some bytes else none
  recoverAddressFromMsg _ _ := .ok 1

def signedReceipt : Receipt := ⟨"0xaa", "0x01", "0x02", 3, 5, 7⟩

/-- With 27 in every byte there is one text; with a last byte of 1 there are two. -/
theorem signature_text_exact_sample :
    ExactHex "aF" ∧ OneText sampleLib signedReceipt (List.replicate 65 27) ∧
      ¬ OneText sampleLib signedReceipt (List.replicate 64 27 ++ [1]) := by
  have hlarge := signature_text_exact "aF" sampleLib signedReceipt (List.replicate 65 27)
  have hsmall := signature_text_exact "aF" sampleLib signedReceipt (List.replicate 64 27 ++ [1])
  refine ⟨hlarge.1.2 (by decide), (hlarge.2 ⟨1, rfl⟩).2 ?_, ?_⟩
  · intro b hb
    rw [List.eq_of_mem_replicate hb]
    decide
  · intro hone
    have hlast : 1 ∈ List.replicate 64 27 ++ [(1 : UInt8)] :=
      List.mem_append_right _ (List.mem_singleton_self 1)
    exact absurd ((hsmall.2 ⟨1, rfl⟩).1 hone 1 hlast) (by decide)

/-- `+f` decodes to the byte 15, and it is not hexadecimal. -/
theorem decodeHex_plus :
    decodeHex "+f" = .ok [15] ∧ ¬ HexText "+f" ∧ ¬ ExactHex "+f" := by
  have hdecode : decodeHex "+f" = .ok [15] := decodeHex_eq_ok.2 (by decide)
  have hhex : ¬ HexText "+f" := by
    intro h
    exact absurd (h.2 '+' (by decide)) (by decide)
  exact ⟨hdecode, hhex, fun hexact => hhex (hexact.accepts.1 ⟨_, hdecode⟩)⟩

/-! ## The text does not matter -/

/-- Recovery as the rest of the library sees it. -/
def signerOf (lib : Signatures σ) : RecoverSigner :=
  fun r t => (recoverSigner lib r t).toOption

/-- The same receipt, with signatures that decode alike. -/
structure Respelled (s s' : SignedReceipt) : Prop where
  receipt : s'.receipt = s.receipt
  nodeSig : decodeHex (Bytes32.stripHexPrefix s'.nodeSig) =
    decodeHex (Bytes32.stripHexPrefix s.nodeSig)
  consumerSig : decodeHex (Bytes32.stripHexPrefix s'.consumerSig) =
    decodeHex (Bytes32.stripHexPrefix s.consumerSig)

theorem signerOf_congr (lib : Signatures σ) (r : Receipt) {t t' : String}
    (h : decodeHex (Bytes32.stripHexPrefix t') = decodeHex (Bytes32.stripHexPrefix t)) :
    signerOf lib r t' = signerOf lib r t := by
  simp only [signerOf, recoverSigner, h]

variable {hex : HexCodec} {lib : Signatures σ} {epoch : Nat} {credentialed : String → Bool}

theorem Respelled.verify_eq {s s' : SignedReceipt} (h : Respelled s s') :
    s'.verify hex (signerOf lib) = s.verify hex (signerOf lib) := by
  simp only [SignedReceipt.verify, h.receipt, signerOf_congr lib _ h.nodeSig,
    signerOf_congr lib _ h.consumerSig]

theorem Respelled.acceptStep_eq {s s' : SignedReceipt} (h : Respelled s s') (st : AcceptPass) :
    acceptStep hex (signerOf lib) epoch credentialed st s' =
      acceptStep hex (signerOf lib) epoch credentialed st s := by
  unfold acceptStep
  rw [h.verify_eq, h.receipt]

/-- Writing the signatures of a bundle another way changes none of the bytes it proves. -/
theorem acceptReceipts_respelled {bundle bundle' : ReceiptBundle}
    (h : List.Forall₂ Respelled bundle.receipts bundle'.receipts) :
    acceptReceipts hex (signerOf lib) bundle' epoch credentialed =
      acceptReceipts hex (signerOf lib) bundle epoch credentialed := by
  have hfold : ∀ {l l' : List SignedReceipt}, List.Forall₂ Respelled l l' → ∀ st : AcceptPass,
      l'.foldl (acceptStep hex (signerOf lib) epoch credentialed) st =
        l.foldl (acceptStep hex (signerOf lib) epoch credentialed) st := by
    intro l l' hl
    induction hl with
    | nil =>
        intro st
        rfl
    | cons hs _ ih =>
        intro st
        rw [List.foldl_cons, List.foldl_cons, hs.acceptStep_eq, ih]
  unfold acceptReceipts
  rw [hfold h]

end Settle
end CleanWeb
