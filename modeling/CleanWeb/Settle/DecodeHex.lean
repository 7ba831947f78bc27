import CleanWeb.Lib.Utf8
import CleanWeb.Settle.Receipts
import CleanWeb.Wallet.HexCase

/-!
# Decoding a signature's text (`decode_hex` of `libs/receipt`)

The text is cut into windows of two bytes and each window is handed to the integer parser of the
standard library.  That parser reads a leading plus sign as well as two digits, so a byte below
sixteen is accepted in a form that is not hexadecimal.
-/

namespace CleanWeb
namespace Settle

open Lib Lib.Exec Lib.Utf8

/-- One more digit; `None` at a character that is no digit, or past eight bits. -/
def digitStep (acc : Nat) (digit : Char) : Option Nat := do
  let x ← Hex.value digit
  let scaled ← checkedMul 8 acc 16
  checkedAdd 8 scaled x

def digitsToByte (digits : List Char) : Option UInt8 :=
  (digits.foldlM digitStep 0).map UInt8.ofNat

/-- `u8::from_str_radix(_, 16)`, which looks at bytes.  A plus sign may lead the digits; a minus
sign is a digit to an unsigned type, and no valid one. -/
def fromStrRadix (src : String) : Option UInt8 :=
  match charsOf (asBytes src) with
  | [] => none
  -- A sign on its own is no number.
  | ['+'] | ['-'] => none
  | '+' :: digits => digitsToByte digits
  | digits => digitsToByte digits

/-- The byte at the window that starts at `i`. -/
def window (bytes : List UInt8) (i : Nat) : Exec Unit UInt8 := do
  let pair ← slice bytes i (i + 2)
  okOr ((fromUtf8 pair).bind fromStrRadix) ()

/-- `decode_hex`; its `None` is the only error. -/
def decodeHex (s : String) : Exec Unit (List UInt8) :=
  let bytes := asBytes s
  if bytes.length % 2 ≠ 0 then fail ()
  else (List.range' 0 ((bytes.length + 1) / 2) 2).mapM (window bytes)

/-! ## The grammar that is accepted -/

/-- The first character of a window: a digit, or a plus sign that counts as nothing. -/
def signedValue (c : Char) : Option Nat :=
  if c = '+' then some 0 else Hex.value c

/-- `Hex.decodeChars` with the plus sign in first place. -/
def decodeSigned : List Char → Option (List UInt8)
  | [] => some []
  | [_] => none
  | hi :: lo :: rest => do
      let h ← signedValue hi
      let l ← Hex.value lo
      let bs ← decodeSigned rest
      pure (UInt8.ofNat (16 * h + l) :: bs)

/-- Windows of a digit or a plus sign, and a digit. -/
def SignedWindows : List Char → Prop
  | [] => True
  | [_] => False
  | hi :: lo :: rest => (hi = '+' ∨ hi.isHexDigit) ∧ lo.isHexDigit ∧ SignedWindows rest

instance decidableSignedWindows : (cs : List Char) → Decidable (SignedWindows cs)
  | [] => isTrue trivial
  | [_] => isFalse id
  | _ :: _ :: rest =>
      have : Decidable (SignedWindows rest) := decidableSignedWindows rest
      inferInstanceAs (Decidable (_ ∧ _ ∧ _))

theorem value_plus : Hex.value '+' = none := by
  decide

theorem toNat_lt_of_value {c : Char} {n : Nat} (h : Hex.value c = some n) : c.toNat < 128 := by
  have hdigit := Hex.value_eq_some_iff.1 h
  omega

theorem isHexDigit_iff {c : Char} : c.isHexDigit = true ↔ ∃ n, Hex.value c = some n := by
  have hchar : c.isHexDigit = true ↔ (48 ≤ c.toNat ∧ c.toNat ≤ 57) ∨
      (97 ≤ c.toNat ∧ c.toNat ≤ 102) ∨ (65 ≤ c.toNat ∧ c.toNat ≤ 70) := by
    simp only [Char.isHexDigit, Char.isDigit, Bool.or_eq_true, Bool.and_eq_true, decide_eq_true_iff,
      or_assoc]
    exact Iff.rfl
  rw [hchar]
  constructor
  · rintro (h | h | h)
    · exact ⟨_, Hex.value_eq_some_iff.2 (.inl ⟨h.1, h.2, rfl⟩)⟩
    · exact ⟨_, Hex.value_eq_some_iff.2 (.inr (.inl ⟨h.1, h.2, rfl⟩))⟩
    · exact ⟨_, Hex.value_eq_some_iff.2 (.inr (.inr ⟨h.1, h.2, rfl⟩))⟩
  · rintro ⟨n, h⟩
    rcases Hex.value_eq_some_iff.1 h with h | h | h
    · exact .inl ⟨h.1, h.2.1⟩
    · exact .inr (.inl ⟨h.1, h.2.1⟩)
    · exact .inr (.inr ⟨h.1, h.2.1⟩)

theorem decodeSigned_pair_iff {hi lo : Char} {rest : List Char} {bs : List UInt8} :
    decodeSigned (hi :: lo :: rest) = some bs ↔
      ∃ h l bs', signedValue hi = some h ∧ Hex.value lo = some l ∧
        decodeSigned rest = some bs' ∧ bs = UInt8.ofNat (16 * h + l) :: bs' := by
  simp only [decodeSigned, Option.bind_eq_bind, Option.bind_eq_some_iff]
  constructor
  · rintro ⟨h, hh, l, hl, bs', hbs', hdone⟩
    exact ⟨h, l, bs', hh, hl, hbs', (Option.some.inj hdone).symm⟩
  · rintro ⟨h, l, bs', hh, hl, hbs', rfl⟩
    exact ⟨h, hh, l, hl, bs', hbs', rfl⟩

theorem exists_signedValue_iff {c : Char} :
    (∃ h, signedValue c = some h) ↔ c = '+' ∨ c.isHexDigit = true := by
  unfold signedValue
  split
  · rename_i hplus
    exact ⟨fun _ => .inl hplus, fun _ => ⟨0, rfl⟩⟩
  · rename_i hplus
    rw [isHexDigit_iff]
    exact ⟨.inr, fun h => h.resolve_left hplus⟩

theorem exists_decodeSigned_iff {cs : List Char} :
    (∃ bs, decodeSigned cs = some bs) ↔ SignedWindows cs := by
  induction cs using decodeSigned.induct with
  | case1 =>
      exact ⟨fun _ => trivial, fun _ => ⟨[], rfl⟩⟩
  | case2 c =>
      refine ⟨?_, False.elim⟩
      rintro ⟨bs, h⟩
      cases h
  | case3 hi lo rest ih =>
      rw [SignedWindows, ← exists_signedValue_iff, isHexDigit_iff, ← ih]
      constructor
      · rintro ⟨bs, h⟩
        rcases decodeSigned_pair_iff.1 h with ⟨h, l, bs', hh, hl, hrest, -⟩
        exact ⟨⟨h, hh⟩, ⟨l, hl⟩, ⟨bs', hrest⟩⟩
      · rintro ⟨⟨h, hh⟩, ⟨l, hl⟩, ⟨bs', hrest⟩⟩
        exact ⟨_, decodeSigned_pair_iff.2 ⟨h, l, bs', hh, hl, hrest, rfl⟩⟩

theorem decodeSigned_eq_none_of_odd {cs : List Char} (h : cs.length % 2 ≠ 0) :
    decodeSigned cs = none := by
  induction cs using decodeSigned.induct with
  | case1 =>
      exact absurd rfl h
  | case2 c =>
      rfl
  | case3 hi lo rest ih =>
      have hrest : rest.length % 2 ≠ 0 := by
        simpa [Nat.add_assoc] using h
      simp [decodeSigned, ih hrest]

/-- Whatever is accepted is ASCII. -/
theorem ascii_of_decodeSigned {cs : List Char} {bs : List UInt8} (h : decodeSigned cs = some bs) :
    Ascii cs := by
  induction cs using decodeSigned.induct generalizing bs with
  | case1 =>
      intro c hc
      cases hc
  | case2 c =>
      cases h
  | case3 hi lo rest ih =>
      rcases decodeSigned_pair_iff.1 h with ⟨x, l, bs', hx, hl, hrest, -⟩
      have hhi : hi.toNat < 128 := by
        unfold signedValue at hx
        split at hx
        · rename_i hplus
          rw [hplus]
          decide
        · exact toNat_lt_of_value hx
      intro c hc
      rcases List.mem_cons.1 hc with rfl | hc
      · exact hhi
      rcases List.mem_cons.1 hc with rfl | hc
      · exact toNat_lt_of_value hl
      · exact ih hrest c hc

/-! ## One window -/

theorem digitStep_zero (c : Char) : digitStep 0 c = Hex.value c := by
  unfold digitStep
  cases hc : Hex.value c with
  | none => rfl
  | some x =>
      have hx : x < 16 := Hex.value_lt hc
      have hadd : checkedAdd 8 0 x = some (0 + x) := if_pos (by omega)
      have hmul : checkedMul 8 0 16 = some 0 := rfl
      simp [hmul, hadd]

theorem digitStep_digit {h : Nat} (hh : h < 16) (c : Char) :
    digitStep h c = (Hex.value c).map fun l => 16 * h + l := by
  unfold digitStep
  cases hc : Hex.value c with
  | none => rfl
  | some l =>
      have hl : l < 16 := Hex.value_lt hc
      have hmul : checkedMul 8 h 16 = some (h * 16) := if_pos (by omega)
      have hadd : checkedAdd 8 (h * 16) l = some (h * 16 + l) := if_pos (by omega)
      simp [hmul, hadd, Nat.mul_comm]

/-- A window is read as the two characters of its grammar. -/
theorem fromStrRadix_pair {src : String} {hi lo : Char} (h : charsOf (asBytes src) = [hi, lo]) :
    fromStrRadix src = (signedValue hi).bind fun x =>
      (Hex.value lo).map fun l => UInt8.ofNat (16 * x + l) := by
  have hpair : ∀ x < 16, (digitStep x lo).map UInt8.ofNat =
      (Hex.value lo).map fun l => UInt8.ofNat (16 * x + l) := by
    intro x hx
    rw [digitStep_digit hx, Option.map_map]
    rfl
  unfold fromStrRadix
  rw [h]
  -- After a plus sign one digit is left; without it both characters are digits.
  by_cases hplus : hi = '+'
  · subst hplus
    have hone : digitsToByte [lo] = (digitStep 0 lo).map UInt8.ofNat := by
      cases hstep : digitStep 0 lo with
      | none => simp [digitsToByte, hstep]
      | some n => simp [digitsToByte, hstep]
    exact hone.trans (hpair 0 (by decide))
  · have htwo : digitsToByte [hi, lo] =
        (digitStep 0 hi).bind fun x => (digitStep x lo).map UInt8.ofNat := by
      cases hstep : digitStep 0 hi with
      | none => simp [digitsToByte, hstep]
      | some x =>
          cases hnext : digitStep x lo with
          | none => simp [digitsToByte, hstep, hnext]
          | some n => simp [digitsToByte, hstep, hnext]
    have hval : signedValue hi = Hex.value hi := if_neg hplus
    rw [hval]
    split
    · rename_i heq
      cases heq
    · rename_i heq
      cases heq
    · rename_i heq
      cases heq
    · rename_i heq
      exact absurd (List.cons.inj heq).1 hplus
    · rw [htwo, digitStep_zero]
      cases hx : Hex.value hi with
      | none => rfl
      | some x => exact hpair x (Hex.value_lt hx)

theorem window_zero (a c : UInt8) (rest : List UInt8) :
    window (a :: c :: rest) 0 = okOr ((signedValue (Char.ofUInt8 a)).bind fun x =>
      (Hex.value (Char.ofUInt8 c)).map fun l => UInt8.ofNat (16 * x + l)) () := by
  have hslice : (slice (a :: c :: rest) 0 (0 + 2) : Exec Unit (List UInt8)) = .ok [a, c] := by
    simp
  rw [window, hslice, ok_bind]
  congr 1
  cases hpair : fromUtf8 [a, c] with
  | some pair =>
      apply fromStrRadix_pair
      rw [fromUtf8_eq_some_iff.1 hpair]
      rfl
  | none =>
      -- Two characters of the grammar are ASCII, so their bytes are a text.
      cases hsigned : decodeSigned [Char.ofUInt8 a, Char.ofUInt8 c] with
      | some bs =>
          have hascii := ascii_of_decodeSigned hsigned
          have hbytes : ∀ b ∈ [a, c], b.toNat < 128 := by
            intro b hb
            exact hascii _ (List.mem_map_of_mem (f := Char.ofUInt8) hb)
          have hsome := fromUtf8_eq_some_iff.2 (asBytes_ofList_charsOf hbytes)
          rw [hpair] at hsome
          cases hsome
      | none =>
          cases hx : signedValue (Char.ofUInt8 a) with
          | none => rfl
          | some x =>
              cases hl : Hex.value (Char.ofUInt8 c) with
              | none => rfl
              | some l => simp [decodeSigned, hx, hl] at hsigned

theorem window_add_two (a c : UInt8) (rest : List UInt8) (i : Nat) :
    window (a :: c :: rest) (2 + i) = window rest i := by
  have hshift : (slice (a :: c :: rest) (2 + i) (2 + i + 2) : Exec Unit (List UInt8)) =
      slice rest i (i + 2) := by
    simp [slice, Nat.add_comm 2 i]
  rw [window, window, hshift]

/-! ## The whole text -/

theorem mapM_windows {bytes : List UInt8} {n : Nat} (h : bytes.length = 2 * n) :
    (List.range' 0 n 2).mapM (window bytes) = okOr (decodeSigned (charsOf bytes)) () := by
  induction n generalizing bytes with
  | zero =>
      have hnil : bytes = [] := List.eq_nil_of_length_eq_zero h
      rw [hnil]
      rfl
  | succ n ih =>
      rcases bytes with _ | ⟨a, _ | ⟨c, rest⟩⟩
      · cases h
      · simp at h
        omega
      · have hrest : rest.length = 2 * n := by
          simpa [Nat.mul_succ] using h
        -- The later windows are the windows of what follows the first pair.
        have hlater : (List.range' (0 + 2) n 2).mapM (window (a :: c :: rest)) =
            okOr (decodeSigned (charsOf rest)) () := by
          rw [Nat.zero_add, ← Nat.add_zero 2, ← List.map_add_range', List.mapM_map, ← ih hrest]
          exact mapM_congr fun i _ => window_add_two a c rest i
        -- The first window reads the first pair, as the grammar does.
        rw [List.range'_succ, List.mapM_cons, window_zero, hlater]
        simp only [charsOf, List.map_cons, decodeSigned]
        cases signedValue (Char.ofUInt8 a) with
        | none => rfl
        | some x =>
            cases Hex.value (Char.ofUInt8 c) with
            | none => rfl
            | some l => cases decodeSigned (rest.map Char.ofUInt8) <;> rfl

/-- Outside ASCII nothing is accepted, so it does not matter that the code looks at bytes. -/
theorem decodeSigned_charsOf_asBytes (s : String) :
    decodeSigned (charsOf (asBytes s)) = decodeSigned s.toList := by
  by_cases hascii : Ascii s.toList
  · rw [charsOf_asBytes hascii]
  · have hbytes : decodeSigned (charsOf (asBytes s)) = none := by
      refine Option.eq_none_iff_forall_ne_some.2 fun bs h => ?_
      apply hascii
      apply ascii_of_asBytes
      intro b hb
      exact ascii_of_decodeSigned h _ (List.mem_map_of_mem hb)
    have hchars : decodeSigned s.toList = none :=
      Option.eq_none_iff_forall_ne_some.2 fun bs h => hascii (ascii_of_decodeSigned h)
    rw [hbytes, hchars]

/-- `decode_hex` reads its grammar, window by window, and never panics. -/
theorem decodeHex_eq (s : String) : decodeHex s = okOr (decodeSigned s.toList) () := by
  rw [← decodeSigned_charsOf_asBytes]
  unfold decodeHex
  dsimp only
  split
  · rename_i hodd
    have hlength : (charsOf (asBytes s)).length % 2 ≠ 0 := by
      rwa [charsOf, List.length_map]
    rw [decodeSigned_eq_none_of_odd hlength]
    rfl
  · rename_i heven
    apply mapM_windows
    omega

theorem decodeHex_eq_ok {s : String} {bs : List UInt8} :
    decodeHex s = .ok bs ↔ decodeSigned s.toList = some bs := by
  rw [decodeHex_eq, okOr_eq_ok]

theorem decodeHex_ne_panic (s : String) : decodeHex s ≠ .error .panic := by
  rw [decodeHex_eq]
  cases decodeSigned s.toList with
  | none => exact nofun
  | some bs => exact nofun

/-! ## Without the plus sign -/

theorem signedValue_eq {c : Char} (h : c ≠ '+') : signedValue c = Hex.value c :=
  if_neg h

theorem decodeSigned_eq {cs : List Char} (h : '+' ∉ cs) : decodeSigned cs = Hex.decodeChars cs := by
  induction cs using decodeSigned.induct with
  | case1 =>
      rfl
  | case2 c =>
      rfl
  | case3 hi lo rest ih =>
      have hhi : hi ≠ '+' := fun heq => h (by simp [heq])
      have hrest : '+' ∉ rest := fun hmem => h (by simp [hmem])
      rw [decodeSigned, Hex.decodeChars, signedValue_eq hhi, ih hrest]

theorem isHexDigit_of_decodeChars {cs : List Char} {bs : List UInt8}
    (h : Hex.decodeChars cs = some bs) : ∀ c ∈ cs, c.isHexDigit = true := by
  induction cs using Hex.decodeChars.induct generalizing bs with
  | case1 =>
      intro c hc
      cases hc
  | case2 c =>
      cases h
  | case3 hi lo rest ih =>
      rcases Hex.decodeChars_pair_iff.1 h with ⟨x, l, bs', hx, hl, hrest, -⟩
      intro c hc
      rcases List.mem_cons.1 hc with rfl | hc
      · exact isHexDigit_iff.2 ⟨x, hx⟩
      rcases List.mem_cons.1 hc with rfl | hc
      · exact isHexDigit_iff.2 ⟨l, hl⟩
      · exact ih hrest c hc

theorem not_mem_of_decodeChars {cs : List Char} {bs : List UInt8}
    (h : Hex.decodeChars cs = some bs) : '+' ∉ cs := by
  intro hplus
  exact absurd (isHexDigit_of_decodeChars h '+' hplus) (by decide)

theorem decodeChars_iff {cs : List Char} {bs : List UInt8} :
    Hex.decodeChars cs = some bs ↔ decodeSigned cs = some bs ∧ '+' ∉ cs := by
  constructor
  · intro h
    have hplus := not_mem_of_decodeChars h
    exact ⟨(decodeSigned_eq hplus).trans h, hplus⟩
  · rintro ⟨h, hplus⟩
    exact (decodeSigned_eq hplus).symm.trans h

/-- Whole bytes of hexadecimal digits, in either case. -/
def HexText (s : String) : Prop :=
  s.utf8ByteSize % 2 = 0 ∧ ∀ c ∈ s.toList, c.isHexDigit = true

theorem exists_decodeChars {cs : List Char} (hlength : cs.length % 2 = 0)
    (hdigits : ∀ c ∈ cs, c.isHexDigit = true) : ∃ bs, Hex.decodeChars cs = some bs := by
  induction cs using Hex.decodeChars.induct with
  | case1 =>
      exact ⟨[], rfl⟩
  | case2 c =>
      cases hlength
  | case3 hi lo rest ih =>
      have hrest : rest.length % 2 = 0 := by
        simpa [Nat.add_assoc] using hlength
      rcases isHexDigit_iff.1 (hdigits hi (by simp)) with ⟨h, hh⟩
      rcases isHexDigit_iff.1 (hdigits lo (by simp)) with ⟨l, hl⟩
      rcases ih hrest fun c hc => hdigits c (by simp [hc]) with ⟨bs, hbs⟩
      exact ⟨_, Hex.decodeChars_pair_iff.2 ⟨h, l, bs, hh, hl, hbs, rfl⟩⟩

theorem hexText_iff {s : String} : HexText s ↔ ∃ bs, Hex.decodeChars s.toList = some bs := by
  have hsize : ∀ {bs}, Hex.decodeChars s.toList = some bs → s.utf8ByteSize = s.toList.length := by
    intro bs h
    simpa using Hex.utf8ByteSize_of_decodeChars h
  constructor
  · rintro ⟨heven, hdigits⟩
    refine exists_decodeChars ?_ hdigits
    have hascii : Ascii s.toList := by
      intro c hc
      rcases isHexDigit_iff.1 (hdigits c hc) with ⟨n, hn⟩
      exact toNat_lt_of_value hn
    rw [← length_asBytes] at heven
    rw [← charsOf_asBytes hascii, charsOf, List.length_map]
    exact heven
  · rintro ⟨bs, h⟩
    refine ⟨?_, isHexDigit_of_decodeChars h⟩
    rw [hsize h, Hex.length_of_decodeChars h]
    exact Nat.mul_mod_right 2 _

/-- The printed address is lowercase. -/
theorem toAsciiLowercase_display (hex : HexCodec) (a : Address) :
    toAsciiLowercase (Address.display hex a) = Address.display hex a := by
  rw [toAsciiLowercase, Address.display, hex.address.display_lowercase, String.ofList_toList]

/-- The lowercase encoding of some bytes is a text's lowercase form when it decodes to them. -/
theorem encode_eq_iff {s : String} {bs : List UInt8} :
    Hex.codec.encode bs = toAsciiLowercase s ↔ Hex.decodeChars s.toList = some bs := by
  rw [← Hex.decodeChars_eq_iff (Hex.decodeChars_encodeChars bs), Hex.map_toLower_encodeChars]
  exact String.ofList_inj

end Settle
end CleanWeb
