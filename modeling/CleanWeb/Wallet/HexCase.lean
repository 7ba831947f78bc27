import CleanWeb.Wallet.Hex

/-!
# Letter case in hexadecimal text

Decoding ignores the case of the letters and nothing else: two texts decode to the same bytes
exactly when they agree up to ASCII case.
-/

namespace CleanWeb
namespace Hex

/-- `str::eq_ignore_ascii_case`. -/
def eqIgnoreCase (s t : String) : Prop :=
  s.toList.map Char.toLower = t.toList.map Char.toLower

instance (s t : String) : Decidable (eqIgnoreCase s t) :=
  inferInstanceAs (Decidable (_ = _))

theorem toNat_toLower (c : Char) :
    c.toLower.toNat = if 65 ≤ c.toNat ∧ c.toNat ≤ 90 then c.toNat + 32 else c.toNat := by
  unfold Char.toLower
  by_cases hupper : c.val ≥ 'A'.val ∧ c.val ≤ 'Z'.val
  · have hrange : 65 ≤ c.toNat ∧ c.toNat ≤ 90 := hupper
    rw [dif_pos hupper, if_pos hrange]
    have hval : c.val.toNat ≤ 90 := hrange.2
    change (c.val + 32).toNat = c.val.toNat + 32
    rw [UInt32.toNat_add, Nat.mod_eq_of_lt (by change c.val.toNat + 32 < 2 ^ 32; omega)]
    rfl
  · have hrange : ¬ (65 ≤ c.toNat ∧ c.toNat ≤ 90) := hupper
    rw [dif_neg hupper, if_neg hrange]

/-- A digit, by its code point. -/
theorem value_eq_some_iff {c : Char} {n : Nat} :
    value c = some n ↔ (48 ≤ c.toNat ∧ c.toNat ≤ 57 ∧ n = c.toNat - 48) ∨
      (97 ≤ c.toNat ∧ c.toNat ≤ 102 ∧ n = c.toNat - 87) ∨
      (65 ≤ c.toNat ∧ c.toNat ≤ 70 ∧ n = c.toNat - 55) := by
  have hdigit : ('0' ≤ c ∧ c ≤ '9') ↔ (48 ≤ c.toNat ∧ c.toNat ≤ 57) := Iff.rfl
  have hlower : ('a' ≤ c ∧ c ≤ 'f') ↔ (97 ≤ c.toNat ∧ c.toNat ≤ 102) := Iff.rfl
  have hupper : ('A' ≤ c ∧ c ≤ 'F') ↔ (65 ≤ c.toNat ∧ c.toNat ≤ 70) := Iff.rfl
  unfold value
  simp only [hdigit, hlower, hupper]
  -- The three ranges are disjoint, so each branch leaves one of the three cases.
  split
  · rename_i h
    rw [Option.some.injEq]
    refine ⟨fun hn => .inl ⟨h.1, h.2, hn.symm⟩, ?_⟩
    rintro (⟨-, -, rfl⟩ | ⟨hlow, -, -⟩ | ⟨hlow, -, -⟩)
    · rfl
    · exact absurd h.2 (by omega)
    · exact absurd h.2 (by omega)
  split
  · rename_i hno h
    rw [Option.some.injEq]
    refine ⟨fun hn => .inr (.inl ⟨h.1, h.2, hn.symm⟩), ?_⟩
    rintro (⟨hlow, hhigh, -⟩ | ⟨-, -, rfl⟩ | ⟨-, hhigh, -⟩)
    · exact absurd ⟨hlow, hhigh⟩ hno
    · rfl
    · exact absurd h.1 (by omega)
  split
  · rename_i hno hno' h
    rw [Option.some.injEq]
    refine ⟨fun hn => .inr (.inr ⟨h.1, h.2, hn.symm⟩), ?_⟩
    rintro (⟨hlow, hhigh, -⟩ | ⟨hlow, hhigh, -⟩ | ⟨-, -, rfl⟩)
    · exact absurd ⟨hlow, hhigh⟩ hno
    · exact absurd ⟨hlow, hhigh⟩ hno'
    · rfl
  · rename_i hno hno' hno''
    refine ⟨nofun, ?_⟩
    rintro (⟨hlow, hhigh, -⟩ | ⟨hlow, hhigh, -⟩ | ⟨hlow, hhigh, -⟩)
    · exact absurd ⟨hlow, hhigh⟩ hno
    · exact absurd ⟨hlow, hhigh⟩ hno'
    · exact absurd ⟨hlow, hhigh⟩ hno''

theorem toNat_digit : ∀ n < 16, (digit n).toNat = if n < 10 then 48 + n else 87 + n := by
  decide

/-- The lowercase form of a digit is the one that is written. -/
theorem value_eq_some_iff_digit {c : Char} {n : Nat} :
    value c = some n ↔ n < 16 ∧ c.toLower = digit n := by
  rw [value_eq_some_iff]
  constructor
  · intro h
    have hn : n < 16 := by
      rcases h with h | h | h
      · omega
      · omega
      · omega
    refine ⟨hn, ?_⟩
    rw [← Char.toNat_inj, toNat_toLower, toNat_digit n hn]
    rcases h with ⟨hlow, hhigh, rfl⟩ | ⟨hlow, hhigh, rfl⟩ | ⟨hlow, hhigh, rfl⟩
    · rw [if_neg (by omega), if_pos (by omega)]
      omega
    · rw [if_neg (by omega), if_neg (by omega)]
      omega
    · rw [if_pos (by omega), if_neg (by omega)]
      omega
  · rintro ⟨hn, heq⟩
    rw [← Char.toNat_inj, toNat_toLower, toNat_digit n hn] at heq
    -- A decimal digit has no other case; a letter has two.
    split at heq
    · rename_i hupper
      split at heq
      · omega
      · exact .inr (.inr ⟨by omega, by omega, by omega⟩)
    · rename_i hupper
      split at heq
      · exact .inl ⟨by omega, by omega, by omega⟩
      · exact .inr (.inl ⟨by omega, by omega, by omega⟩)

theorem toLower_eq_iff {c d : Char} {n : Nat} (hc : value c = some n) :
    c.toLower = d.toLower ↔ value d = some n := by
  rcases value_eq_some_iff_digit.1 hc with ⟨hn, hdigit⟩
  rw [value_eq_some_iff_digit, hdigit]
  exact ⟨fun h => ⟨hn, h.symm⟩, fun h => h.2.symm⟩

theorem value_lt {c : Char} {n : Nat} (h : value c = some n) : n < 16 :=
  (value_eq_some_iff_digit.1 h).1

theorem decodeChars_pair_iff {hi lo : Char} {rest : List Char} {bs : List UInt8} :
    decodeChars (hi :: lo :: rest) = some bs ↔
      ∃ h l bs', value hi = some h ∧ value lo = some l ∧ decodeChars rest = some bs' ∧
        bs = UInt8.ofNat (16 * h + l) :: bs' := by
  simp only [decodeChars, Option.bind_eq_bind, Option.bind_eq_some_iff]
  constructor
  · rintro ⟨h, hh, l, hl, bs', hbs', hdone⟩
    exact ⟨h, l, bs', hh, hl, hbs', (Option.some.inj hdone).symm⟩
  · rintro ⟨h, l, bs', hh, hl, hbs', rfl⟩
    exact ⟨h, hh, l, hl, bs', hbs', rfl⟩

/-- A byte determines its two digits. -/
theorem digits_inj {h l h' l' : Nat} (hh : h < 16) (hl : l < 16) (hh' : h' < 16) (hl' : l' < 16)
    (heq : UInt8.ofNat (16 * h + l) = UInt8.ofNat (16 * h' + l')) : h = h' ∧ l = l' := by
  have hnat : (16 * h + l) % 256 = (16 * h' + l') % 256 := by
    simpa using congrArg UInt8.toNat heq
  omega

/-- Text that decodes to the same bytes is the same text up to case. -/
theorem decodeChars_eq_iff {cs ds : List Char} {bs : List UInt8} (hc : decodeChars cs = some bs) :
    cs.map Char.toLower = ds.map Char.toLower ↔ decodeChars ds = some bs := by
  induction cs using decodeChars.induct generalizing ds bs with
  | case1 =>
      cases hc
      cases ds with
      | nil =>
          simp [decodeChars]
      | cons d ds =>
          refine ⟨fun h => by simp at h, ?_⟩
          intro h
          cases ds with
          | nil => cases h
          | cons e ds =>
              rcases decodeChars_pair_iff.1 h with ⟨_, _, _, -, -, -, hbs⟩
              cases hbs
  | case2 c =>
      cases hc
  | case3 hi lo rest ih =>
      rcases decodeChars_pair_iff.1 hc with ⟨h, l, bs', hh, hl, hrest, rfl⟩
      constructor
      · intro hmap
        rcases ds with _ | ⟨hi', _ | ⟨lo', rest'⟩⟩
        · simp at hmap
        · simp at hmap
        · simp only [List.map_cons, List.cons.injEq] at hmap
          rcases hmap with ⟨hhi, hlo, htail⟩
          exact decodeChars_pair_iff.2 ⟨h, l, bs', (toLower_eq_iff hh).1 hhi,
            (toLower_eq_iff hl).1 hlo, (ih hrest).1 htail, rfl⟩
      · intro hds
        rcases ds with _ | ⟨hi', _ | ⟨lo', rest'⟩⟩
        · cases hds
        · cases hds
        · rcases decodeChars_pair_iff.1 hds with ⟨h', l', bs'', hh', hl', hrest', hbs⟩
          rcases List.cons.inj hbs with ⟨hbyte, rfl⟩
          rcases digits_inj (value_lt hh) (value_lt hl) (value_lt hh') (value_lt hl') hbyte with
            ⟨rfl, rfl⟩
          rw [List.map_cons, List.map_cons, List.map_cons, List.map_cons,
            (toLower_eq_iff hh).2 hh', (toLower_eq_iff hl).2 hl', (ih hrest).2 hrest']

theorem length_of_decodeChars {cs : List Char} {bs : List UInt8} (h : decodeChars cs = some bs) :
    cs.length = 2 * bs.length := by
  induction cs using decodeChars.induct generalizing bs with
  | case1 =>
      cases h
      rfl
  | case2 c =>
      cases h
  | case3 hi lo rest ih =>
      rcases decodeChars_pair_iff.1 h with ⟨_, _, bs', -, -, hrest, rfl⟩
      have hlength := ih hrest
      simp only [List.length_cons, hlength]
      omega

theorem utf8Size_of_value {c : Char} {n : Nat} (h : value c = some n) : c.utf8Size = 1 := by
  have hdigit := value_eq_some_iff.1 h
  have hle : c.toNat ≤ 127 := by omega
  exact Char.utf8Size_eq_one_iff.2 hle

/-- Text that decodes is ASCII: it has as many bytes as characters. -/
theorem utf8ByteSize_of_decodeChars {cs : List Char} {bs : List UInt8}
    (h : decodeChars cs = some bs) : (String.ofList cs).utf8ByteSize = cs.length := by
  induction cs using decodeChars.induct generalizing bs with
  | case1 =>
      rfl
  | case2 c =>
      cases h
  | case3 hi lo rest ih =>
      rcases decodeChars_pair_iff.1 h with ⟨_, _, bs', hhi, hlo, hrest, rfl⟩
      rw [String.ofList_cons, String.ofList_cons, String.utf8ByteSize_append,
        String.utf8ByteSize_append, String.utf8ByteSize_singleton, String.utf8ByteSize_singleton,
        utf8Size_of_value hhi, utf8Size_of_value hlo, ih hrest, List.length_cons, List.length_cons]
      omega

end Hex
end CleanWeb
