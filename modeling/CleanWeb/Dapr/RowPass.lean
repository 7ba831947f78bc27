import CleanWeb.Dapr.Apportion

/-!
# The pass over one user's rows

What the inner loops of `allocate_from_raw_with_row_credibility` compute: the sums of a user's
raw and credited weights, the reputation signal, and the payment of the user's shares into the
per-work totals.
-/

namespace CleanWeb
namespace Dapr

open Lib Lib.Exec Lib.BTreeMap

/-! ## The quantities of a user's rows -/

/-- A row's credited weight. -/
def credOf (e : RawRow × Nat) : Nat :=
  e.1.raw * e.2 / 1000000

def rawSum (rs : List (RawRow × Nat)) : Nat :=
  (rs.map fun e => e.1.raw).sum

def credSum (rs : List (RawRow × Nat)) : Nat :=
  (rs.map credOf).sum

/-- Credited weight on the work `w`. -/
def credOn (w : WorkId) (rs : List (RawRow × Nat)) : Nat :=
  ((rs.filter fun e => e.1.work = w).map credOf).sum

/-- The part of `fee` that reaches works. -/
def paidOf (fee : Nat) (rs : List (RawRow × Nat)) : Nat :=
  fee * credSum rs / rawSum rs

/-- Every credibility is at most neutral, as after the clamp of `groupRows`. -/
def Clamped (rs : List (RawRow × Nat)) : Prop :=
  ∀ e ∈ rs, e.2 ≤ 1000000

theorem credOf_le {e : RawRow × Nat} (h : e.2 ≤ 1000000) : credOf e ≤ e.1.raw := by
  have hmul : e.1.raw * e.2 ≤ 1000000 * e.1.raw := by
    calc
      e.1.raw * e.2 ≤ e.1.raw * 1000000 := Nat.mul_le_mul_left _ h
      _ = 1000000 * e.1.raw := Nat.mul_comm _ _
  exact Nat.div_le_of_le_mul hmul

theorem credSum_le_rawSum {rs : List (RawRow × Nat)} (h : Clamped rs) :
    credSum rs ≤ rawSum rs := by
  unfold credSum rawSum
  exact List.sum_le_sum fun e he => credOf_le (h e he)

theorem paidOf_le {rs : List (RawRow × Nat)} (h : Clamped rs) (fee : Nat) :
    paidOf fee rs ≤ fee := by
  have hmul : fee * credSum rs ≤ rawSum rs * fee := by
    calc
      fee * credSum rs ≤ fee * rawSum rs := Nat.mul_le_mul_left _ (credSum_le_rawSum h)
      _ = rawSum rs * fee := Nat.mul_comm _ _
  exact Nat.div_le_of_le_mul hmul

theorem rawSum_append (as bs : List (RawRow × Nat)) :
    rawSum (as ++ bs) = rawSum as + rawSum bs := by
  simp [rawSum]

theorem credOn_append (w : WorkId) (as bs : List (RawRow × Nat)) :
    credOn w (as ++ bs) = credOn w as + credOn w bs := by
  simp [credOn]

theorem credOn_singleton (w : WorkId) (e : RawRow × Nat) :
    credOn w [e] = if e.1.work = w then credOf e else 0 := by
  by_cases h : e.1.work = w
  · simp [credOn, h]
  · simp [credOn, h]

/-! ## Reading the rows -/

theorem mulDiv_meets {a b d : Nat} (hd : 0 < d) :
    Meets (mulDiv a b d) (fun q => a * b / d < 2 ^ 128 ∧ q = a * b / d)
      (OverflowsBy (2 ^ 128 ≤ a * b / d)) := by
  unfold mulDiv
  rw [if_neg (by omega)]
  dsimp only
  split
  · rename_i h
    exact ⟨h, rfl⟩
  · rename_i h
    exact ⟨rfl, Nat.le_of_not_lt h⟩

/-- What the row loop has established after reading `rs`, starting from the usage `u0`. -/
structure RowsRead (u0 : BTreeMap WorkId Nat) (rs : List (RawRow × Nat)) (p : RowPass) : Prop where
  creds : p.creds = rs.map credOf
  rwU : p.rwU = rawSum rs
  sumCred : p.sumCred = credSum rs
  usage : ∀ w, p.repUsage.getD w 0 = u0.getD w 0 + credOn w rs
  rawFits : rawSum rs < 2 ^ 128
  usageFits : ∀ w, u0.getD w 0 < 2 ^ 128 → p.repUsage.getD w 0 < 2 ^ 128

/-- Why the row loop overflows: the user's own weights, or the usage of one work. -/
def RowsOverflow (u0 : BTreeMap WorkId Nat) (rs : List (RawRow × Nat)) : Prop :=
  2 ^ 128 ≤ rawSum rs ∨ ∃ w, 2 ^ 128 ≤ u0.getD w 0 + credOn w rs

theorem RowsOverflow.append {u0 : BTreeMap WorkId Nat} {as : List (RawRow × Nat)}
    (h : RowsOverflow u0 as) (bs : List (RawRow × Nat)) : RowsOverflow u0 (as ++ bs) := by
  rcases h with h | ⟨w, h⟩
  · left
    rw [rawSum_append]
    omega
  · right
    refine ⟨w, ?_⟩
    rw [credOn_append]
    omega

theorem rowStep_meets {u0 : BTreeMap WorkId Nat} {user : UserId} {done : List (RawRow × Nat)}
    {p : RowPass} {e : RawRow × Nat} (hp : RowsRead u0 done p) (he : e.2 ≤ 1000000)
    (hdone : Clamped done) :
    Meets (rowStep user p e) (RowsRead u0 (done ++ [e]))
      (OverflowsBy (RowsOverflow u0 (done ++ [e]))) := by
  have hcred : credOf e ≤ e.1.raw := credOf_le he
  have hraw : rawSum (done ++ [e]) = rawSum done + e.1.raw := by
    simp [rawSum]
  have hsum : credSum (done ++ [e]) = credSum done + credOf e := by
    simp [credSum]
  have hle : credSum done ≤ rawSum done := credSum_le_rawSum hdone
  have hon : credOn e.1.work (done ++ [e]) = credOn e.1.work done + credOf e := by
    simp [credOn_append, credOn_singleton]
  have husage : p.repUsage.getD e.1.work 0 + credOf e =
      u0.getD e.1.work 0 + credOn e.1.work (done ++ [e]) := by
    rw [hp.usage, hon]
    omega
  unfold rowStep
  dsimp only
  -- The credited weight is at most the raw weight, so it overflows only with the raw sum.
  refine ((mulDiv_meets (a := e.1.raw) (b := e.2) (d := 1000000) (by omega)).mono
    (fun _ _ hq => hq) fun t ht => ht.mono fun (h : 2 ^ 128 ≤ credOf e) => ?_).bind ?_
  · left
    omega
  rintro cred ⟨-, rfl⟩
  rw [meets_bind_iff, meets_checkedAdd, hp.rwU]
  split
  swap
  · rename_i hfit
    exact ⟨rfl, Or.inl (by omega)⟩
  rename_i hrawFits
  rw [meets_bind_iff, meets_checkedAdd, hp.sumCred]
  change (if credSum done + credOf e < 2 ^ 128 then _ else _)
  rw [if_pos (by omega), meets_bind_iff, meets_checkedAdd]
  change (if p.repUsage.getD e.1.work 0 + credOf e < 2 ^ 128 then _ else _)
  split
  swap
  · rename_i hfit
    exact ⟨rfl, Or.inr ⟨e.1.work, by omega⟩⟩
  rename_i husageFits
  refine ⟨?_, ?_, ?_, ?_, by omega, ?_⟩
  · simp [hp.creds, credOf]
  · exact hraw.symm
  · exact hsum.symm
  · intro w
    change (p.repUsage.insert e.1.work (p.repUsage.getD e.1.work 0 + credOf e)).getD w 0 = _
    rw [getD_insert_add, hp.usage, credOn_append, credOn_singleton]
    omega
  · intro w hw
    change (p.repUsage.insert e.1.work (p.repUsage.getD e.1.work 0 + credOf e)).getD w 0 < _
    by_cases hwe : e.1.work = w
    · subst hwe
      simpa using husageFits
    · have hold := hp.usageFits w hw
      rw [getD_insert_add]
      simpa [hwe] using hold

/-- The row loop over all of a user's rows. -/
theorem rowLoop_meets {rs : List (RawRow × Nat)} (user : UserId) (u0 : BTreeMap WorkId Nat)
    (s0 : BTreeMap WorkId (BTreeSet UserId)) (hrs : Clamped rs) :
    Meets (rs.foldlM (rowStep user) ⟨[], 0, 0, u0, s0⟩) (RowsRead u0 rs)
      (OverflowsBy (RowsOverflow u0 rs)) := by
  refine Meets.foldlM (RowsRead u0) ?_ ?_
  · exact ⟨rfl, rfl, rfl, by simp [credOn], by simp [rawSum], fun _ h => h⟩
  intro done e rest p hsplit hp
  have hdone : Clamped done := fun x hx => hrs x (by simp [hsplit, hx])
  have he : e.2 ≤ 1000000 := hrs e (by simp [hsplit])
  refine (rowStep_meets hp he hdone).mono (fun _ _ h => h) fun t ht => ht.mono fun h => ?_
  have hall := h.append rest
  rwa [List.append_assoc, List.singleton_append, ← hsplit] at hall

/-! ## Paying the shares -/

/-- What the shares `ps` pay to the work `w`. -/
def paidTo (w : WorkId) (ps : List ((RawRow × Nat) × Nat)) : Nat :=
  ((ps.filter fun p => p.1.1.work = w).map Prod.snd).sum

/-- What paying `ps` into `m0` has established. -/
structure SharesPaid (m0 : BTreeMap WorkId Nat) (ps : List ((RawRow × Nat) × Nat))
    (m : BTreeMap WorkId Nat) : Prop where
  total_eq : total m = total m0 + (ps.map Prod.snd).sum
  at_work : ∀ w, m.getD w 0 = m0.getD w 0 + paidTo w ps
  keys : ∀ w ∈ m, w ∈ m0 ∨ ∃ p ∈ ps, p.1.1.work = w

theorem payShare_meets {m0 m : BTreeMap WorkId Nat} {ps : List ((RawRow × Nat) × Nat)}
    {p : (RawRow × Nat) × Nat} (hm : SharesPaid m0 ps m) :
    Meets (payShare m p) (SharesPaid m0 (ps ++ [p]))
      (OverflowsBy (2 ^ 128 ≤ total m0 + ((ps ++ [p]).map Prod.snd).sum)) := by
  have hsum : ((ps ++ [p]).map Prod.snd).sum = (ps.map Prod.snd).sum + p.2 := by
    simp
  have hle : m.getD p.1.1.work 0 ≤ total m := getD_le_total m _
  have htotal := hm.total_eq
  unfold payShare
  dsimp only
  rw [meets_bind_iff, meets_checkedAdd]
  split
  · refine ⟨?_, ?_, ?_⟩
    · rw [total_insert_add, hsum]
      omega
    · intro w
      rw [getD_insert_add, hm.at_work]
      by_cases hw : p.1.1.work = w
      · simp [paidTo, hw]
        omega
      · simp [paidTo, hw]
    · intro w hw
      rcases Std.ExtTreeMap.mem_insert.1 hw with heq | hold
      · exact Or.inr ⟨p, by simp, by simpa using heq⟩
      · rcases hm.keys w hold with h | ⟨q, hq, hqw⟩
        · exact Or.inl h
        · exact Or.inr ⟨q, by simp [hq], hqw⟩
  · rename_i hfit
    exact ⟨rfl, by omega⟩

theorem payLoop_meets (m0 : BTreeMap WorkId Nat) (ps : List ((RawRow × Nat) × Nat)) :
    Meets (ps.foldlM payShare m0) (SharesPaid m0 ps)
      (OverflowsBy (2 ^ 128 ≤ total m0 + (ps.map Prod.snd).sum)) := by
  refine Meets.foldlM (SharesPaid m0) ⟨by simp, by simp [paidTo], fun w h => Or.inl h⟩ ?_
  intro done p rest m hsplit hm
  refine (payShare_meets hm).mono (fun _ _ h => h) fun t ht => ht.mono fun h => ?_
  have hle : ((done ++ [p]).map Prod.snd).sum ≤ (ps.map Prod.snd).sum := by
    rw [hsplit]
    simp
  omega

end Dapr
end CleanWeb
