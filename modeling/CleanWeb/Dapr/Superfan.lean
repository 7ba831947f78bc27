import CleanWeb.Dapr.Contribution
import CleanWeb.Dapr.Diminishing
import CleanWeb.Dapr.FewerPayers

/-!
# The fee of a superfan

However often a work is replayed, a subscriber who only listened to it pays it the whole fee: the
multiplier of diminishing returns scales every weight of the subscriber, and scales out.
-/

namespace CleanWeb
namespace Dapr

open Lib Lib.Exec Lib.BTreeMap

/-! ## The weight of a row -/

/-- A returned row keeps user and work, and its weight is the discounted value. -/
theorem rawRowOf_ok {kPpm : Nat} {row : UsageRow} {r : RawRow} (h : rawRowOf kPpm row = .ok r) :
    r.user = row.user ∧ r.work = row.work ∧ ∃ d, dPpm row.plays kPpm = .ok d ∧
      r.raw = row.minutes * row.pricePpm * row.regionPpm * d / 1000000 := by
  unfold rawRowOf at h
  rcases bind_eq_ok.1 h with ⟨value, hvalue, h⟩
  rcases bind_eq_ok.1 h with ⟨d, hd, h⟩
  rcases bind_eq_ok.1 h with ⟨raw, hraw, h⟩
  have hvalue' : value = row.minutes * row.pricePpm * row.regionPpm := by
    rw [UsageRow.value, okOr_eq_ok, Option.bind_eq_some_iff] at hvalue
    rcases hvalue with ⟨scaled, hscaled, hvalue⟩
    rw [checkedMul_eq_some] at hscaled hvalue
    rw [← hvalue.2, ← hscaled.2]
  cases h
  refine ⟨rfl, rfl, d, hd, ?_⟩
  rw [← hvalue']
  exact mulDiv_ok hraw

theorem raw_eq_zero {kPpm : Nat} {row : UsageRow} {r : RawRow} (h : rawRowOf kPpm row = .ok r)
    (hvalue : row.minutes * row.pricePpm * row.regionPpm = 0) : r.raw = 0 := by
  rcases rawRowOf_ok h with ⟨-, -, d, -, hraw⟩
  rw [hraw, hvalue, Nat.zero_mul, Nat.zero_div]

/-- At the neutral region no positive value is rounded away: the multiplier is at least ten. -/
theorem raw_pos {kPpm : Nat} {row : UsageRow} {r : RawRow} (hk : kPpm < 2 ^ 64)
    (h : rawRowOf kPpm row = .ok r) (hregion : row.regionPpm = 1000000)
    (hvalue : 0 < row.minutes * row.pricePpm * row.regionPpm) : 0 < r.raw := by
  rcases rawRowOf_ok h with ⟨-, -, d, hd, hraw⟩
  rcases dPpm_curve row.plays kPpm hk with ⟨d', hd', hlow, -⟩
  have hdd : d' = d := Except.ok.inj (hd'.symm.trans hd)
  have hten : 10 ≤ d := by
    calc
      10 = 1000000 / playsCap := by decide
      _ ≤ 1000000 / playsCounted row.plays :=
          Nat.div_le_div_left (playsCounted_le _) (playsCounted_pos _)
      _ ≤ d := hdd ▸ hlow
  have hfactor : 0 < row.minutes * row.pricePpm := Nat.pos_of_mul_pos_right hvalue
  have hexact : r.raw = row.minutes * row.pricePpm * d := by
    rw [hraw, hregion, Nat.mul_right_comm, Nat.mul_div_cancel _ (by decide)]
  rw [hexact]
  exact Nat.mul_pos hfactor (by omega)

/-! ## The rows of the subscriber -/

/-- The rows of `user`, weighed and with neutral bandwidth. -/
structure Neutral (dataset : Dataset) (kPpm : Nat) (user : UserId) (rs : List (RawRow × Nat)) :
    Prop where
  neutral : ∀ e ∈ rs, e.2 = 1000000
  weighed : ∀ e ∈ rs, ∃ row ∈ dataset.usage, row.user = user ∧ rawRowOf kPpm row = .ok e.1
  listed : ∀ row ∈ dataset.usage, row.user = user →
    ∃ e ∈ rs, rawRowOf kPpm row = .ok e.1

theorem neutral_rowsOf {dataset : Dataset} {kPpm : Nat} {user : UserId} {rawRows : List RawRow}
    (hrows : dataset.usage.mapM (rawRowOf kPpm) = .ok rawRows)
    (hneutral : ∀ row ∈ dataset.usage, row.user = user →
      bwPpm dataset.bandwidthPpm row.work = 1000000) :
    Neutral dataset kPpm user
      (rowsOf rawRows (rawRows.map fun r => bwPpm dataset.bandwidthPpm r.work) user) := by
  have hall := forall₂_of_mapM hrows
  have hweighed : ∀ r ∈ rawRows, ∃ row ∈ dataset.usage, rawRowOf kPpm row = .ok r := by
    intro r hr
    rcases List.mem_iff_getElem.1 hr with ⟨i, hi, rfl⟩
    have hi' : i < dataset.usage.length := hall.length_eq ▸ hi
    exact ⟨_, List.getElem_mem hi', hall.get hi' hi⟩
  have hzip : rawRows.zip (rawRows.map fun r => bwPpm dataset.bandwidthPpm r.work) =
      rawRows.map fun r => (r, bwPpm dataset.bandwidthPpm r.work) := by
    have hpairs : (rawRows.map id).zip (rawRows.map fun r => bwPpm dataset.bandwidthPpm r.work) =
        rawRows.map fun r => (r, bwPpm dataset.bandwidthPpm r.work) := List.zip_map'
    rwa [List.map_id] at hpairs
  have hmem : ∀ e, e ∈ rowsOf rawRows
      (rawRows.map fun r => bwPpm dataset.bandwidthPpm r.work) user ↔
        e.1 ∈ rawRows ∧ e.1.user = user ∧
          e.2 = min (bwPpm dataset.bandwidthPpm e.1.work) 1000000 := by
    rintro ⟨r, c⟩
    rw [rowsOf, hzip]
    simp only [List.mem_map, List.mem_filter, decide_eq_true_eq, Prod.mk.injEq]
    constructor
    · rintro ⟨e, ⟨⟨r', hr', rfl⟩, huser⟩, rfl, rfl⟩
      exact ⟨hr', huser, rfl⟩
    · rintro ⟨hr, huser, rfl⟩
      exact ⟨_, ⟨⟨r, hr, rfl⟩, huser⟩, rfl, rfl⟩
  refine ⟨?_, ?_, ?_⟩
  · intro e he
    rcases (hmem e).1 he with ⟨hr, huser, hcred⟩
    rcases hweighed e.1 hr with ⟨row, hrow, hraw⟩
    rcases rawRowOf_ok hraw with ⟨huser', hwork, -⟩
    rw [hcred, hwork, hneutral row hrow (huser'.symm.trans huser), min_self]
  · intro e he
    rcases (hmem e).1 he with ⟨hr, huser, -⟩
    rcases hweighed e.1 hr with ⟨row, hrow, hraw⟩
    exact ⟨row, hrow, (rawRowOf_ok hraw).1.symm.trans huser, hraw⟩
  · intro row hrow huser
    rcases List.mem_iff_getElem.1 hrow with ⟨i, hi, rfl⟩
    have hi' : i < rawRows.length := hall.length_eq ▸ hi
    have hraw := hall.get hi hi'
    refine ⟨(rawRows[i], min (bwPpm dataset.bandwidthPpm rawRows[i].work) 1000000),
      (hmem _).2 ⟨List.getElem_mem hi', ?_, rfl⟩, hraw⟩
    exact (rawRowOf_ok hraw).1.trans huser

/-- With neutral bandwidth the credited weights are the weights. -/
theorem credSum_eq_rawSum {rs : List (RawRow × Nat)} (h : ∀ e ∈ rs, e.2 = 1000000) :
    credSum rs = rawSum rs := by
  refine congrArg List.sum (List.map_congr_left ?_)
  intro e he
  rw [credOf, h e he, Nat.mul_div_cancel _ (by decide)]

theorem paidOf_eq {rs : List (RawRow × Nat)} (h : ∀ e ∈ rs, e.2 = 1000000) (hraw : 0 < rawSum rs)
    (fee : Nat) : paidOf fee rs = fee := by
  rw [paidOf, credSum_eq_rawSum h, Nat.mul_div_cancel _ hraw]

/-- The payments add up to the whole fee. -/
theorem sum_paymentsOf {fee : Nat} {rs : List (RawRow × Nat)} (h : ∀ e ∈ rs, e.2 = 1000000)
    (hraw : 0 < rawSum rs) (hlen : rs.length < 2 ^ 64)
    (hshares : apportion (paidOf fee rs) (rs.map credOf) (credSum rs) =
      .ok (sharesOf fee rs)) : ((paymentsOf fee rs).map Prod.snd).sum = fee := by
  have hcred : 0 < credSum rs := by
    rwa [credSum_eq_rawSum h]
  have hcount : (sharesOf fee rs).length = rs.length := by
    simpa using (apportion_ok hcred rfl hshares).1
  have hsum : (sharesOf fee rs).sum = paidOf fee rs :=
    apportion_sum hcred rfl (by simpa using hlen) hshares
  calc
    ((paymentsOf fee rs).map Prod.snd).sum = ((rs.zip (sharesOf fee rs)).map Prod.snd).sum := by
      rw [paymentsOf, if_neg (by omega), List.map_map]
      rfl
    _ = (sharesOf fee rs).sum := zip_snd_sum hcount
    _ = fee := by rw [hsum, paidOf_eq h hraw]

section Subscriber

variable {dataset : Dataset} {kPpm : Nat} {user : UserId} {rs : List (RawRow × Nat)}

theorem Neutral.rawSum_pos (h : Neutral dataset kPpm user rs) (hk : kPpm < 2 ^ 64) {row : UsageRow}
    (hrow : row ∈ dataset.usage) (huser : row.user = user) (hregion : row.regionPpm = 1000000)
    (hvalue : 0 < row.minutes * row.pricePpm * row.regionPpm) : 0 < rawSum rs := by
  rcases h.listed row hrow huser with ⟨e, he, hweight⟩
  have hpos := raw_pos hk hweight hregion hvalue
  exact hpos.trans_le (List.single_le_sum (by simp) _ (List.mem_map_of_mem he))

theorem Neutral.rawSum_eq_zero (h : Neutral dataset kPpm user rs)
    (hnone : ∀ row ∈ dataset.usage, row.user = user →
      row.minutes * row.pricePpm * row.regionPpm = 0) : rawSum rs = 0 := by
  apply List.sum_eq_zero
  intro raw hmem
  rcases List.mem_map.1 hmem with ⟨e, he, rfl⟩
  rcases h.weighed e he with ⟨row, hrow, huser, hweight⟩
  exact raw_eq_zero hweight (hnone row hrow huser)

/-- Where only `w` has value, `w` is paid the whole fee. -/
theorem Neutral.amountAt_payments (h : Neutral dataset kPpm user rs) {w : WorkId} {fee : Nat}
    (honly : ∀ row ∈ dataset.usage, row.user = user →
      0 < row.minutes * row.pricePpm * row.regionPpm → row.work = w)
    (hraw : 0 < rawSum rs) (hlen : rs.length < 2 ^ 64)
    (hshares : apportion (paidOf fee rs) (rs.map credOf) (credSum rs) = .ok (sharesOf fee rs))
    (w' : WorkId) : amountAt w' (paymentsOf fee rs) = if w' = w then fee else 0 := by
  have hspec := paymentsOf_spec fun _ _ => hshares
  -- A payment to another work is for a row of no value.
  have hother : ∀ pay ∈ paymentsOf fee rs, pay.1 ≠ w → pay.2 = 0 := by
    intro pay hpay hne
    rcases hspec.2 pay hpay with ⟨e, he, hwork, hzero⟩
    rcases h.weighed e he with ⟨row, hrow, huser, hweight⟩
    rcases Nat.eq_zero_or_pos (row.minutes * row.pricePpm * row.regionPpm) with hnone | hsome
    · apply hzero
      rw [credOf, raw_eq_zero hweight hnone, Nat.zero_mul, Nat.zero_div]
    · refine absurd ?_ hne
      rw [← hwork, (rawRowOf_ok hweight).2.1]
      exact honly row hrow huser hsome
  rw [amountAt_of_only hother, sum_paymentsOf h.neutral hraw hlen hshares]

end Subscriber

/-! ## What the subscriber's fee does -/

/-- `p` is `p₀` with `amount w` more for each work and `rest` more left over. -/
def Adds (p₀ p : Payouts) (amount : WorkId → Nat) (rest : Nat) : Prop :=
  (∀ w, p.perWork.getD w 0 = p₀.perWork.getD w 0 + amount w) ∧
    p.unallocated = p₀.unallocated + rest

/-- Taking one subscriber out takes out that subscriber's payments. -/
theorem adds_of_erase {tierFees : BTreeMap UserId Nat} {rows : List RawRow}
    {credibilityPpm : List Nat} {p p₀ : Payouts} {user : UserId} {fee : Nat}
    (hfee : tierFees[user]? = some fee)
    (h : allocateFromRawWithRowCredibility tierFees rows credibilityPpm = .ok p)
    (h₀ : allocateFromRawWithRowCredibility (tierFees.erase user) rows credibilityPpm = .ok p₀) :
    Adds p₀ p (fun w => amountAt w (paymentsOf fee (rowsOf rows credibilityPpm user)))
      (fee - paidOf fee (rowsOf rows credibilityPpm user)) := by
  have hperm := toList_perm_cons_erase hfee
  rcases allocate_ok h with ⟨st, hst, rfl⟩
  rcases allocate_ok h₀ with ⟨st₀, hst₀, rfl⟩
  refine ⟨?_, ?_⟩
  · intro w
    dsimp only
    rw [hst.perWork.amount, hst₀.perWork.amount, amountAt_perm w (hperm.flatMap_right _),
      List.flatMap_cons, amountAt_append, Nat.add_comm]
  · dsimp only
    rw [hst.unallocated, hst₀.unallocated, (hperm.map _).sum_eq, List.map_cons, List.sum_cons,
      Nat.add_comm]

/-- A fee payer whose rows of positive value all name `w` pays `w` the whole fee, and nothing to
another work or to what stays unallocated, whatever the plays.  (Without a row of positive value the
whole fee stays unallocated.)  What the payer adds is read off the settlement of the others. -/
theorem superfan (dataset : Dataset) (params : DaprParams) (user : UserId) (fee : Nat) (w : WorkId)
    (p : Payouts) (hk : params.diminishingKPpm < 2 ^ 64) (hlen : dataset.usage.length < 2 ^ 64)
    (hfee : dataset.tierFees[user]? = some fee)
    (hregion : ∀ row ∈ dataset.usage, row.user = user → row.regionPpm = 1000000)
    (hneutral : ∀ row ∈ dataset.usage, row.user = user →
      bwPpm dataset.bandwidthPpm row.work = 1000000)
    (honly : ∀ row ∈ dataset.usage, row.user = user →
      0 < row.minutes * row.pricePpm * row.regionPpm → row.work = w)
    (h : allocate dataset params = .ok p) :
    ∃ p₀, allocate { dataset with tierFees := dataset.tierFees.erase user } params = .ok p₀ ∧
      ((∃ row ∈ dataset.usage, row.user = user ∧
          0 < row.minutes * row.pricePpm * row.regionPpm) →
        Adds p₀ p (fun w' => if w' = w then fee else 0) 0) ∧
      ((∀ row ∈ dataset.usage, row.user = user →
          row.minutes * row.pricePpm * row.regionPpm = 0) →
        Adds p₀ p (fun _ => 0) fee) := by
  unfold allocate at h
  rcases bind_eq_ok.1 h with ⟨rawRows, hrows, hcore⟩
  rcases exists_allocate_erase user hcore with ⟨p₀, hp₀⟩
  have hadds := adds_of_erase hfee hcore hp₀
  have hrs := neutral_rowsOf hrows hneutral
  rcases allocate_ok hcore with ⟨st, hst, -⟩
  have hshares := hst.shares (user, fee) (mem_toList.2 hfee)
  generalize hname : rowsOf rawRows (rawRows.map fun r => bwPpm dataset.bandwidthPpm r.work) user =
    rs at hadds hrs hshares
  have hcount : rs.length < 2 ^ 64 := by
    have hle := length_rowsOf_le rawRows
      (rawRows.map fun r => bwPpm dataset.bandwidthPpm r.work) user
    rw [hname, ← (forall₂_of_mapM hrows).length_eq] at hle
    exact hle.trans_lt hlen
  refine ⟨p₀, ?_, ?_, ?_⟩
  · simp only [allocate, hrows, ok_bind]
    exact hp₀
  · rintro ⟨row, hrow, huser, hvalue⟩
    have hraw := hrs.rawSum_pos hk hrow huser (hregion row hrow huser) hvalue
    have happortion := hshares hraw.ne' (by rw [credSum_eq_rawSum hrs.neutral]; exact hraw.ne')
    refine ⟨?_, ?_⟩
    · intro w'
      refine (hadds.1 w').trans (congrArg _ ?_)
      exact hrs.amountAt_payments honly hraw hcount happortion w'
    · rw [hadds.2, paidOf_eq hrs.neutral hraw, Nat.sub_self]
  · intro hnone
    have hraw := hrs.rawSum_eq_zero hnone
    have hpaid : paidOf fee rs = 0 := by
      rw [paidOf, hraw, Nat.div_zero]
    have hnothing : paymentsOf fee rs = [] := if_pos (Or.inl hraw)
    refine ⟨?_, ?_⟩
    · intro w'
      refine (hadds.1 w').trans (congrArg _ ?_)
      change amountAt w' (paymentsOf fee rs) = 0
      rw [hnothing, amountAt_nil]
    · rw [hadds.2, hpaid, Nat.sub_zero]

/-- One subscriber replays a work and opens another for no time, and one listens around. -/
def sampleFans : Dataset :=
  { tierFees := {("u1", 1000), ("u2", 700)}
    usage := [⟨"u1", "wA", 300, 1000000, 1000000, 100⟩, ⟨"u1", "wB", 0, 1000000, 1000000, 1⟩,
      ⟨"u2", "wA", 10, 1000000, 1000000, 1⟩, ⟨"u2", "wB", 30, 1000000, 1000000, 2⟩]
    bandwidthPpm := ∅ }

/-- The whole thousand goes to the work that was replayed. -/
theorem superfan_sampleFans :
    ∃ p p₀, allocate sampleFans {} = .ok p ∧
      allocate { sampleFans with tierFees := sampleFans.tierFees.erase "u1" } {} = .ok p₀ ∧
      Adds p₀ p (fun w => if w = "wA" then 1000 else 0) 0 := by
  have hok : trap (allocate sampleFans {}) = none := by
    decide +kernel
  rcases exists_ok_of_trap hok with ⟨p, hp⟩
  have hrows : ∀ row ∈ sampleFans.usage, row.user = "u1" →
      row.regionPpm = 1000000 ∧ bwPpm sampleFans.bandwidthPpm row.work = 1000000 ∧
        (0 < row.minutes * row.pricePpm * row.regionPpm → row.work = "wA") := by
    decide +kernel
  rcases superfan sampleFans {} "u1" 1000 "wA" p (by decide) (by decide) (by decide +kernel)
    (fun row hrow huser => (hrows row hrow huser).1)
    (fun row hrow huser => (hrows row hrow huser).2.1)
    (fun row hrow huser => (hrows row hrow huser).2.2) hp with ⟨p₀, hp₀, hfan, -⟩
  exact ⟨p, p₀, hp, hp₀, hfan (by decide)⟩

end Dapr
end CleanWeb
