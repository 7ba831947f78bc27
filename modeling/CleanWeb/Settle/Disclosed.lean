import CleanWeb.Dapr.Contribution
import CleanWeb.Settle.Disclosure
import CleanWeb.Settle.FeeConservation

/-!
# What disclosure mode pays for

A settlement in disclosure mode credits works that some submitter of the epoch disclosed, sends
exactly the listed ones to escrow, and pays out no more than the fees of the users with openings.
-/

namespace CleanWeb
namespace Settle

open Lib Lib.Exec Dapr Contracts Wallet

variable {x : Externals} {chain : ChainReads} {pricePerMinOf : Bytes32 → Option Nat}
variable {disclosure : Disclosure} {logs : List ConsumptionSubmitted}

/-! ## The pass over the log -/

/-- A row for a work that a submitter has disclosed. -/
def DisclosedBy (x : Externals) (disclosure : Disclosure) (logs : List ConsumptionSubmitted)
    (user : UserId) (work : WorkId) : Prop :=
  ∃ event ∈ logs, user = Address.display x.hex event.user ∧
    ∃ openings, disclosure.forUser user = some openings ∧
      ∃ o ∈ openings, work = Bytes32.display x.hex o.workId

/-- A fee that some submission of the user's tier costs. -/
def FeeOf (x : Externals) (chain : ChainReads) (logs : List ConsumptionSubmitted) (user : UserId)
    (fee : Nat) : Prop :=
  ∃ event ∈ logs, user = Address.display x.hex event.user ∧
    chain.feeOf event.tierId = some fee

structure Passed (x : Externals) (chain : ChainReads) (disclosure : Disclosure)
    (logs : List ConsumptionSubmitted) (st : DisclosurePass) : Prop where
  fees : ∀ user fee, st.tierFees[user]? = some fee → FeeOf x chain logs user fee
  rows : ∀ row ∈ st.usage, DisclosedBy x disclosure logs row.user row.work
  priced : ∀ event ∈ logs, ∃ fee, chain.feeOf event.tierId = some fee

theorem openingRow_meets (x : Externals) (pricePerMinOf : Bytes32 → Option Nat)
    (userHex : UserId) (o : Opening) :
    Meets (openingRow x pricePerMinOf userHex o)
      (fun row => row.user = userHex ∧ row.work = Bytes32.display x.hex o.workId)
      (fun _ => True) := by
  unfold openingRow
  refine meets_iff.2 ⟨?_, fun _ _ => trivial⟩
  intro row hrow
  rcases bind_eq_ok.1 hrow with ⟨price, -, hrow⟩
  rcases bind_eq_ok.1 hrow with ⟨pricePpm, -, hrow⟩
  cases hrow
  exact ⟨rfl, rfl⟩

theorem Passed.mono {st : DisclosurePass} (h : Passed x chain disclosure logs st)
    {event : ConsumptionSubmitted} {fee : Nat} (hpriced : chain.feeOf event.tierId = some fee) :
    Passed x chain disclosure (logs ++ [event]) st := by
  refine ⟨?_, ?_, ?_⟩
  · intro user fee hfee
    rcases h.fees user fee hfee with ⟨e, he, hrest⟩
    exact ⟨e, List.mem_append_left _ he, hrest⟩
  · intro row hrow
    rcases h.rows row hrow with ⟨e, he, hrest⟩
    exact ⟨e, List.mem_append_left _ he, hrest⟩
  · intro e he
    rcases List.mem_append.1 he with he | he
    · exact h.priced e he
    · rw [List.mem_singleton.1 he]
      exact ⟨fee, hpriced⟩

theorem mem_getD_nil {α : Type} {found : Option (List α)} {a : α} :
    a ∈ found.getD [] ↔ ∃ l, found = some l ∧ a ∈ l := by
  cases found with
  | none => simp
  | some l => simp

theorem disclosureStep_meets {st : DisclosurePass} (h : Passed x chain disclosure logs st)
    (event : ConsumptionSubmitted) :
    Meets (disclosureStep x chain pricePerMinOf disclosure st event)
      (Passed x chain disclosure (logs ++ [event])) (fun _ => True) := by
  refine meets_iff.2 ⟨?_, fun _ _ => trivial⟩
  intro out hout
  rcases bind_eq_ok.1 hout with ⟨fee, hfee, hout⟩
  rcases bind_eq_ok.1 hout with ⟨paid, hpaid, hout⟩
  rcases bind_eq_ok.1 hout with ⟨rows, hrows, hout⟩
  cases hout
  have hold := h.mono (okOr_eq_ok.1 hfee)
  have hlast : event ∈ logs ++ [event] := by simp
  refine ⟨?_, ?_, hold.priced⟩
  · intro user fee' hget
    rw [Std.ExtTreeMap.getElem?_insert] at hget
    split at hget
    · rename_i hkey
      have hpaid' : paid = fee := by
        unfold tryU128 at hpaid
        split at hpaid
        · exact (Except.ok.inj hpaid).symm
        · cases hpaid
      rw [Option.some.injEq] at hget
      refine ⟨event, hlast, (Std.compare_eq_iff_eq.1 hkey).symm, ?_⟩
      rw [← hget, hpaid']
      exact okOr_eq_ok.1 hfee
    · exact hold.fees user fee' hget
  · intro row hrow
    rcases List.mem_append.1 hrow with hrow | hrow
    · exact hold.rows row hrow
    · -- The row comes from an opening of the submitter.
      have hall := (meets_mapM fun o _ =>
        openingRow_meets x pricePerMinOf (Address.display x.hex event.user) o).of_ok hrows
      rcases List.mem_iff_getElem.1 hrow with ⟨i, hi, rfl⟩
      have hlength := hall.length_eq
      have hrow' : rows[i].user = Address.display x.hex event.user ∧ _ :=
        hall.get (i := i) (by omega) hi
      have hi' : i < ((disclosure.forUser (Address.display x.hex event.user)).getD []).length :=
        hlength ▸ hi
      rcases mem_getD_nil.1 (List.getElem_mem hi') with ⟨openings, hopenings, ho⟩
      refine ⟨event, hlast, hrow'.1, openings, ?_, _, ho, hrow'.2⟩
      rw [hrow'.1]
      exact hopenings

theorem disclosurePass_meets (disclosure : Disclosure) (logs : List ConsumptionSubmitted) :
    Meets (logs.foldlM (disclosureStep x chain pricePerMinOf disclosure) ⟨∅, []⟩)
      (Passed x chain disclosure logs) (fun _ => True) := by
  refine Meets.foldlM (Passed x chain disclosure) ⟨by simp, by simp, by simp⟩ ?_
  intro done event rest st _ hst
  exact disclosureStep_meets hst event

/-! ## The settlement -/

/-- What a settlement in disclosure mode was made from. -/
structure MadeFrom (x : Externals) (chain : ChainReads) (disclosure : Disclosure)
    (logs : List ConsumptionSubmitted) (s : Settlement) (fees : BTreeMap UserId Nat)
    (rows : List RawRow) (ppm : List Nat) (payouts : Payouts) : Prop where
  paid : ∀ user fee, fees[user]? = some fee → FeeOf x chain logs user fee
  played : ∀ r ∈ rows, DisclosedBy x disclosure logs r.user r.work
  priced : ∀ event ∈ logs, ∃ fee, chain.feeOf event.tierId = some fee
  allocated : allocateFromRawWithRowCredibility fees rows ppm = .ok payouts
  finalized : Finalized x.hex x.keccak256 (escrowSet x disclosure) payouts s

theorem runDisclosure_madeFrom {epoch : Nat} {s : Settlement}
    (h : runDisclosure x chain pricePerMinOf epoch (some disclosure) logs = .ok s) :
    ∃ fees rows ppm payouts, MadeFrom x chain disclosure logs s fees rows ppm payouts := by
  rcases bind_eq_ok.1 h with ⟨d, hd, h⟩
  cases hd
  rcases bind_eq_ok.1 h with ⟨pass, hpass, h⟩
  have hpassed := (disclosurePass_meets disclosure logs).of_ok (mapErr_eq_ok.1 hpass)
  rcases bind_eq_ok.1 (mapErr_eq_ok.1 h) with ⟨payouts, hpayouts, hfinalize⟩
  rcases bind_eq_ok.1 (mapErr_eq_ok.1 hpayouts) with ⟨rows, hrows, hallocate⟩
  refine ⟨pass.tierFees, rows, _, payouts, hpassed.fees, ?_, hpassed.priced, hallocate,
    (finalize_meets x.hex x.keccak256 _ epoch payouts).of_ok hfinalize⟩
  intro r hr
  have hall := (meets_mapM fun row _ => rawRowOf_meets (by decide) row).of_ok hrows
  rcases List.mem_iff_getElem.1 hr with ⟨i, hi, rfl⟩
  have hrow : rows[i].user = _ ∧ rows[i].work = _ := hall.get (i := i) (hall.length_eq ▸ hi) hi
  rw [hrow.1, hrow.2]
  exact hpassed.rows _ (List.getElem_mem (hall.length_eq ▸ hi))

theorem mem_escrowSet {work : WorkId} : work ∈ escrowSet x disclosure ↔
    ∃ w ∈ disclosure.escrowWorks, Bytes32.display x.hex w = work := by
  have hgen : ∀ (ws : List Bytes32) (works : BTreeSet WorkId),
      work ∈ ws.foldl (fun works w => works.insert (Bytes32.display x.hex w)) works ↔
        work ∈ works ∨ ∃ w ∈ ws, Bytes32.display x.hex w = work := by
    intro ws
    induction ws with
    | nil => simp
    | cons w ws ih =>
        intro works
        rw [List.foldl_cons, ih]
        simp only [Std.ExtTreeSet.mem_insert, Std.compare_eq_iff_eq, List.mem_cons,
          exists_eq_or_imp]
        tauto
  rw [escrowSet, hgen]
  simp

theorem sum_flatMap {α : Type} (l : List α) (f : α → List Nat) :
    (l.flatMap f).sum = (l.map fun a => (f a).sum).sum := by
  induction l with
  | nil => rfl
  | cons a l ih => simp [ih]

/-- The values under one key of a map add up to its value there. -/
theorem sum_at_key (m : BTreeMap String Nat) (k : String) :
    (m.toList.map fun e => if e.1 = k then e.2 else 0).sum = m.getD k 0 := by
  have hsplit : ∀ l : List (String × Nat), (l.map fun e => if e.1 = k then e.2 else 0).sum =
      ((l.filter fun e => e.1 = k).map Prod.snd).sum := by
    intro l
    induction l with
    | nil => rfl
    | cons e l ih =>
        by_cases he : e.1 = k
        · simp [he, ih]
        · simp [he, ih]
  rw [hsplit, Std.ExtTreeMap.getD_eq_getD_getElem?]
  cases hget : m[k]? with
  | some v =>
      rw [BTreeMap.filter_key_eq (BTreeMap.nodup_keys m) (BTreeMap.mem_toList.2 hget)]
      simp
  | none =>
      have hnone : m.toList.filter (fun e => e.1 = k) = [] := by
        rw [List.filter_eq_nil_iff]
        rintro ⟨k', v⟩ he hkey
        have hk : k' = k := by simpa using hkey
        rw [BTreeMap.mem_toList, hk, hget] at he
        cases he
      simp [hnone]

namespace MadeFrom

variable {s : Settlement} {fees : BTreeMap UserId Nat} {rows : List RawRow} {ppm : List Nat}
variable {payouts : Payouts}

/-- Every credited work has a row. -/
theorem credited (h : MadeFrom x chain disclosure logs s fees rows ppm payouts) {work : WorkId}
    (hwork : work ∈ payouts.perWork) : ∃ r ∈ rows, r.work = work := by
  rcases allocate_ok h.allocated with ⟨st, hst, rfl⟩
  have hkey := (hst.perWork.keys work).1 hwork
  rcases List.mem_map.1 hkey with ⟨pay, hpay, rfl⟩
  rcases List.mem_flatMap.1 hpay with ⟨u, hu, hpay⟩
  rcases (paymentsOf_spec (hst.shares u hu)).2 pay hpay with ⟨e, he, hwork, -⟩
  exact ⟨e.1, (mem_of_mem_rowsOf he).1, hwork⟩

/-- A side of the settlement lists disclosed works, in or out of the escrow list as `side` says. -/
theorem disclosed (h : MadeFrom x chain disclosure logs s fees rows ppm payouts)
    {c : Bytes32 × Nat} {keep : WorkId × Nat → Bool}
    (hc : c ∈ (payouts.perWork.toList.filter keep).map (creditOf x.hex)) :
    keep (Bytes32.display x.hex c.1, c.2) = true ∧
      ∃ user, DisclosedBy x disclosure logs user (Bytes32.display x.hex c.1) := by
  rcases List.mem_map.1 hc with ⟨e, he, rfl⟩
  rcases List.mem_filter.1 he with ⟨hentry, hkeep⟩
  have hget : payouts.perWork[e.1]? = some e.2 := BTreeMap.mem_toList.1 hentry
  have hwork : e.1 ∈ payouts.perWork :=
    Std.ExtTreeMap.mem_iff_isSome_getElem?.2 (by simp [hget])
  rcases h.credited hwork with ⟨r, hr, hwork⟩
  have hdisclosed := h.played r hr
  rw [hwork] at hdisclosed
  rcases hdisclosed with ⟨event, hevent, huser, openings, hopenings, o, ho, hdisplay⟩
  have hid : Bytes32.display x.hex (creditOf x.hex e).1 = e.1 := by
    rw [creditOf, hdisplay, idOf_display]
  rw [hid]
  exact ⟨hkeep, r.user, event, hevent, huser, openings, hopenings, o, ho, hdisplay⟩

/-- Where only one user has rows, the credits are together at most that user's fee. -/
theorem sum_perWork_le (h : MadeFrom x chain disclosure logs s fees rows ppm payouts)
    {user : UserId} (honly : ∀ r ∈ rows, r.user = user) :
    (payouts.perWork.toList.map Prod.snd).sum ≤ fees.getD user 0 := by
  rcases allocate_ok h.allocated with ⟨st, hst, rfl⟩
  have htotal := hst.perWork.sum_filter fun _ => True
  simp only [decide_true, List.filter_true] at htotal
  change (st.perWork.toList.map Prod.snd).sum ≤ _
  rw [htotal]
  calc
    ((fees.toList.flatMap fun u => paymentsOf u.2 (rowsOf rows ppm u.1)).map Prod.snd).sum
        = (fees.toList.map fun u =>
            ((paymentsOf u.2 (rowsOf rows ppm u.1)).map Prod.snd).sum).sum := by
          rw [List.map_flatMap, sum_flatMap]
    _ ≤ (fees.toList.map fun u => if u.1 = user then u.2 else 0).sum := by
          refine List.sum_le_sum ?_
          intro u hu
          split
          · exact (paymentsOf_spec (hst.shares u hu)).1.trans (paidOf_le (rowsOf_clamped _ _ _) _)
          · -- The other users have no rows and pay nothing.
            rename_i hother
            have hnone : rowsOf rows ppm u.1 = [] := by
              refine List.eq_nil_iff_forall_not_mem.2 ?_
              intro e he
              rcases mem_of_mem_rowsOf he with ⟨hr, huser⟩
              exact hother (huser.symm.trans (honly e.1 hr))
            rw [hnone]
            simp [paymentsOf, rawSum]
    _ = fees.getD user 0 := sum_at_key fees user

end MadeFrom

end Settle
end CleanWeb
