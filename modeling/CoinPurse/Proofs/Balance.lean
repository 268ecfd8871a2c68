import CoinPurse.Generation
import CoinPurse.Proofs.Cost
import CoinPurse.Proofs.Distribution

/-!
# Funded drafts balance

Once a draft is funded, and has a change output to take what it has in excess, nothing can go wrong
any more: with the excess distributed the fee it pays is the fee it owes, so it settles, and the
plan it settles to has no problem (`Draft.settle_finish`). The checks that a plan has to pass before
it is handed out never fail a funded draft.
-/

namespace CoinPurse

namespace Tally

variable {α : Type} {worth : α → Nat}

/-- There are as many items in the list as in the stack. -/
theorem length_toList (s : Tally α worth) : s.toList.length = s.size := by
  rw [toList, List.length_reverse, s.size_eq]

/-- The items in the list are worth what the stack is. -/
theorem totalOf_toList (s : Tally α worth) : totalOf (s.toList.map worth) = s.total := by
  rw [toList, s.total_eq]
  exact totalOf_perm ((List.reverse_perm s.items).map worth)

end Tally

namespace Draft

variable {t : Terms} {d : Draft}

/-- A plan lists the claims of its draft. -/
theorem length_inputs_plan (amounts : List Nat) (fee : Nat) :
    (d.plan t amounts fee).inputs.length = d.claimed.size :=
  d.claimed.length_toList

/-- A plan lists an output for each amount. -/
theorem length_outputs_plan (amounts : List Nat) (fee : Nat) :
    (d.plan t amounts fee).outputs.length = amounts.length :=
  List.length_map _

/-- The change outputs of a plan are worth the amounts it was made with. -/
theorem changeTotal_plan (amounts : List Nat) (fee : Nat) :
    (d.plan t amounts fee).changeTotal = totalOf amounts := by
  simp only [Plan.changeTotal, plan, List.map_map]
  exact congrArg totalOf (List.map_id amounts)

/-- As many amounts are distributed over as there are change outputs. -/
theorem length_finish (draws : Draws) : (d.finish t draws).1.length = d.change.size := by
  rw [finish, ← (Distribution.spread_grows _ _ _ draws).length_eq, d.change.length_toList]

/-- There is an amount for every change output. -/
theorem length_of_finish {amounts : List Nat} {draws draws' : Draws}
    (h : d.finish t draws = (amounts, draws')) : amounts.length = d.change.size := by
  rw [← length_finish (t := t) draws, h]

/-- The amounts that are listed are worth what the change outputs are together. -/
theorem totalOf_change (d : Draft) : totalOf d.change.toList = d.change.total := by
  rw [← d.change.totalOf_toList, List.map_id]

/-- Distribution uses up the whole excess. -/
theorem totalOf_finish (draws : Draws) (hcovered : 0 ≤ d.excess t)
    (hchange : d.change.size = 0 → d.excess t = 0) :
    (totalOf (d.finish t draws).1 : Int) = d.change.total + d.excess t := by
  -- a draft without change outputs has no excess, so there is nothing that could get lost
  have hnil : d.change.toList = [] → (d.excess t).toNat = 0 := by
    intro h
    have hsize := d.change.length_toList
    rw [h] at hsize
    rw [hchange hsize.symm, Int.toNat_zero]
  rw [finish, Distribution.totalOf_spread _ draws hnil, totalOf_change]
  omega

/-- A plan that pays the fee owed has no problem. -/
theorem problems_plan {amounts : List Nat}
    (h : (totalOf amounts : Int) = d.change.total + d.excess t) :
    (d.plan t amounts (d.dueWith t 0 0)).problems t = [] := by
  have hinputs : (d.plan t amounts (d.dueWith t 0 0)).inputTotal = d.claimed.total :=
    d.claimed.totalOf_toList
  have hactual : (d.plan t amounts (d.dueWith t 0 0)).actualFee t = d.dueWith t 0 0 := by
    rw [Plan.actualFee, hinputs, changeTotal_plan, h, excess, excessWith, fee, funding]
    omega
  have hrequired : (d.plan t amounts (d.dueWith t 0 0)).requiredFee = d.dueWith t 0 0 := rfl
  have hfee : (d.plan t amounts (d.dueWith t 0 0)).fee = d.dueWith t 0 0 := rfl
  rw [Plan.problems, hactual, hrequired, hfee, if_pos rfl, if_pos rfl,
    if_neg (Int.not_lt.2 (Int.natCast_nonneg _))]
  rfl

/-- A draft whose excess is used up settles, whatever its final amounts are. -/
theorem settle_eq_ok {ε : Type} {amounts : List Nat}
    (h : (totalOf amounts : Int) = d.change.total + d.excess t) :
    (d.settle t amounts : Except (Failure ε) Plan)
      = .ok (d.plan t amounts (d.dueWith t 0 0)) := by
  have hfee : (d.funding t : Int) - t.outputTotal - totalOf amounts = (d.dueWith t 0 0 : Nat) := by
    rw [h, excess, excessWith, fee]
    omega
  have hword : ((d.dueWith t 0 0 : Nat) : Int) ≤ (Word.max64 : Nat) :=
    Int.ofNat_le.2 (t.feeModel.due_le _)
  simp only [settle]
  rw [hfee, Int.toNat_natCast, problems_plan h, if_neg]
  simp only [Bool.or_eq_true, decide_eq_true_eq, not_or, Int.not_lt]
  exact ⟨Int.natCast_nonneg _, hword⟩

/-- **Funded drafts settle.** A draft that is not short, and has nothing in excess unless a change
output can take it, settles to a plan that pays exactly the fee owed. -/
theorem settle_finish {ε : Type} (draws : Draws) (hcovered : 0 ≤ d.excess t)
    (hchange : d.change.size = 0 → d.excess t = 0) :
    (d.settle t (d.finish t draws).1 : Except (Failure ε) Plan)
      = .ok (d.plan t (d.finish t draws).1 (d.dueWith t 0 0)) :=
  settle_eq_ok (totalOf_finish draws hcovered hchange)

end Draft

end CoinPurse
