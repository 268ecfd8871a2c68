import CoinPurse.Proofs.Draft
import CoinPurse.Proofs.Generation
import CoinPurse.Proofs.Terms

/-!
# Plans balance to the satoshi

Whatever an allocator answers, a run that hands out a plan has accounted for every satoshi: what the
inputs bring beyond the outputs is the fee, and the fee is the one owed for the transaction that
consists of exactly these inputs and outputs (`generate_balances`). The size is not an earlier
estimate: a draft counts its inputs and outputs, and the plan lists as many.
-/

namespace CoinPurse

/-- A plan under which nothing is lost, nothing is overpaid, and no change output is empty. -/
structure Plan.Balances (t : Terms) (p : Plan) : Prop where
  /-- what the inputs bring beyond the outputs is the fee -/
  conserved : (totalOf (t.fixedInputs.map (·.satoshis)) : Int) + totalOf (p.inputs.map (·.satoshis))
    - totalOf (t.fixedOutputs.map (·.satoshis)) - totalOf (p.outputs.map (·.satoshis)) = p.fee
  /-- the fee is the one owed for the size -/
  fee_eq : p.fee = t.feeModel.due p.size
  /-- the size is that of the transaction with these inputs and outputs -/
  size_eq : p.size = Size.transaction
    (t.fixedInputs.map (·.unlockingScript) ++ List.replicate p.inputs.length t.unlockingScript)
    (t.fixedOutputs.map (·.lockingScript) ++ List.replicate p.outputs.length t.lockingScript)
  /-- the rate is the one of the terms -/
  rate_eq : p.rate = t.feeModel.rate
  /-- every change output is worth something and has the script length of the terms -/
  outputs_pay : ∀ o ∈ p.outputs, 1 ≤ o.satoshis ∧ o.lockingScript = t.lockingScript

variable {σ ε : Type}

/-- No turn leaves an empty change output. -/
theorem Turn.paying {a : Allocator σ ε} {t : Terms} {g g' : Stage σ ε} (ht : t.Accepted)
    (h : g.run.draft.Paying) (hturn : Turn a t g g') : g'.run.draft.Paying := by
  cases hturn with
  | claim hshort hreply => exact h.accept ht.initial_pos ht.first_pos _ _
  | @starve _ _ s s' source hshort hchange hreply hback =>
    obtain ⟨-, hdraft⟩ := Progress.giveBack_of_releaseAll hback
    rw [Progress.starve, hdraft]
    exact Draft.Paying.retreat h

/-- The plan of a draft counts the inputs and outputs it lists. -/
theorem Draft.size_plan (t : Terms) (d : Draft) (amounts : List Nat) (fee : Nat)
    (h : amounts.length = d.change.size) :
    (d.plan t amounts fee).size
      = t.sizeFor (d.plan t amounts fee).inputs.length (d.plan t amounts fee).outputs.length := by
  rw [length_inputs_plan, length_outputs_plan, h]
  exact d.sizeWith_eq t 0 0

/-- A funded draft whose excess is distributed makes a plan that balances. -/
theorem Draft.balances_plan {t : Terms} {d : Draft} {amounts : List Nat} {draws draws' : Draws}
    (hcovered : 0 ≤ d.excess t) (hchange : d.change.size = 0 → d.excess t = 0) (hpaying : d.Paying)
    (hfinish : d.finish t draws = (amounts, draws')) :
    (d.plan t amounts (d.dueWith t 0 0)).Balances t := by
  obtain rfl : (d.finish t draws).1 = amounts := by rw [hfinish]
  have hlength := Draft.length_finish (t := t) (d := d) draws
  have htotal := Draft.totalOf_finish draws hcovered hchange
  have hinputs : totalOf ((d.plan t (d.finish t draws).1 (d.dueWith t 0 0)).inputs.map (·.satoshis))
      = d.claimed.total := d.claimed.totalOf_toList
  have houtputs :
      totalOf ((d.plan t (d.finish t draws).1 (d.dueWith t 0 0)).outputs.map (·.satoshis))
        = totalOf (d.finish t draws).1 := by
    simp only [plan, List.map_map]
    exact congrArg totalOf (List.map_id _)
  refine ⟨?_, rfl, Draft.size_plan t d _ _ hlength, rfl, ?_⟩
  · rw [hinputs, houtputs, htotal, excess, excessWith, fee, funding, Terms.inputTotal,
      Terms.outputTotal]
    simp only [plan]
    omega
  · intro o ho
    obtain ⟨amount, hmem, rfl⟩ := List.mem_map.1 ho
    have hstart : ∀ x ∈ d.change.toList, 1 ≤ x := fun x hx => hpaying x (List.mem_reverse.1 hx)
    exact ⟨(Distribution.spread_grows _ _ _ draws).forall_le hstart amount hmem, rfl⟩

/-- **Plans balance.** Whatever the allocator answers, and however the surplus is shared out, the
plan of a successful run balances. -/
theorem generate_balances (a : Allocator σ ε) (entropy : Nat → Float) (cap : Nat) (t : Terms)
    (source : σ) (p : Plan) (h : (generate a entropy cap t source).outcome = .ok p) :
    p.Balances t := by
  obtain ⟨hcheck, g, amounts, draws, hturns, hcovered, hchange, hfinish, heq⟩ := generate_ok h
  have ht := t.check_eq_ok_iff.1 hcheck
  have hpaying : g.run.draft.Paying :=
    hturns.keeps (fun _ _ hg hturn => hturn.paying ht hg)
      (Draft.paying_seed ht.initial_pos ht.first_pos)
  rw [heq] at h
  obtain rfl := Except.ok.inj h
  exact Draft.balances_plan hcovered hchange hpaying hfinish

/-- A payment from a single claim, with one change output. -/
theorem generate_balances_payment :
    (generate (Allocator.prepared none) (fun _ => 0) 3 (.payment 100 1000)
      [.ok (some ⟨1, 6000⟩)]).outcome = .ok ⟨[⟨1, 6000⟩], [⟨4977, 25⟩], 226, 23, 100⟩ ∧
    Plan.Balances (.payment 100 1000) ⟨[⟨1, 6000⟩], [⟨4977, 25⟩], 226, 23, 100⟩ :=
  ⟨rfl, generate_balances (Allocator.prepared none) (fun _ => 0) 3 (.payment 100 1000)
    [.ok (some ⟨1, 6000⟩)] _ rfl⟩

end CoinPurse
