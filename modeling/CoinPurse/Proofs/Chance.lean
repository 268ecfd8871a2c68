import CoinPurse.Pool
import CoinPurse.Proofs.Generation
import CoinPurse.Proofs.Terms

/-!
# What chance decides

Random values are drawn at one point of a run only: after funding, when there is an excess to be
distributed. Funding never looks at them, so up to this point two runs whose terms differ in the
random values at most are one run (`fund_withValues`). Distribution may take a different course in
each of them, but both hand out all of the excess over the same change outputs.

So chance decides how a surplus is split among the outputs, and nothing else (`generate_akin`).
-/

namespace CoinPurse

variable {σ ε : Type}

/-- The terms with other random values. -/
def Terms.withValues (values : Option (List Float)) (t : Terms) : Terms :=
  { t with randomValues := values }

section
variable (a : Allocator σ ε) (t : Terms) (values : Option (List Float))

/-- A pass does not look at the random values. -/
theorem claimPass_withValues (growing : Bool) (rounds : Nat) (s : Progress σ ε) :
    claimPass a (t.withValues values) growing rounds s = claimPass a t growing rounds s := by
  induction rounds generalizing s with
  | zero => rfl
  | succ rounds ih =>
    -- what is computed from the terms is computed from other fields of theirs
    have hexcess : s.draft.excess (t.withValues values) = s.draft.excess t := rfl
    have hrequest : s.request a (t.withValues values) = s.request a t := rfl
    rw [claimPass, claimPass, hexcess, hrequest]
    split
    · rfl
    · split
      · rfl
      · rfl
      · exact ih _

/-- Further passes do not look at the random values. -/
theorem backtrack_withValues (n : Nat) (p : Pass σ ε) :
    backtrack a (t.withValues values) n p = backtrack a t n p := by
  induction n generalizing p with
  | zero => rfl
  | succ n ih =>
    simp only [backtrack, claimPass_withValues, ih]

/-- **Funding does not look at the random values.** -/
theorem fund_withValues (rounds : Nat) (s : Progress σ ε) :
    fund a (t.withValues values) rounds s = fund a t rounds s := by
  rw [fund, fund, claimPass_withValues, backtrack_withValues]

/-- **Nor does any run, until its excess is handed out**, as long as they pass the check. -/
theorem ready_withValues (cap : Nat) (source : σ) (hcheck : t.check = .ok ())
    (hvalues : (t.withValues values).check = .ok ()) :
    ready a cap (t.withValues values) source = ready a cap t source := by
  have hstart :
      (Progress.start (t.withValues values) source : Progress σ ε) = .start t source := rfl
  simp only [ready, hcheck, hvalues, fund_withValues, hstart]
  rfl

/-- **What draws can do.** Either a run ends in the same way whatever is drawn, and draws nothing,
or it settles the same draft, whatever is drawn. -/
theorem generate_cases (cap : Nat) (source : σ) (hcheck : t.check = .ok ()) :
    (∃ r : Report σ ε, r.drawn = [] ∧ ∀ entropy values, (t.withValues values).check = .ok () →
      generate a entropy cap (t.withValues values) source = r) ∨
    ∃ s : Progress σ ε, 0 ≤ s.draft.excess t ∧ (s.draft.change.size = 0 → s.draft.excess t = 0) ∧
      ∀ entropy values, (t.withValues values).check = .ok () →
        generate a entropy cap (t.withValues values) source
          = s.settled t (.ofValues entropy values) := by
  rcases hready : ready a cap t source with r | s
  · refine .inl ⟨r, drawn_of_ready a t cap hready, fun entropy values hvalues => ?_⟩
    rw [generate, ready_withValues a t values cap source hcheck hvalues, hready]
  · obtain ⟨-, hcovered, hchange, -⟩ := turns_of_ready a t cap hready
    refine .inr ⟨s, hcovered, hchange, fun entropy values hvalues => ?_⟩
    rw [generate, ready_withValues a t values cap source hcheck hvalues, hready,
      ← handOut_eq_settled _ hcovered hchange]
    rfl

end

/-- Two plans that differ at most in how the change is split among the outputs. -/
structure Plan.Akin (p q : Plan) : Prop where
  /-- the same inputs are claimed, in the same order -/
  inputs_eq : p.inputs = q.inputs
  /-- the transaction is of the same size -/
  size_eq : p.size = q.size
  /-- it pays the same fee -/
  fee_eq : p.fee = q.fee
  /-- at the same rate -/
  rate_eq : p.rate = q.rate
  /-- there are as many change outputs -/
  length_eq : p.outputs.length = q.outputs.length
  /-- with scripts of the same lengths -/
  scripts_eq : p.outputs.map (·.lockingScript) = q.outputs.map (·.lockingScript)
  /-- and they are worth as much together -/
  changeTotal_eq : p.changeTotal = q.changeTotal

/-- Two outcomes that are the same failure, or plans that differ at most in how the change is
split. -/
inductive Outcome.Akin : Except (Failure ε) Plan → Except (Failure ε) Plan → Prop where
  | failure (failure : Failure ε) : Akin (.error failure) (.error failure)
  | plan {p q : Plan} (h : p.Akin q) : Akin (.ok p) (.ok q)

/-- Two reports that differ at most in how the change is split, and in what was drawn for it. -/
structure Report.Akin (r r' : Report σ ε) : Prop where
  /-- the outcome is the same up to the split -/
  outcome : Outcome.Akin r.outcome r'.outcome
  /-- the allocator is left in the same state -/
  source_eq : r.source = r'.source
  /-- the same requests and releases were made, with the same answers -/
  trace_eq : r.trace = r'.trace

/-- Every report is akin to itself. -/
theorem Report.Akin.refl (r : Report σ ε) : r.Akin r := by
  refine ⟨?_, rfl, rfl⟩
  cases r.outcome with
  | error failure => exact .failure failure
  | ok p => exact .plan ⟨rfl, rfl, rfl, rfl, rfl, rfl, rfl⟩

/-- Plans of one draft with as many amounts, worth as much together, are akin. -/
theorem Draft.plan_akin (t : Terms) (d : Draft) {amounts amounts' : List Nat} (fee : Nat)
    (hlength : amounts.length = amounts'.length) (htotal : totalOf amounts = totalOf amounts') :
    (d.plan t amounts fee).Akin (d.plan t amounts' fee) where
  inputs_eq := rfl
  size_eq := rfl
  fee_eq := rfl
  rate_eq := rfl
  length_eq := by rw [length_outputs_plan, length_outputs_plan, hlength]
  scripts_eq := by
    simp only [plan, List.map_map, Function.comp_def, List.map_const', hlength]
  changeTotal_eq := by rw [changeTotal_plan, changeTotal_plan, htotal]

/-- Whatever is drawn, the whole excess goes to the same change outputs. -/
theorem Progress.settled_akin {t : Terms} {s : Progress σ ε} (hcovered : 0 ≤ s.draft.excess t)
    (hchange : s.draft.change.size = 0 → s.draft.excess t = 0) (draws draws' : Draws) :
    (s.settled t draws).Akin (s.settled t draws') := by
  have hlength : (s.draft.finish t draws).1.length = (s.draft.finish t draws').1.length :=
    (Draft.length_finish draws).trans (Draft.length_finish draws').symm
  have htotal := Draft.totalOf_finish draws hcovered hchange
  rw [← Draft.totalOf_finish draws' hcovered hchange] at htotal
  exact ⟨.plan (s.draft.plan_akin t _ hlength (Int.ofNat.inj htotal)), rfl, rfl⟩

/-- **Chance decides how a surplus is split, and nothing else.** If two runs start from the same
state of an allocator, on terms that differ in the random values at most and pass the check, then
both make the same requests and releases, and either fail in the same way, or claim the same inputs
for the same fee and leave the same amount over as many change outputs. -/
theorem generate_akin (a : Allocator σ ε) (entropy entropy' : Nat → Float) (cap : Nat) (t : Terms)
    (values values' : Option (List Float)) (source : σ)
    (hcheck : (t.withValues values).check = .ok ())
    (hcheck' : (t.withValues values').check = .ok ()) :
    (generate a entropy cap (t.withValues values) source).Akin
      (generate a entropy' cap (t.withValues values') source) := by
  -- with other values, terms with values are the terms with those
  rcases generate_cases a (t.withValues values) cap source hcheck with
    ⟨r, -, heq⟩ | ⟨s, hcovered, hchange, heq⟩
  · have hone : generate a entropy cap (t.withValues values) source = r :=
      heq entropy values hcheck
    have hother : generate a entropy' cap (t.withValues values') source = r :=
      heq entropy' values' hcheck'
    rw [hone, hother]
    exact .refl r
  · have hone : generate a entropy cap (t.withValues values) source
        = s.settled (t.withValues values) (.ofValues entropy values) :=
      heq entropy values hcheck
    have hother : generate a entropy' cap (t.withValues values') source
        = s.settled (t.withValues values) (.ofValues entropy' values') :=
      heq entropy' values' hcheck'
    rw [hone, hother]
    exact Progress.settled_akin hcovered hchange _ _

/-- A session that finds two candidates available. -/
def Holding.ofTwo : Holding :=
  ⟨⟨[⟨⟨1, 200⟩, none⟩, ⟨⟨2, 4031⟩, none⟩], 1⟩, ⟨0, []⟩⟩

/-- The terms of a payment that should leave two more change outputs than it claims inputs. -/
def Terms.twoMore : Terms := { Terms.payment 100 1000 with netCount := some 2 }

/-- A payment that leaves three change outputs with a satoshi too much, which goes to one of them or
another. -/
theorem generate_akin_threeOutputs :
    (Terms.twoMore.withValues (some [0.25, 0.75])).check = .ok () ∧
    (Terms.twoMore.withValues (some [0.5])).check = .ok () ∧
    (generate Holding.allocator (fun _ => 0) 20 (Terms.twoMore.withValues (some [0.25, 0.75]))
      .ofTwo).drawn = [0.25, 0.75] ∧
    (generate Holding.allocator (fun _ => 0) 20 (Terms.twoMore.withValues (some [0.5]))
      .ofTwo).drawn = [0.5, 0.5] ∧
    (generate Holding.allocator (fun _ => 0) 20 (Terms.twoMore.withValues (some [0.25, 0.75]))
      .ofTwo).Akin
      (generate Holding.allocator (fun _ => 0) 20 (Terms.twoMore.withValues (some [0.5]))
        .ofTwo) := by
  have hcheck : (Terms.twoMore.withValues (some [0.25, 0.75])).check = .ok () := rfl
  have hcheck' : (Terms.twoMore.withValues (some [0.5])).check = .ok () := rfl
  refine ⟨hcheck, hcheck', ?_, ?_,
    generate_akin Holding.allocator _ _ 20 .twoMore _ _ .ofTwo hcheck hcheck'⟩
  · set_option maxRecDepth 8000 in rfl
  · set_option maxRecDepth 8000 in rfl

end CoinPurse
