import CoinPurse.Proofs.Funded

/-!
# Funding can be repeated

A run that was funded and then aborted is still in the store, so the store is not what it was. But
change generation does not notice. It sees what is spendable and nothing else: a run that is opened
ends like a session on a pool of these outputs (`Wallet.attempt_same`), and the net count that a
basket asks for depends on their number. Aborting the run brings back the outputs as they were
(`Wallet.abort_of_fund`), so the same request is funded with the same plan (`fund_repeats`).

The random values have to be given, since others are not drawn twice.
-/

namespace CoinPurse

open Store

/-- Of two runs with one outcome, either has the plan that the other has. -/
theorem Outcome.Same.ok_iff {ε ε' : Type} {x : Except (Failure ε) Plan}
    {y : Except (Failure ε') Plan} (h : Outcome.Same x y) (p : Plan) :
    x = .ok p ↔ y = .ok p := by
  cases h <;> simp

section
variable {w w' : Wallet} {r : Request} {netCount : Option Int}

/-- **A run that is opened sees what is spendable.** If random values are given, change generation
for it has the outcome of a session on a pool of these outputs. -/
theorem Wallet.attempt_same (h : w.vault.Reached)
    (hvalues : Draws.isReplay r.randomValues = true) (entropy entropy' : Nat → Float)
    (netCount : Option Int) :
    Outcome.Same (w.attempt entropy r netCount).outcome
      (generate Holding.allocator entropy' defaultRounds (w.config.terms r netCount)
        (Pool.ofList (w.vault.store.listed.map Output.candidate)).openSession).outcome := by
  have hregular := h.regular
  have hnone : w.vault.store.begin.2.claimed w.vault.store.nextRunId = [] :=
    hregular.numbered.claimed_nextRunId
  have hopen : RunRow.opened w.vault.store.nextRunId ∈ w.vault.store.begin.2.runs :=
    List.mem_append_right _ (List.mem_singleton.2 rfl)
  have hmirrors := mirrors_openSession hregular.begin h.written hopen hnone
    (hregular.listed_candidates h.written)
  have hdraws := Draws.ofValues_of_isReplay hvalues entropy entropy'
  exact ((allocator_alike _).generate (t := w.config.terms r netCount) defaultRounds hdraws
    hmirrors).same.outcome

/-- A plan that comes of a request comes of it in any store with the same outputs and the same
claims on them, if random values are given. -/
theorem Wallet.attempt_eq_ok (h : w.vault.Reached) (h' : w'.vault.Reached)
    (hconfig : w'.config = w.config) (hslots : w'.vault.store.slots = w.vault.store.slots)
    (hvalues : Draws.isReplay r.randomValues = true) {entropy : Nat → Float} {p : Plan}
    (hok : (w.attempt entropy r netCount).outcome = .ok p) (entropy' : Nat → Float) :
    (w'.attempt entropy' r netCount).outcome = .ok p := by
  have hlisted : w'.vault.store.listed = w.vault.store.listed :=
    congrArg outputsOf (spendable_congr hslots)
  have hsame := w'.attempt_same h' hvalues entropy' entropy netCount
  rw [hlisted, hconfig] at hsame
  rw [hsame.ok_iff, ← (w.attempt_same h hvalues entropy entropy netCount).ok_iff]
  exact hok

/-- The net count asked for is the same in a store with the same spendable outputs. -/
theorem Wallet.netCount_congr {v : Vault} (hbroken : v.broken = w.vault.broken)
    (hslots : v.store.slots = w.vault.store.slots) :
    Wallet.netCount { w with vault := v } r = w.netCount r := by
  simp only [Wallet.netCount, Vault.ask, count, spendable_congr hslots, hbroken]

/-- Aborting a funded run gives back the inputs of its plan. Outputs and claims are as before. -/
theorem Wallet.abort_of_fund {entropy : Nat → Float} {f : Funded} (h : w.vault.Reached)
    (hfunded : (w.fund entropy r).result = .ok f) :
    (w.fund entropy r).state.perform (.abort f.run)
      = ⟨.ok (.aborted f.plan.inputs.length), { w with vault :=
          ⟨⟨w.vault.store.slots, w.vault.store.runs ++ [.aborted f.run]⟩, false⟩ },
          [abortLine f.run f.plan.inputs.length]⟩ := by
  obtain ⟨-, netCount, -, -, -, hstate⟩ := exists_of_fund hfunded
  obtain ⟨hrun, hlends, hholds⟩ := holds_of_fund h hfunded
  rw [hstate] at hlends hholds ⊢
  obtain ⟨released, habort⟩ := hlends.abort h.regular.numbered
  obtain ⟨next, habort, hnext⟩ := Vault.exists_of_update habort
  rw [← hrun] at habort hnext
  -- the store counts what the run claims
  obtain rfl : released = f.plan.inputs.length := by
    have hlength := hholds.claimed.length_eq
    rw [List.length_map, List.length_reverse] at hlength
    cases effect_of_abort habort with
    | aborted => exact hlength
  have hperform : (w.attempt entropy r netCount).source.store.perform (.abort f.run)
      = .ok (.aborted f.plan.inputs.length, next) := by
    rw [Store.perform, habort]
    rfl
  simp only [Wallet.perform, Vault.update_eq_ok hlends.unbroken hperform, ← hnext, Op.lines]

/-- A request that was funded is funded again after the run was aborted, with the same plan. -/
theorem Wallet.fund_again {entropy : Nat → Float} {f : Funded} (h : w.vault.Reached)
    (hvalues : Draws.isReplay r.randomValues = true)
    (hfunded : (w.fund entropy r).result = .ok f) (entropy' : Nat → Float) :
    (((w.fund entropy r).state.perform (.abort f.run)).state.fund entropy' r).result
      = .ok ⟨f.run + 1, f.plan⟩ := by
  obtain ⟨hunbroken, netCount, hcount, hrun, houtcome, -⟩ := exists_of_fund hfunded
  have hreached : ((w.fund entropy r).state.perform (.abort f.run)).state.vault.Reached :=
    (w.reached_fund h entropy r).perform (.abort f.run)
  rw [abort_of_fund h hfunded] at hreached ⊢
  have hcount' := (netCount_congr (w := w) (r := r) (v := ⟨⟨w.vault.store.slots,
    w.vault.store.runs ++ [.aborted f.run]⟩, false⟩) hunbroken.symm rfl).trans hcount
  have hattempt := attempt_eq_ok h hreached rfl rfl hvalues houtcome entropy'
  have hnext : nextRunId ⟨w.vault.store.slots, w.vault.store.runs ++ [.aborted f.run]⟩
      = f.run + 1 := by
    rw [hrun, nextRunId, nextRunId, List.length_append]
    rfl
  rw [(fund_of_ok rfl hcount' hattempt).1, hnext]

end

/-- **Funding can be repeated.** Whatever operations have led to a store, if a request with random
values is funded from it and the run is aborted, then the inputs of the plan are given back, and the
request is funded with the same plan for another run. That is so with the net count of the request
as with that of the basket. -/
theorem fund_repeats (history : List Op) (config : Config) (entropy entropy' : Nat → Float)
    (r : Request) (f : Funded) (hvalues : Draws.isReplay r.randomValues = true)
    (hfunded : ((Wallet.ofStore config (after history)).fund entropy r).result = .ok f) :
    (((Wallet.ofStore config (after history)).fund entropy r).state.perform (.abort f.run)).result
        = .ok (.aborted f.plan.inputs.length) ∧
      ∃ run, run ≠ f.run ∧
        ((((Wallet.ofStore config (after history)).fund entropy r).state.perform
          (.abort f.run)).state.fund entropy' r).result = .ok ⟨run, f.plan⟩ := by
  have hreached : (Wallet.ofStore config (after history)).vault.Reached := ⟨history, rfl⟩
  constructor
  · rw [Wallet.abort_of_fund hreached hfunded]
  · exact ⟨f.run + 1, by omega, Wallet.fund_again hreached hvalues hfunded entropy'⟩

/-- A wallet's setup that asks for three outputs of three thousand satoshis. -/
def Config.desiringThree : Config :=
  { Config.standard with
    basket := { Basket.standard with desiredCount := 3, minimumSatoshis := 3000 } }

/-- A payment for which a random value is given. -/
def Request.replayed : Request := { Request.payment with randomValues := some [0.5] }

/-- With two outputs in the store the basket lacks one, each time. -/
theorem fund_repeats_desiringThree :
    Draws.isReplay Request.replayed.randomValues = true ∧
    ((Wallet.ofStore .desiringThree (after twoOutputs)).fund (fun _ => 0) .replayed).result
      = .ok ⟨1, ⟨[⟨1, 5000⟩], [⟨974, 25⟩, ⟨3000, 25⟩], 260, 26, 100⟩⟩ ∧
    (((Wallet.ofStore .desiringThree (after twoOutputs)).fund (fun _ => 0) .replayed).state.perform
      (.abort 1)).result = .ok (.aborted 1) ∧
    ∃ run, run ≠ 1 ∧
      ((((Wallet.ofStore .desiringThree (after twoOutputs)).fund
        (fun _ => 0) .replayed).state.perform (.abort 1)).state.fund (fun _ => 1) .replayed).result
        = .ok ⟨run, ⟨[⟨1, 5000⟩], [⟨974, 25⟩, ⟨3000, 25⟩], 260, 26, 100⟩⟩ :=
  have hfunded :
      ((Wallet.ofStore .desiringThree (after twoOutputs)).fund (fun _ => 0) .replayed).result
        = .ok ⟨1, ⟨[⟨1, 5000⟩], [⟨974, 25⟩, ⟨3000, 25⟩], 260, 26, 100⟩⟩ := by
    set_option maxRecDepth 8000 in rfl
  ⟨rfl, hfunded,
    fund_repeats twoOutputs .desiringThree (fun _ => 0) (fun _ => 1) .replayed _ rfl hfunded⟩

end CoinPurse
