import CoinPurse.Proofs.Funded
import CoinPurse.Proofs.Store.Ledger

/-!
# What a payment costs

A payment is funded from a store and then completed: the inputs of its plan are spent, and its
change joins the store. Four accounts are kept of it on the way. Change generation adds up amounts,
the store keeps the claims of the run, marks what it spends, and stores what is new. They agree to
the satoshi (`fund_settles`): what can be spent afterwards is what could be spent before, more by
the fixed inputs, and less by the fixed outputs and the fee.
-/

namespace CoinPurse

open Store

namespace Store

/-- Outputs that a store has room for: they fit their columns and have outpoints of their own. -/
structure Takes (s : Store) (outputs : List NewOutput) : Prop where
  /-- place and amount of each fit their columns -/
  fits : ∀ o ∈ outputs, o.vout ≤ Word.maxSigned32 ∧ o.satoshis ≤ Word.maxSigned64
  /-- none is stored already -/
  fresh : ∀ o ∈ outputs, ∀ id, ¬ s.Knows o id
  /-- no two have one outpoint -/
  distinct : (outputs.map fun o => (o.txid, o.vout)).Nodup

/-- What a transaction that was funded with a plan makes of a store in the end. -/
structure Settles (before after : Store) (r : Request) (p : Plan) : Prop where
  /-- the fixed inputs come in, the fixed outputs and the fee go out -/
  balance_eq : ∀ worth, before.balance = .ok worth → ∃ worth' : Nat,
    (worth' : Int) = worth + totalOf (r.fixedInputs.map (·.satoshis))
      - totalOf (r.fixedOutputs.map (·.satoshis)) - p.fee ∧
    after.balance = if Word.max64 < worth' then bad .balanceOverflow else .ok worth'
  /-- the change comes in, the inputs of the plan go out -/
  count_eq : (after.count : Int) = before.count + p.outputs.length - p.inputs.length

section
variable {s next : Store} {o : NewOutput} {outputs change : List NewOutput} {run : Int}

/-! ## Completing a run succeeds -/

/-- An output that fits its columns makes a row. -/
theorem exists_row_eq_ok (hvout : o.vout ≤ Word.maxSigned32)
    (hsatoshis : o.satoshis ≤ Word.maxSigned64) (id : Int) : ∃ row, o.row id = .ok row := by
  rw [NewOutput.row, if_neg (Nat.not_lt.2 hvout), if_neg (Nat.not_lt.2 hsatoshis)]
  exact ⟨_, rfl⟩

/-- What there is room for can be stored. -/
theorem Takes.exists_insert (h : s.Takes (o :: outputs)) :
    ∃ row, o.row s.nextOutputId = .ok row ∧ s.insert o = .ok (row.id, s.push row) := by
  obtain ⟨hvout, hsatoshis⟩ := h.fits o (List.mem_cons_self ..)
  obtain ⟨row, hrow⟩ := exists_row_eq_ok hvout hsatoshis s.nextOutputId
  have hnew : ¬ s.slots.any (Slot.hasOutpoint row.txid row.vout) = true := by
    intro hany
    obtain ⟨slot, hslot, hsame⟩ := List.any_eq_true.1 hany
    exact h.fresh o (List.mem_cons_self ..) _ (knows_of_hasOutpoint hrow hslot hsame)
  refine ⟨row, hrow, ?_⟩
  simp only [insert, hrow, bind, Except.bind]
  exact if_neg hnew

/-- When one of the outputs there is room for is stored, there is still room for the others. -/
theorem Takes.push (h : s.Takes (o :: outputs)) {row : Row} {id : Int}
    (hrow : o.row id = .ok row) : (s.push row).Takes outputs := by
  obtain ⟨hother, hdistinct⟩ := List.nodup_cons.1 h.distinct
  refine ⟨fun o' ho' => h.fits o' (List.mem_cons_of_mem o ho'), ?_, hdistinct⟩
  rintro o' ho' id' ⟨row', hmem, hid, htxid, hvout⟩
  rw [rows, Store.push, List.map_append, List.mem_append] at hmem
  rcases hmem with hmem | hmem
  · exact h.fresh o' (List.mem_cons_of_mem o ho') id' ⟨row', hmem, hid, htxid, hvout⟩
  · obtain rfl : row' = row := List.mem_singleton.1 hmem
    obtain ⟨hsame, hplace⟩ := (holds_of_output hrow).outpoint_eq htxid hvout
    exact hother (List.mem_map.2 ⟨o', ho', Prod.ext hsame.symm hplace.symm⟩)

/-- All outputs there is room for can be stored. -/
theorem Takes.exists_insertAll (h : s.Takes outputs) :
    ∃ ids next, insertAll outputs s = .ok (ids, next) := by
  induction outputs generalizing s with
  | nil => exact ⟨[], s, rfl⟩
  | cons o rest ih =>
    obtain ⟨row, hrow, hinsert⟩ := h.exists_insert
    obtain ⟨ids, next, hrest⟩ := ih (h.push hrow)
    refine ⟨row.id :: ids, next, ?_⟩
    simp only [insertAll, hinsert, hrest, bind, Except.bind]
    rfl

/-- There is as much room in a store that knows no more. -/
theorem Takes.anti (h : s.Takes outputs) (hknows : ∀ o id, next.Knows o id → s.Knows o id) :
    next.Takes outputs :=
  ⟨h.fits, fun o ho id hknown => h.fresh o ho id (hknows o id hknown), h.distinct⟩

/-- Marking outputs as spent makes nothing known. -/
theorem knows_of_spendClaims (run : Int) (txid : Txid) {id : Int}
    (h : (s.spendClaims run txid).Knows o id) : s.Knows o id := by
  obtain ⟨row, hrow, hid, htxid, hvout⟩ := h
  rw [rows, spendClaims, List.map_map] at hrow
  obtain ⟨slot, hslot, rfl⟩ := List.mem_map.1 hrow
  simp only [Function.comp_apply] at hid htxid hvout
  refine ⟨slot.row, List.mem_map_of_mem hslot, ?_⟩
  split at hid <;> simp_all [Slot.spend]

/-- **Completing succeeds** if the run is open and there is room for the change. -/
theorem Regular.exists_complete (h : s.Regular) (hopen : RunRow.opened run ∈ s.runs) (txid : Txid)
    (htakes : s.Takes change) :
    ∃ settlement next, s.complete run txid change = .ok (settlement, next) := by
  have hroom : (s.spendClaims run txid).Takes change :=
    htakes.anti fun _ _ => knows_of_spendClaims run txid
  obtain ⟨ids, next, hinsert⟩ := hroom.exists_insertAll
  simp only [complete, forM_check_eq_ok htakes.fits, h.ensureOpen_eq_ok hopen, hinsert, bind,
    Except.bind]
  exact ⟨_, _, rfl⟩

/-! ## What it changes -/

/-- Outputs are worth as much once they are stored. -/
theorem satoshis_stored {ids : List Int} (h : ids.length = outputs.length) :
    (List.zipWith NewOutput.stored outputs ids).map (·.satoshis) = outputs.map (·.satoshis) := by
  induction outputs generalizing ids with
  | nil => rfl
  | cons o rest ih =>
    obtain ⟨id, later, rfl⟩ := List.exists_cons_of_length_eq_add_one h
    rw [List.zipWith_cons_cons, List.map_cons, List.map_cons, ih (Nat.succ.inj h)]
    rfl

/-- Completing a run adds its change to what is spendable. -/
theorem Regular.worth_complete (h : s.Regular) (hwritten : s.Written) {txid : Txid}
    {settlement : Settlement} (hcomplete : s.complete run txid change = .ok (settlement, next)) :
    next.worth = s.worth + totalOf (change.map (·.satoshis)) ∧
      next.count = s.count + change.length := by
  have heffect := effect_of_complete hcomplete
  have hregular' := heffect.regular h
  have hwritten' := heffect.written hwritten
  cases heffect with
  | completed hcheck hopen hinsert =>
    obtain ⟨hlength, hlisted⟩ := listed_insertAll hinsert
    rw [listed_settle] at hlisted
    constructor
    · rw [← hregular'.totalOf_listed hwritten', ← h.totalOf_listed hwritten, hlisted,
        List.map_append, totalOf_append, satoshis_stored hlength]
    · rw [← hregular'.length_listed hwritten', ← h.length_listed hwritten, hlisted,
        List.length_append, List.length_zipWith, hlength, Nat.min_self]

/-- Balances are what the spendable outputs are worth, so a store settles if these do. -/
theorem Settles.of_worth {before after : Store} {r : Request} {p : Plan} (hbefore : before.Written)
    (hafter : after.Written)
    (hworth : (after.worth : Int) = before.worth + totalOf (r.fixedInputs.map (·.satoshis))
      - totalOf (r.fixedOutputs.map (·.satoshis)) - p.fee)
    (hcount : (after.count : Int) = before.count + p.outputs.length - p.inputs.length) :
    before.Settles after r p := by
  refine ⟨fun worth hbalance => ⟨after.worth, ?_, hafter.balance_eq⟩, hcount⟩
  rw [hbefore.balance_eq] at hbalance
  split at hbalance
  · cases hbalance
  · rw [hworth, Except.ok.inj hbalance]

end

end Store

/-- What a run holds is missing from what is spendable. -/
theorem Vault.Lends.worth_eq {before : Store} {v : Vault} {held : List Candidate}
    (hlends : v.Lends before) (hholds : v.Holds before.nextRunId held) :
    before.worth = v.store.worth + totalOf (held.map (·.satoshis)) ∧
      before.count = v.store.count + held.length := by
  have hperm := hholds.regular.spendable_dropClaims before.nextRunId
  rw [spendable_congr hlends.slots_eq] at hperm
  constructor
  · have hheld := totalOf_perm (hholds.claimed.map (·.satoshis))
    rw [List.map_map] at hheld
    rw [worth, totalOf_perm (hperm.map _), List.map_append, totalOf_append, ← hheld]
    rfl
  · have hlength := hholds.claimed.length_eq
    rw [List.length_map] at hlength
    rw [count, hperm.length_eq, List.length_append, hlength, count]

/-- **The fee of a plan is what its inputs bring beyond its outputs.** -/
theorem actualFee_of_generate {σ ε : Type} {a : Allocator σ ε} {entropy : Nat → Float} {t : Terms}
    {cap : Nat} {source : σ} {p : Plan} (h : (generate a entropy cap t source).outcome = .ok p) :
    p.actualFee t = p.fee := by
  obtain ⟨-, g, amounts, draws, -, hcovered, hchange, hfinish, hreport⟩ := generate_ok h
  rw [hreport] at h
  obtain rfl := Except.ok.inj h
  have htotal := Draft.totalOf_finish (.ofValues entropy t.randomValues) hcovered hchange
  rw [hfinish] at htotal
  have hproblems := Draft.problems_plan htotal
  by_contra hne
  rw [Plan.problems, if_neg hne] at hproblems
  cases hproblems

/-- A funded run can be completed with change worth the change outputs of its plan, and with that
the store is settled. -/
theorem Wallet.settles_of_fund {w : Wallet} {entropy : Nat → Float} {r : Request} {f : Funded}
    {change : List NewOutput} (txid : Txid) (h : w.vault.Reached)
    (hfunded : (w.fund entropy r).result = .ok f)
    (hchange : (change.map (·.satoshis)).Perm (f.plan.outputs.map (·.satoshis)))
    (htakes : w.vault.store.Takes change) :
    ∃ settlement, ((w.fund entropy r).state.perform (.complete f.run txid change)).result
        = .ok (.completed settlement) ∧
      w.vault.store.Settles
        ((w.fund entropy r).state.perform (.complete f.run txid change)).state.vault.store r
        f.plan := by
  obtain ⟨-, netCount, -, hrun, houtcome, -⟩ := exists_of_fund hfunded
  obtain ⟨-, hlends, hholds⟩ := holds_of_fund h hfunded
  obtain ⟨hworth, hcount⟩ := hlends.worth_eq (hrun ▸ hholds)
  have hfunds := funds_of_fund h hfunded
  generalize (w.fund entropy r).state = w' at hlends hholds hfunds hworth hcount ⊢
  have hopen : RunRow.opened f.run ∈ w'.vault.store.runs := by
    rw [hfunds.runs_eq]
    exact List.mem_append_right _ (List.mem_singleton.2 rfl)
  have hroom : w'.vault.store.Takes change := by
    refine htakes.anti fun o id hknown => ?_
    rwa [Knows, hfunds.rows_eq] at hknown
  obtain ⟨settlement, next, hcomplete⟩ := hholds.regular.exists_complete hopen txid hroom
  have hperform : w'.vault.store.perform (.complete f.run txid change)
      = .ok (.completed settlement, next) := by
    rw [Store.perform, hcomplete]
    rfl
  have hupdate := Vault.update_eq_ok hlends.unbroken hperform
  simp only [Wallet.perform, hupdate]
  obtain ⟨hworth', hcount'⟩ := hholds.regular.worth_complete hholds.written hcomplete
  have hwritten := (effect_of_complete hcomplete).written hholds.written
  refine ⟨settlement, rfl, .of_worth h.written hwritten ?_ ?_⟩
  · have hfee := actualFee_of_generate houtcome
    have htotal := totalOf_perm hchange
    rw [hworth', hworth, totalOf_perm (f.plan.inputs.reverse_perm.map _), htotal]
    simp only [Plan.actualFee, Plan.inputTotal, Plan.changeTotal, Terms.inputTotal,
      Terms.outputTotal, Config.terms] at hfee
    omega
  · have hlength := hchange.length_eq
    rw [List.length_map, List.length_map] at hlength
    rw [hcount', hcount, List.length_reverse, hlength]
    omega

/-- **Payments settle.** Whatever operations have led to a store, a request that is funded from it
can be completed with change worth the change outputs of the plan, provided there is room for it.
Then the store is worth what it was, more by the fixed inputs, and less by the fixed outputs and the
fee. -/
theorem fund_settles (history : List Op) (config : Config) (entropy : Nat → Float) (r : Request)
    (f : Funded) (txid : Txid) (change : List NewOutput)
    (hfunded : ((Wallet.ofStore config (after history)).fund entropy r).result = .ok f)
    (hchange : (change.map (·.satoshis)).Perm (f.plan.outputs.map (·.satoshis)))
    (htakes : (after history).Takes change) :
    ∃ settlement,
      (((Wallet.ofStore config (after history)).fund entropy r).state.perform
        (.complete f.run txid change)).result = .ok (.completed settlement) ∧
      (after history).Settles
        (((Wallet.ofStore config (after history)).fund entropy r).state.perform
          (.complete f.run txid change)).state.vault.store r f.plan :=
  Wallet.settles_of_fund (w := .ofStore config (after history)) txid ⟨history, rfl⟩ hfunded hchange
    htakes

/-- The change of a payment of a thousand satoshis. -/
def Store.returned : NewOutput := ⟨⟨List.replicate 32 9, rfl⟩, 0, 1977, []⟩

/-- A store that is worth 8000 satoshis before the payment, and 6977 after it. -/
theorem fund_settles_payment :
    ((Wallet.ofStore .desiringNone (after twoOutputs)).fund (fun _ => 0) .payment).result
      = .ok ⟨1, ⟨[⟨2, 3000⟩], [⟨1977, 25⟩], 226, 23, 100⟩⟩ ∧
    ([returned].map (·.satoshis)).Perm ([ChangeOutput.mk 1977 25].map (·.satoshis)) ∧
    (after twoOutputs).Takes [returned] ∧ (after twoOutputs).balance = .ok 8000 ∧
    (((Wallet.ofStore .desiringNone (after twoOutputs)).fund (fun _ => 0) .payment).state.perform
      (.complete 1 ⟨List.replicate 32 9, rfl⟩ [returned])).state.vault.store.balance = .ok 6977 ∧
    ∃ settlement,
      (((Wallet.ofStore .desiringNone (after twoOutputs)).fund (fun _ => 0) .payment).state.perform
        (.complete 1 ⟨List.replicate 32 9, rfl⟩ [returned])).result
        = .ok (.completed settlement) ∧
      (after twoOutputs).Settles
        (((Wallet.ofStore .desiringNone (after twoOutputs)).fund
          (fun _ => 0) .payment).state.perform
            (.complete 1 ⟨List.replicate 32 9, rfl⟩ [returned])).state.vault.store .payment
        ⟨[⟨2, 3000⟩], [⟨1977, 25⟩], 226, 23, 100⟩ := by
  have htakes : (after twoOutputs).Takes [returned] := by
    refine ⟨by decide, ?_, by decide⟩
    rintro o ho id ⟨row, hrow, -, htxid, -⟩
    obtain rfl := List.mem_singleton.1 ho
    have hnew : ∀ row ∈ (after twoOutputs).rows, row.txid ≠ .bytes returned.txid.bytes := by decide
    exact hnew row hrow htxid
  exact ⟨rfl, .refl _, htakes, rfl, rfl,
    fund_settles twoOutputs .desiringNone (fun _ => 0) .payment
      ⟨1, ⟨[⟨2, 3000⟩], [⟨1977, 25⟩], 226, 23, 100⟩⟩ ⟨List.replicate 32 9, rfl⟩ [returned] rfl
      (.refl _) htakes⟩

end CoinPurse
