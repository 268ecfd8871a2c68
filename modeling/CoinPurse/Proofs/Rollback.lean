import CoinPurse.Proofs.Generation
import CoinPurse.Proofs.Store.Numbered
import CoinPurse.Wallet

/-!
# A failed funding leaves nothing behind

Funding may fail at any point: before the run has claimed anything, between two claims, when it is
out of funds, or while it gives claims back. Change generation itself keeps its claims on most of
these occasions, and the wallet aborts the run once for all of them. That is enough
(`fund_undone`), whatever has been written to the store from outside.

What carries the proof is that the run only ever *borrows* outputs: without its claims the outputs
are at any time as they were before it was opened (`Vault.Lends`). No answer of the store to the run
changes that, be it a fault, and aborting the run drops exactly these claims.
-/

namespace CoinPurse

namespace Store

/-- A store in which nothing is left of a run but, at most, that it was aborted. -/
structure Undone (before after : Store) : Prop where
  /-- the outputs are as they were, and so are the claims on them -/
  slots_eq : after.slots = before.slots
  /-- the runs are as they were, but for one more at most, which is aborted -/
  runs_eq : after.runs = before.runs ∨ after.runs = before.runs ++ [.aborted before.nextRunId]
  /-- that run claims nothing -/
  claimed_eq : after.claimed before.nextRunId = []
  /-- the same outputs can be spent -/
  list_eq : after.list = before.list
  /-- they are worth as much -/
  balance_eq : after.balance = before.balance
  /-- there are as many of them -/
  count_eq : after.count = before.count

variable {s before after : Store} {run : Int}

/-- What can be spent depends on the outputs and the claims on them. -/
theorem spendable_congr (h : after.slots = before.slots) : after.spendable = before.spendable := by
  rw [spendable, spendable, h]

/-- A store is undone if the outputs and the claims on them are as they were, and at most an aborted
run was added. -/
theorem Numbered.undone (h : before.Numbered) (hslots : after.slots = before.slots)
    (hruns : after.runs = before.runs ∨ after.runs = before.runs ++ [.aborted before.nextRunId]) :
    before.Undone after where
  slots_eq := hslots
  runs_eq := hruns
  claimed_eq := by
    rw [claimed, hslots]
    exact h.claimed_nextRunId
  list_eq := by rw [list, list, spendable_congr hslots]
  balance_eq := by rw [balance, balance, spendable_congr hslots]
  count_eq := by rw [count, count, spendable_congr hslots]

/-- An output that the run may claim loses that claim. -/
theorem dropped_eq {row : Row} {claim : Option Int} (h : claim = none ∨ claim = some run) :
    (if Slot.isClaimedBy run ⟨row, claim⟩ then ⟨row, none⟩ else ⟨row, claim⟩ : Slot)
      = ⟨row, none⟩ := by
  rcases h with rfl | rfl
  · rw [if_neg]
    simp [Slot.isClaimedBy]
  · rw [if_pos]
    simp [Slot.isClaimedBy]

/-- A claim that is dropped anyway may as well not be made, or be lifted before. -/
theorem slots_dropClaims_setClaim (hids : (s.slots.map (·.row.id)).Nodup) {slot : Slot}
    {claim : Option Int} (hslot : slot ∈ s.slots)
    (hbefore : slot.claim = none ∨ slot.claim = some run)
    (hafter : claim = none ∨ claim = some run) :
    ((s.setClaim slot.row.id claim).dropClaims run).slots = (s.dropClaims run).slots := by
  simp only [setClaim, dropClaims, List.map_map]
  refine List.map_congr_left fun other hother => ?_
  simp only [Function.comp_apply]
  by_cases hid : other.hasId slot.row.id = true
  · -- ids are unique, so this is the output in question
    obtain rfl : other = slot :=
      List.inj_on_of_nodup_map hids hother hslot (by simpa [Slot.hasId] using hid)
    rw [if_pos hid]
    exact (dropped_eq hafter).trans (dropped_eq hbefore).symm
  · rw [if_neg hid]

end Store

open Store

/-- An operation leaves the store as it was, or it succeeds. -/
theorem Vault.update_cases {α : Type} (v : Vault) (act : Store → Except Fault (α × Store)) :
    (v.update act).2 = v ∨ ∃ answer next, act v.store = .ok (answer, next) ∧
      (v.update act).2 = { v with store := next } := by
  rw [update]
  split
  · exact .inl rfl
  · cases hresult : act v.store with
    | error fault => exact .inl rfl
    | ok result => exact .inr ⟨result.1, result.2, rfl, rfl⟩

/-- Apart from a run that is open, and claims it may hold, a store that can be used is as it was
before. -/
structure Vault.Lends (before : Store) (v : Vault) : Prop where
  /-- the store can be used -/
  unbroken : v.broken = false
  /-- the run was opened, and is open -/
  runs_eq : v.store.runs = before.runs ++ [.opened before.nextRunId]
  /-- without its claims, the outputs are as they were -/
  slots_eq : (v.store.dropClaims before.nextRunId).slots = before.slots

namespace Vault.Lends

variable {before next : Store} {v : Vault}

/-- A run that was just opened has no claims. -/
theorem begin (h : before.Numbered) : Lends before ⟨before.begin.2, false⟩ where
  unbroken := rfl
  runs_eq := rfl
  slots_eq := by
    refine (List.map_congr_left fun slot hslot => ?_).trans (List.map_id _)
    rw [if_neg]
    · rfl
    · simpa [Slot.isClaimedBy] using h.claim_ne_nextRunId hslot

/-- No two outputs have one id. -/
theorem nodup_slot_ids (hlends : Lends before v) (h : before.Numbered) :
    (v.store.slots.map (·.row.id)).Nodup := by
  have hids : (v.store.dropClaims before.nextRunId).slots.map (·.row.id)
      = v.store.slots.map (·.row.id) := by
    rw [dropClaims, List.map_map]
    refine List.map_congr_left fun slot _ => ?_
    simp only [Function.comp_apply]
    split <;> rfl
  rw [← hids, hlends.slots_eq]
  exact h.nodup_slot_ids

/-- Making or lifting a claim of the run lends. -/
theorem setClaim (hlends : Lends before v) (h : before.Numbered) {slot : Slot}
    {claim : Option Int} (hslot : slot ∈ v.store.slots)
    (hbefore : slot.claim = none ∨ slot.claim = some before.nextRunId)
    (hafter : claim = none ∨ claim = some before.nextRunId) :
    Lends before { v with store := v.store.setClaim slot.row.id claim } where
  unbroken := hlends.unbroken
  runs_eq := hlends.runs_eq
  slots_eq := (slots_dropClaims_setClaim (hlends.nodup_slot_ids h) hslot hbefore hafter).trans
    hlends.slots_eq

/-- An operation that only lends as long as it succeeds lends in any case. -/
theorem update {α : Type} {act : Store → Except Fault (α × Store)} (hlends : Lends before v)
    (hact : ∀ answer next, act v.store = .ok (answer, next) →
      Lends before { v with store := next }) : Lends before (v.update act).2 := by
  rcases v.update_cases act with heq | ⟨answer, next, hresult, heq⟩
  · rwa [heq]
  · rw [heq]
    exact hact answer next hresult

end Vault.Lends

/-- **The store only lends** to the run, whatever it answers. -/
theorem Vault.allocator_keeps {before : Store} (h : before.Numbered) :
    (Vault.allocator before.nextRunId).Keeps (Vault.Lends before) where
  claim ask v hlends := by
    refine hlends.update fun answer next hallocate => ?_
    cases effect_of_allocate hallocate with
    | unanswered => exact hlends
    | claimed hopen hpick hread =>
      obtain ⟨slot, hslot, hfree, rfl⟩ := mem_spendable_iff.1 (mem_of_pick hpick)
      exact hlends.setClaim h hslot (.inl (Slot.claim_of_isSpendable hfree)) (.inr rfl)
  release id v hlends := by
    refine hlends.update fun answer next hrelease => ?_
    cases effect_of_release hrelease with
    | released hopen hslot hid hheld =>
      subst hid
      exact hlends.setClaim h hslot (.inr hheld) (.inl rfl)

namespace Vault.Lends

variable {before : Store} {v : Vault}

/-- The run passes for open. -/
theorem ensureOpen (hlends : Lends before v) (h : before.Numbered) :
    v.store.ensureOpen before.nextRunId = .ok () := by
  have hfind : v.store.runs.find? (·.id == before.nextRunId)
      = some (.opened before.nextRunId) := by
    rw [hlends.runs_eq, List.find?_append, h.find?_nextRunId]
    simp [RunRow.opened]
  rw [Store.ensureOpen, hfind]
  rfl

/-- Without the claims, and with the run aborted, the store is as it was but for that run. -/
theorem withdraw_eq (hlends : Lends before v) (h : before.Numbered) :
    v.store.withdraw before.nextRunId
      = ⟨before.slots, before.runs ++ [.aborted before.nextRunId]⟩ := by
  have hruns : (v.store.withdraw before.nextRunId).runs
      = before.runs ++ [.aborted before.nextRunId] := by
    simp only [withdraw, setRun, dropClaims, hlends.runs_eq, List.map_append, List.map_singleton]
    congr 1
    · refine (List.map_congr_left fun row hrow => ?_).trans (List.map_id _)
      rw [if_neg]
      · rfl
      · simp only [beq_iff_eq]
        exact fun hid => h.nextRunId_not_mem (List.mem_map.2 ⟨row, hrow, hid⟩)
    · simp [RunRow.opened, RunRow.aborted]
  have hslots : (v.store.withdraw before.nextRunId).slots = before.slots := hlends.slots_eq
  rw [← hruns, ← hslots]

/-- **Aborting the run gives back all that was lent**, and always succeeds. -/
theorem abort (hlends : Lends before v) (h : before.Numbered) :
    ∃ released, v.update (Store.abort before.nextRunId) = (.ok released,
      ⟨⟨before.slots, before.runs ++ [.aborted before.nextRunId]⟩, false⟩) := by
  obtain ⟨store, broken⟩ := v
  obtain rfl : broken = false := hlends.unbroken
  have hopen : store.ensureOpen before.nextRunId = .ok () := hlends.ensureOpen h
  have habort : store.abort before.nextRunId = .ok ((store.claimed before.nextRunId).length,
      store.withdraw before.nextRunId) := by
    rw [Store.abort, hopen]
    rfl
  have hwithdrawn : store.withdraw before.nextRunId = _ := hlends.withdraw_eq h
  refine ⟨(store.claimed before.nextRunId).length, ?_⟩
  simp only [Vault.update, habort, hwithdrawn, Bool.false_eq_true, if_false]

end Vault.Lends

namespace Wallet

/-- Change generation for the run that is opened to fund a request, with this net count. -/
def attempt (w : Wallet) (entropy : Nat → Float) (r : Request) (netCount : Option Int) :
    Report Vault AccessFault :=
  generate (Vault.allocator w.vault.store.nextRunId) entropy defaultRounds
    (w.config.terms r netCount) ⟨w.vault.store.begin.2, false⟩

/-- Why funding a request fails: nobody may use the store any more, or no change could be generated
for the run that was opened. -/
inductive Fails (w : Wallet) (entropy : Nat → Float) (r : Request) : WalletFault → Prop where
  /-- the store is broken, so no run is opened -/
  | broken (hbroken : w.vault.broken = true) : Fails w entropy r (.access .broken)
  /-- change generation fails -/
  | generation {netCount : Option Int} {failure : Failure AccessFault}
      (hunbroken : w.vault.broken = false) (hcount : w.netCount r = .ok netCount)
      (hfailure : (w.attempt entropy r netCount).outcome = .error failure) :
      Fails w entropy r (.generation failure)

section
variable {w : Wallet} {entropy : Nat → Float} {r : Request} {netCount : Option Int}

/-- A store that can be used says how many outputs the basket lacks. -/
theorem exists_netCount (hunbroken : w.vault.broken = false) :
    ∃ netCount, w.netCount r = .ok netCount := by
  rw [Wallet.netCount]
  split
  · exact ⟨_, rfl⟩
  · split
    · exact ⟨_, rfl⟩
    · simp only [Vault.ask, hunbroken]
      exact ⟨_, rfl⟩

/-- A broken store is left alone. -/
theorem fund_of_broken (hbroken : w.vault.broken = true) :
    w.fund entropy r = ⟨.error (.access .broken), w, []⟩ := by
  simp only [fund, Vault.update, hbroken, if_true]

/-- With a store that is not broken, change is generated for a run that is opened. -/
theorem fundRun_begin (entropy : Nat → Float) (hunbroken : w.vault.broken = false)
    (hcount : w.netCount r = .ok netCount) :
    ({ w with vault := ⟨w.vault.store.begin.2, false⟩ } : Wallet).fundRun entropy
        w.vault.store.begin.1 r
      = ⟨(w.attempt entropy r netCount).outcome.mapError .generation,
          (w.attempt entropy r netCount).source,
          (w.attempt entropy r netCount).lines (w.config.terms r netCount)
            fun c => [claimLine w.vault.store.nextRunId c]⟩ := by
  obtain ⟨config, store, broken⟩ := w
  obtain rfl : broken = false := hunbroken
  -- opening a run leaves the outputs alone, so the count is the same
  have hcount' : Wallet.netCount ⟨config, store.begin.2, false⟩ r = .ok netCount := hcount
  simp only [fundRun, hcount']
  rfl

/-- If change generation succeeds for the new run, so does funding, and the store is left as it
is. -/
theorem fund_of_ok {p : Plan} (hunbroken : w.vault.broken = false)
    (hcount : w.netCount r = .ok netCount) (hok : (w.attempt entropy r netCount).outcome = .ok p) :
    (w.fund entropy r).result = .ok ⟨w.vault.store.nextRunId, p⟩ ∧
      (w.fund entropy r).state
        = { w with vault := (w.attempt entropy r netCount).source } := by
  have hrun := fundRun_begin entropy hunbroken hcount
  rw [hok, Except.mapError] at hrun
  constructor
  · simp only [fund, Vault.update, hunbroken, Bool.false_eq_true, if_false, hrun]
    rfl
  · simp only [fund, Vault.update, hunbroken, Bool.false_eq_true, if_false, hrun]

/-- If change generation fails for the new run, funding fails with it, and the run is aborted. -/
theorem fund_of_error {failure : Failure AccessFault} (hunbroken : w.vault.broken = false)
    (hcount : w.netCount r = .ok netCount)
    (hfailure : (w.attempt entropy r netCount).outcome = .error failure) :
    (w.fund entropy r).result = .error (.generation failure) ∧
      (w.fund entropy r).state = { w with
        vault := (cleanUp w.vault.store.nextRunId (.generation failure)
          (w.attempt entropy r netCount).source).1 } := by
  have hrun := fundRun_begin entropy hunbroken hcount
  rw [hfailure, Except.mapError] at hrun
  constructor
  · simp only [fund, Vault.update, hunbroken, Bool.false_eq_true, if_false, hrun]
  · simp only [fund, Vault.update, hunbroken, Bool.false_eq_true, if_false, hrun]
    rfl

/-- Change generation only borrows from the store. -/
theorem lends_attempt (h : w.vault.store.Numbered) (entropy : Nat → Float) (r : Request)
    (netCount : Option Int) : (w.attempt entropy r netCount).source.Lends w.vault.store :=
  (Vault.allocator_keeps h).generate entropy defaultRounds (w.config.terms r netCount)
    (Vault.Lends.begin h)

/-- If funding fails, nothing is left of it, and the failure is that of opening the run or of
generating change for it. -/
theorem undone_of_fund {fault : WalletFault} (h : w.vault.store.Numbered)
    (hfault : (w.fund entropy r).result = .error fault) :
    w.vault.store.Undone (w.fund entropy r).state.vault.store ∧
      (w.fund entropy r).state.vault.broken = w.vault.broken ∧ w.Fails entropy r fault := by
  cases hbroken : w.vault.broken with
  | true =>
    rw [fund_of_broken hbroken] at hfault ⊢
    obtain rfl := Except.error.inj hfault
    exact ⟨h.undone rfl (.inl rfl), hbroken, .broken hbroken⟩
  | false =>
    obtain ⟨netCount, hcount⟩ := w.exists_netCount (r := r) hbroken
    cases houtcome : (w.attempt entropy r netCount).outcome with
    | ok p =>
      rw [(fund_of_ok hbroken hcount houtcome).1] at hfault
      cases hfault
    | error failure =>
      obtain ⟨hresult, hstate⟩ := fund_of_error hbroken hcount houtcome
      obtain rfl : WalletFault.generation failure = fault :=
        Except.error.inj (hresult.symm.trans hfault)
      obtain ⟨released, habort⟩ := (w.lends_attempt h entropy r netCount).abort h
      rw [hstate, cleanUp, habort]
      exact ⟨h.undone rfl (.inr rfl), rfl, .generation hbroken hcount houtcome⟩

end

end Wallet

/-- **A failed funding leaves nothing behind.** Whatever operations and edits have led to the store,
if a wallet fails to fund a request then its outputs, the claims on them and the runs there were are
as before; at most one run is new, which is aborted and claims nothing. The failure reported is that
of opening the run or of generating change for it. -/
theorem fund_undone (history : List Store.Move) (w : Wallet) (entropy : Nat → Float) (r : Request)
    (fault : WalletFault) (hstore : w.vault.store = Store.reached history)
    (hfault : (w.fund entropy r).result = .error fault) :
    w.vault.store.Undone (w.fund entropy r).state.vault.store ∧
      (w.fund entropy r).state.vault.broken = w.vault.broken ∧ w.Fails entropy r fault := by
  have hnumbered : w.vault.store.Numbered := hstore ▸ numbered_reached history
  exact Wallet.undone_of_fund hnumbered hfault

/-- A wallet that keeps no count, with three outputs, one of which somebody has made negative. -/
def Wallet.withNegative : Wallet :=
  let txid : Txid := ⟨List.replicate 32 7, rfl⟩
  .ofStore { Config.standard with basket := { Basket.standard with desiredCount := 0 } }
    (Store.reached [.perform (.add ⟨txid, 0, 300, []⟩), .perform (.add ⟨txid, 1, 200, []⟩),
      .perform (.add ⟨txid, 2, 100, []⟩), .edit (.output 3 .satoshis (.int (-5)))])

/-- A payment that claims two outputs and then comes upon the one that somebody has made negative.
-/
theorem fund_undone_negativeAmount :
    (Wallet.withNegative.fund (fun _ => 0)
      { Request.blank with fixedOutputs := [⟨1000, 25⟩] }).result
        = .error (.generation (.allocation (.store (.invalidData (.negativeAmount (-5)))))) ∧
    Wallet.withNegative.vault.store.Undone (Wallet.withNegative.fund (fun _ => 0)
      { Request.blank with fixedOutputs := [⟨1000, 25⟩] }).state.vault.store ∧
    (Wallet.withNegative.fund (fun _ => 0)
      { Request.blank with fixedOutputs := [⟨1000, 25⟩] }).state.vault.broken = false ∧
    Wallet.withNegative.Fails (fun _ => 0) { Request.blank with fixedOutputs := [⟨1000, 25⟩] }
      (.generation (.allocation (.store (.invalidData (.negativeAmount (-5)))))) :=
  have hfault : (Wallet.withNegative.fund (fun _ => 0)
      { Request.blank with fixedOutputs := [⟨1000, 25⟩] }).result
        = .error (.generation (.allocation (.store (.invalidData (.negativeAmount (-5)))))) := rfl
  ⟨hfault, fund_undone _ .withNegative (fun _ => 0) _ _ rfl hfault⟩

end CoinPurse
