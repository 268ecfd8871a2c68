import CoinPurse.Proofs.Rollback
import CoinPurse.Proofs.Store.Spendable

/-!
# What funding does

Funding does nothing to a store that operations would not do (`Wallet.reached_fund`). If it succeeds
then change generation has succeeded, for a run that was opened (`Wallet.exists_of_fund`).

Change generation lists the inputs of its plan, and the store lists the claims of its run. The two
lists are kept apart, and both change with every candidate that is claimed and with every pass that
starves. At the end they agree (`Vault.allocator_tracks`): the run claims the inputs of the plan,
which were spendable before, and nothing else in the store has changed (`Wallet.funds_of_fund`).
-/

namespace CoinPurse

open Store

/-! ## Wallets do nothing but operations -/

/-- Operations have led to the store. -/
def Vault.Reached (v : Vault) : Prop := ∃ history, v.store = after history

namespace Vault.Reached

variable {v : Vault}

/-- A store that operations have led to is as operations leave it. -/
theorem regular (h : v.Reached) : v.store.Regular := by
  obtain ⟨history, hstore⟩ := h
  rw [hstore]
  exact regular_after history

/-- In a store that operations have led to the rows hold outputs. -/
theorem written (h : v.Reached) : v.store.Written := by
  obtain ⟨history, hstore⟩ := h
  rw [hstore]
  exact written_after history

/-- Using the store for an operation leads on. -/
theorem update {α : Type} {act : Store → Except Fault (α × Store)} (h : v.Reached)
    (hact : ∀ answer next, act v.store = .ok (answer, next) →
      ∃ op receipt, v.store.perform op = .ok (receipt, next)) : (v.update act).2.Reached := by
  rcases v.update_cases act with heq | ⟨answer, next, hresult, heq⟩
  · rwa [heq]
  · obtain ⟨history, hstore⟩ := h
    obtain ⟨op, receipt, hperform⟩ := hact answer next hresult
    rw [hstore] at hperform
    rw [heq]
    exact ⟨history ++ [op], (after_concat_of_ok hperform).symm⟩

/-- Performing an operation leads on. -/
theorem perform (h : v.Reached) (op : Op) : (v.update (Store.perform op)).2.Reached :=
  h.update fun receipt _ hperform => ⟨op, receipt, hperform⟩

/-- Aborting a run leads on. -/
theorem abort (h : v.Reached) (run : Int) : (v.update (Store.abort run)).2.Reached := by
  refine h.update fun released next habort => ⟨.abort run, .aborted released, ?_⟩
  rw [Store.perform, habort]
  rfl

end Vault.Reached

/-- Claims and releases on behalf of a run lead on. -/
theorem Vault.allocator_keeps_reached (run : Int) :
    (Vault.allocator run).Keeps Vault.Reached where
  claim ask v h := by
    refine h.update fun answer next hallocate => ⟨.allocate run ask, .allocated answer, ?_⟩
    rw [Store.perform, hallocate]
    rfl
  release id v h := by
    refine h.update fun answer next hrelease => ⟨.release run id, .released, ?_⟩
    rw [Store.perform, hrelease]
    rfl

/-- Change generation for a run that is opened leads on. -/
theorem Wallet.reached_attempt {w : Wallet} (h : w.vault.Reached) (entropy : Nat → Float)
    (r : Request) (netCount : Option Int) : (w.attempt entropy r netCount).source.Reached := by
  obtain ⟨history, hstore⟩ := h
  have hbegun : Vault.Reached ⟨w.vault.store.begin.2, false⟩ := by
    rw [hstore]
    exact ⟨history ++ [.begin], (after_concat_of_ok rfl).symm⟩
  exact (Vault.allocator_keeps_reached _).generate entropy defaultRounds _ hbegun

/-- Funding leads on, whether it succeeds or not. -/
theorem Wallet.reached_fund {w : Wallet} (h : w.vault.Reached) (entropy : Nat → Float)
    (r : Request) : (w.fund entropy r).state.vault.Reached := by
  cases hbroken : w.vault.broken with
  | true =>
    rw [fund_of_broken hbroken]
    exact h
  | false =>
    obtain ⟨netCount, hcount⟩ := w.exists_netCount (r := r) hbroken
    have hattempt := w.reached_attempt h entropy r netCount
    cases houtcome : (w.attempt entropy r netCount).outcome with
    | ok p =>
      rw [(fund_of_ok hbroken hcount houtcome).2]
      exact hattempt
    | error failure =>
      rw [(fund_of_error hbroken hcount houtcome).2]
      have haborted := hattempt.abort w.vault.store.nextRunId
      rw [cleanUp]
      split <;> rename_i heq <;> rwa [heq] at haborted

/-- What it takes to fund a run: change generation succeeds for a run that is opened, and the store
is left as it leaves it. -/
theorem Wallet.exists_of_fund {w : Wallet} {entropy : Nat → Float} {r : Request} {f : Funded}
    (hok : (w.fund entropy r).result = .ok f) : w.vault.broken = false ∧ ∃ netCount,
      w.netCount r = .ok netCount ∧ f.run = w.vault.store.nextRunId ∧
      (w.attempt entropy r netCount).outcome = .ok f.plan ∧
      (w.fund entropy r).state = { w with vault := (w.attempt entropy r netCount).source } := by
  cases hbroken : w.vault.broken with
  | true =>
    rw [fund_of_broken hbroken] at hok
    cases hok
  | false =>
    obtain ⟨netCount, hcount⟩ := w.exists_netCount (r := r) hbroken
    cases houtcome : (w.attempt entropy r netCount).outcome with
    | ok p =>
      obtain ⟨hresult, hstate⟩ := fund_of_ok hbroken hcount houtcome
      obtain rfl := Except.ok.inj (hresult.symm.trans hok)
      exact ⟨rfl, netCount, hcount, rfl, houtcome, hstate⟩
    | error failure =>
      rw [(fund_of_error hbroken hcount houtcome).1] at hok
      cases hok

/-! ## What a run claims -/

/-- A run on a store holds these candidates. -/
structure Vault.Holds (run : Int) (held : List Candidate) (v : Vault) : Prop where
  /-- the store is as operations leave it -/
  regular : v.store.Regular
  /-- its rows hold outputs -/
  written : v.store.Written
  /-- the run claims as much -/
  claimed : ((v.store.claimed run).map Row.candidate).Perm held

namespace Vault.Holds

variable {run : Int} {held : List Candidate} {v : Vault}

/-- What a request is answered with is held. -/
theorem allocate (h : v.Holds run held) {ask : Ask} {answer : Option Candidate} {next : Store}
    (hallocate : v.store.allocate run ask = .ok (answer, next)) :
    Holds run (answer.toList ++ held) { v with store := next } := by
  have heffect := effect_of_allocate hallocate
  refine ⟨heffect.regular h.regular, heffect.written h.written, ?_⟩
  cases heffect with
  | unanswered => exact h.claimed
  | @claimed _ _ row c hopen hpick hread =>
    obtain ⟨slot, hslot, hfree, rfl⟩ := mem_spendable_iff.1 (mem_of_pick hpick)
    obtain ⟨o, ho⟩ := h.written slot hslot
    obtain rfl : c = slot.row.candidate := Except.ok.inj (hread.symm.trans ho.readCandidate_eq)
    exact ((h.regular.claimed_claim hslot hfree).map _).trans (h.claimed.cons _)

/-- What is taken back is not. -/
theorem release {c : Candidate} (h : v.Holds run (c :: held)) {next : Store}
    (hrelease : v.store.release run c.id = .ok ((), next)) :
    Holds run held { v with store := next } := by
  have heffect := effect_of_release hrelease
  refine ⟨heffect.regular h.regular, heffect.written h.written, ?_⟩
  cases heffect with
  | @released _ _ slot hopen hslot hid hheld =>
    -- what the run holds under this id is the output it gives back
    obtain ⟨row, hrow, hc⟩ := List.mem_map.1 (h.claimed.mem_iff.2 (List.mem_cons_self ..))
    obtain ⟨slot', hslot', -, rfl⟩ := mem_claimed_iff.1 hrow
    obtain rfl : slot' = slot := by
      refine h.regular.slot_eq hslot' hslot ?_
      rw [hid, ← hc]
      rfl
    have hperm := (h.regular.claimed_unclaim hslot hheld).map Row.candidate
    rw [← hid]
    refine (List.perm_cons c).1 ?_
    rw [← hc] at h ⊢
    exact hperm.symm.trans h.claimed

end Vault.Holds

/-- An operation that succeeds has led to a further store. -/
theorem Vault.exists_of_update {α : Type} {v v' : Vault} {act : Store → Except Fault (α × Store)}
    {answer : α} (h : v.update act = (.ok answer, v')) :
    ∃ next, act v.store = .ok (answer, next) ∧ v' = { v with store := next } := by
  rw [update] at h
  split at h
  · cases h
  · cases hresult : act v.store with
    | error fault =>
      rw [hresult] at h
      cases h
    | ok result =>
      rw [hresult] at h
      obtain ⟨hanswer, rfl⟩ := Prod.mk.inj h
      obtain rfl := Except.ok.inj hanswer
      exact ⟨result.2, rfl, rfl⟩

/-- **The store keeps track** of what a run holds. -/
theorem Vault.allocator_tracks (run : Int) : (Vault.allocator run).Tracks (Vault.Holds run) where
  claim ask held v answer v' h hclaim := by
    obtain ⟨next, hallocate, rfl⟩ := exists_of_update hclaim
    exact h.allocate hallocate
  release c held v v' h hreply := by
    obtain ⟨next, hrelease, rfl⟩ := exists_of_update hreply
    exact h.release hrelease

/-- What a funded run leaves in the store: it was opened and holds the inputs of its plan, and apart
from that the store is as it was. -/
theorem Wallet.holds_of_fund {w : Wallet} {entropy : Nat → Float} {r : Request} {f : Funded}
    (h : w.vault.Reached) (hok : (w.fund entropy r).result = .ok f) :
    f.run = w.vault.store.nextRunId ∧ (w.fund entropy r).state.vault.Lends w.vault.store ∧
      (w.fund entropy r).state.vault.Holds f.run f.plan.inputs.reverse := by
  obtain ⟨-, netCount, -, hrun, houtcome, hstate⟩ := exists_of_fund hok
  have hregular : w.vault.store.Regular := h.regular
  have hnone : w.vault.store.begin.2.claimed w.vault.store.nextRunId = [] :=
    hregular.numbered.claimed_nextRunId
  have hbegun : Vault.Holds w.vault.store.nextRunId [] ⟨w.vault.store.begin.2, false⟩ :=
    ⟨hregular.begin, h.written, by rw [hnone]; exact .nil⟩
  refine ⟨hrun, ?_, ?_⟩
  · rw [hstate]
    exact w.lends_attempt hregular.numbered entropy r netCount
  · rw [hstate, hrun]
    exact (Vault.allocator_tracks _).generate hbegun houtcome

/-! ## What a funded run changes -/

/-- What funding a run, with its plan, makes of a store. -/
structure Store.Funds (before : Store) (f : Funded) (after : Store) : Prop where
  /-- the run is new -/
  run_new : before.getRun f.run = .ok none
  /-- and open -/
  run_open : after.getRun f.run = .ok (some ⟨f.run, .opened, none⟩)
  /-- it claims the inputs of the plan, listed in the order of their ids, none of them twice -/
  allocations : ∃ cs, after.allocations f.run = .ok cs ∧ cs.Perm f.plan.inputs ∧
    cs.Pairwise fun a b => a.id < b.id
  /-- they were spendable, and what is spendable now is the rest -/
  spendable : ∃ outputs taken rest, before.list = .ok outputs ∧ after.list = .ok rest ∧
    outputs.Perm (taken ++ rest) ∧ (taken.map Output.candidate).Perm f.plan.inputs
  /-- the rows of outputs are as they were -/
  rows_eq : after.rows = before.rows
  /-- so are all other runs -/
  runs_eq : after.runs = before.runs ++ [.opened f.run]
  /-- and all other claims -/
  claims_eq : after.claims.filter (·.2 != f.run) = before.claims

namespace Store

/-- Dropping claims leaves the rows of outputs alone. -/
theorem rows_dropClaims (run : Int) (s : Store) : (s.dropClaims run).rows = s.rows := by
  rw [rows, rows, dropClaims, List.map_map]
  refine List.map_congr_left fun slot _ => ?_
  simp only [Function.comp_apply]
  split <;> rfl

/-- Dropping the claims of a run leaves those of other runs alone. -/
theorem claims_dropClaims (run : Int) (s : Store) :
    (s.dropClaims run).claims = s.claims.filter (·.2 != run) := by
  rw [claims, claims, dropClaims, List.filterMap_map, List.filter_filterMap]
  refine List.filterMap_congr fun slot _ => ?_
  obtain ⟨row, claim⟩ := slot
  rcases claim with _ | other
  · simp [Slot.isClaimedBy]
  · by_cases hother : other = run
    · simp [Slot.isClaimedBy, Option.filter, hother]
    · simp [Slot.isClaimedBy, Option.filter, hother]

end Store

/-- A run that was opened and holds the inputs of a plan, with the store as it was apart from that,
is funded. -/
theorem Vault.Lends.funds {before : Store} {v : Vault} {f : Funded} (h : before.Regular)
    (hwritten : before.Written) (hrun : f.run = before.nextRunId) (hlends : v.Lends before)
    (hholds : v.Holds f.run f.plan.inputs.reverse) : before.Funds f v.store := by
  obtain ⟨run, p⟩ := f
  obtain rfl : run = before.nextRunId := hrun
  have hopen : RunRow.opened before.nextRunId ∈ v.store.runs := by
    rw [hlends.runs_eq]
    exact List.mem_append_right _ (List.mem_singleton.2 rfl)
  constructor
  case run_new =>
    rw [getRun, h.numbered.find?_nextRunId]
  case run_open =>
    have hfind : v.store.runs.find? (·.id == before.nextRunId)
        = some (.opened before.nextRunId) := hholds.regular.find?_runs hopen
    rw [getRun, hfind]
    rfl
  case allocations =>
    refine ⟨_, hholds.written.allocations_eq _, hholds.claimed.trans p.inputs.reverse_perm, ?_⟩
    exact List.pairwise_map.2 (hholds.regular.sorted (Slot.isClaimedBy before.nextRunId))
  case spendable =>
    have hlisted : (v.store.dropClaims before.nextRunId).listed = before.listed :=
      congrArg outputsOf (spendable_congr hlends.slots_eq)
    have hperm := hholds.regular.listed_dropClaims before.nextRunId
    rw [hlisted] at hperm
    refine ⟨_, _, _, h.list_eq hwritten, hholds.regular.list_eq hholds.written,
      hperm.trans List.perm_append_comm, ?_⟩
    rw [hholds.regular.claimed_candidates hholds.written]
    exact hholds.claimed.trans p.inputs.reverse_perm
  case rows_eq =>
    have hrows := rows_dropClaims before.nextRunId v.store
    rw [rows, hlends.slots_eq] at hrows
    exact hrows.symm
  case runs_eq => exact hlends.runs_eq
  case claims_eq =>
    have hclaims := claims_dropClaims before.nextRunId v.store
    rw [claims, hlends.slots_eq] at hclaims
    exact hclaims.symm

/-- **What a funded run changes.** It is new and open, it claims the inputs of its plan, and it
claims nothing else. -/
theorem Wallet.funds_of_fund {w : Wallet} {entropy : Nat → Float} {r : Request} {f : Funded}
    (h : w.vault.Reached) (hok : (w.fund entropy r).result = .ok f) :
    w.vault.store.Funds f (w.fund entropy r).state.vault.store := by
  obtain ⟨hrun, hlends, hholds⟩ := holds_of_fund h hok
  exact hlends.funds h.regular h.written hrun hholds

/-- A wallet's setup without a basket to fill. -/
def Config.desiringNone : Config :=
  { Config.standard with basket := { Basket.standard with desiredCount := 0 } }

/-- A request to pay a thousand satoshis. -/
def Request.payment : Request := { Request.blank with fixedOutputs := [⟨1000, 25⟩] }

/-- A store with two outputs. -/
def Store.twoOutputs : List Op :=
  let txid : Txid := ⟨List.replicate 32 6, rfl⟩
  [.add ⟨txid, 0, 5000, []⟩, .add ⟨txid, 1, 3000, []⟩]

-- the smaller of the two covers the payment
example : ((Wallet.ofStore .desiringNone (after twoOutputs)).fund (fun _ => 0) .payment).result
    = .ok ⟨1, ⟨[⟨2, 3000⟩], [⟨1977, 25⟩], 226, 23, 100⟩⟩ := rfl

end CoinPurse
