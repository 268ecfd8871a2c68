import CoinPurse.Proofs.Store.Effect
import Mathlib.Data.List.Nodup

/-!
# Regular stores

A store that only operations have changed is *regular*: outputs and runs are numbered from one, no
two outputs have one outpoint, and every output and every run is in one of the states it may be in.
A run is open, completed or aborted (`RunRow.Stands`). An output is free, claimed by an open run, or
spent by the transaction of a completed run (`Slot.Stands`).

An operation either appends an output or a run, or goes over the outputs and changes some of them
and a run along with them (`Regular.map`). A run that ends does so alone: the runs that other
outputs refer to stay as they are (`Regular.finish`).
-/

namespace CoinPurse.Store

/-- The ids of so many outputs or runs, in order. -/
def numbers (n : Nat) : List Int := (List.range n).map fun i : Nat => (i : Int) + 1

/-- Ids are given out in order. -/
theorem numbers_succ (n : Nat) : numbers (n + 1) = numbers n ++ [(n : Int) + 1] := by
  rw [numbers, numbers, List.range_succ, List.map_append, List.map_singleton]

/-- No id is given out twice. -/
theorem nodup_numbers (n : Nat) : (numbers n).Nodup :=
  List.nodup_range.map fun i j h => by omega

/-- A run is in one of the states it may be in. -/
inductive RunRow.Stands : RunRow → Prop where
  /-- it is open -/
  | opened (id : Int) : Stands (.opened id)
  /-- it is completed with a transaction -/
  | completed (id : Int) (txid : Txid) : Stands (.completed id txid)
  /-- it is aborted -/
  | aborted (id : Int) : Stands (.aborted id)

/-- With these runs, an output is in one of the states it may be in. -/
inductive Slot.Stands (runs : List RunRow) : Slot → Prop where
  /-- it is free -/
  | free {row : Row} (hspent : row.spent = .int 0) (htxid : row.spendingTxid = .null) :
      Stands runs ⟨row, none⟩
  /-- an open run claims it -/
  | claimed {row : Row} {run : Int} (hspent : row.spent = .int 0) (htxid : row.spendingTxid = .null)
      (hrun : RunRow.opened run ∈ runs) : Stands runs ⟨row, some run⟩
  /-- a completed run has spent it with its transaction -/
  | spent {row : Row} {run : Int} {txid : Txid} (hspent : row.spent = .int 1)
      (htxid : row.spendingTxid = .bytes txid.bytes) (hrun : RunRow.completed run txid ∈ runs) :
      Stands runs ⟨row, none⟩

/-- What makes an output stand stays true with more runs. -/
theorem Slot.Stands.mono {runs runs' : List RunRow} {slot : Slot} (h : slot.Stands runs)
    (hsub : runs ⊆ runs') : slot.Stands runs' := by
  cases h with
  | free hspent htxid => exact .free hspent htxid
  | claimed hspent htxid hrun => exact .claimed hspent htxid (hsub hrun)
  | spent hspent htxid hrun => exact .spent hspent htxid (hsub hrun)

/-- The place of an output among those of all transactions. -/
def Slot.outpoint (slot : Slot) : Cell × Cell := (slot.row.txid, slot.row.vout)

/-- A store as operations leave it. -/
structure Regular (s : Store) : Prop where
  /-- outputs are numbered from one -/
  slot_ids : s.slots.map (·.row.id) = numbers s.slots.length
  /-- runs are numbered from one -/
  run_ids : s.runs.map (·.id) = numbers s.runs.length
  /-- no two outputs have one outpoint -/
  outpoints : (s.slots.map Slot.outpoint).Nodup
  /-- every output stands -/
  slots : ∀ slot ∈ s.slots, slot.Stands s.runs
  /-- every run stands -/
  runs : ∀ r ∈ s.runs, r.Stands

variable {s : Store}

/-- No two outputs have one id. -/
theorem Regular.nodup_slot_ids (h : s.Regular) : (s.slots.map (·.row.id)).Nodup :=
  h.slot_ids ▸ nodup_numbers _

/-- Outputs are told apart by their ids. -/
theorem Regular.slot_eq (h : s.Regular) {slot slot' : Slot} (hslot : slot ∈ s.slots)
    (hslot' : slot' ∈ s.slots) (hid : slot.row.id = slot'.row.id) : slot = slot' :=
  List.inj_on_of_nodup_map h.nodup_slot_ids hslot hslot' hid

/-- Runs are told apart by their ids. -/
theorem Regular.run_eq (h : s.Regular) {r r' : RunRow} (hr : r ∈ s.runs) (hr' : r' ∈ s.runs)
    (hid : r.id = r'.id) : r = r' :=
  List.inj_on_of_nodup_map (by rw [h.run_ids]; exact nodup_numbers _) hr hr' hid

/-- A run that passes for open is open. -/
theorem Regular.mem_of_ensureOpen (h : s.Regular) {run : Int} (hopen : s.ensureOpen run = .ok ()) :
    RunRow.opened run ∈ s.runs := by
  rw [ensureOpen] at hopen
  cases hfind : s.runs.find? (·.id == run) with
  | none =>
    rw [hfind] at hopen
    cases hopen
  | some row =>
    rw [hfind] at hopen
    have hmem := List.mem_of_find?_eq_some hfind
    obtain rfl : row.id = run := by simpa using List.find?_some hfind
    cases h.runs row hmem with
    | opened id => exact hmem
    | completed id txid => cases hopen
    | aborted id => cases hopen

/-- A store without outputs and runs is regular. -/
theorem regular_empty : empty.Regular where
  slot_ids := rfl
  run_ids := rfl
  outpoints := List.nodup_nil
  slots _ hslot := nomatch hslot
  runs _ hr := nomatch hr

/-- An output as it enters the store. -/
theorem row_of_output {o : NewOutput} {id : Int} {row : Row} (h : o.row id = .ok row) :
    row.id = id ∧ row.spent = .int 0 ∧ row.spendingTxid = .null := by
  rw [NewOutput.row] at h
  split at h
  · cases h
  · split at h
    · cases h
    · obtain rfl := Except.ok.inj h
      exact ⟨rfl, rfl, rfl⟩

/-- Storing a new output keeps a store regular. -/
theorem Regular.push (h : s.Regular) {o : NewOutput} {row : Row}
    (hrow : o.row s.nextOutputId = .ok row)
    (hnew : ∀ slot ∈ s.slots, slot.hasOutpoint row.txid row.vout = false) :
    (s.push row).Regular := by
  obtain ⟨hid, hspent, htxid⟩ := row_of_output hrow
  refine ⟨?_, h.run_ids, ?_, ?_, h.runs⟩
  · simp only [Store.push, List.map_append, List.map_singleton, List.length_append,
      List.length_singleton]
    rw [h.slot_ids, numbers_succ, hid, nextOutputId]
  · simp only [Store.push, List.map_append, List.map_singleton]
    refine List.nodup_append'.2 ⟨h.outpoints, List.nodup_singleton _, ?_⟩
    rw [List.disjoint_singleton]
    intro hmem
    obtain ⟨slot, hslot, heq⟩ := List.mem_map.1 hmem
    obtain ⟨hsame, hplace⟩ := Prod.mk.inj heq
    have hdiffers := hnew slot hslot
    simp [Slot.hasOutpoint, hsame, hplace] at hdiffers
  · intro slot hslot
    rcases List.mem_append.1 hslot with hslot | hslot
    · exact h.slots slot hslot
    · obtain rfl := List.mem_singleton.1 hslot
      exact .free hspent htxid

/-- Opening a run keeps a store regular. -/
theorem Regular.begin (h : s.Regular) : s.begin.2.Regular := by
  refine ⟨h.slot_ids, ?_, h.outpoints, ?_, ?_⟩
  · simp only [Store.begin, List.map_append, List.map_singleton, List.length_append,
      List.length_singleton]
    rw [h.run_ids, numbers_succ, nextRunId]
  · exact fun slot hslot => (h.slots slot hslot).mono (List.subset_append_left _ _)
  · intro r hr
    rcases List.mem_append.1 hr with hr | hr
    · exact h.runs r hr
    · obtain rfl := List.mem_singleton.1 hr
      exact .opened _

/-- Going over outputs and runs keeps a store regular, if no output changes its id or outpoint, no
run its id, and all of them stand afterwards. -/
theorem Regular.map (h : s.Regular) {f : Slot → Slot} {g : RunRow → RunRow}
    (hslot : ∀ slot, (f slot).row.id = slot.row.id ∧ (f slot).outpoint = slot.outpoint)
    (hrun : ∀ r, (g r).id = r.id) (hslots : ∀ slot ∈ s.slots, (f slot).Stands (s.runs.map g))
    (hruns : ∀ r ∈ s.runs, (g r).Stands) : Regular ⟨s.slots.map f, s.runs.map g⟩ where
  slot_ids := by
    rw [List.map_map, List.length_map, ← h.slot_ids]
    exact List.map_congr_left fun slot _ => (hslot slot).1
  run_ids := by
    rw [List.map_map, List.length_map, ← h.run_ids]
    exact List.map_congr_left fun r _ => hrun r
  outpoints := by
    have hsame : s.slots.map (Slot.outpoint ∘ f) = s.slots.map Slot.outpoint :=
      List.map_congr_left fun slot _ => (hslot slot).2
    rw [List.map_map, hsame]
    exact h.outpoints
  slots := List.forall_mem_map.2 hslots
  runs := List.forall_mem_map.2 hruns

/-- Setting or lifting a claim keeps a store regular, if the output stands with it. -/
theorem Regular.setClaim (h : s.Regular) {id : Int} {claim : Option Int}
    (hstands : ∀ slot ∈ s.slots, slot.row.id = id → Slot.Stands s.runs { slot with claim }) :
    (s.setClaim id claim).Regular := by
  have hmap := h.map (f := fun slot => if slot.hasId id then { slot with claim } else slot)
    (g := fun r => r) ?_ (fun _ => rfl) ?_ h.runs
  · rwa [List.map_id'] at hmap
  · intro slot
    split <;> exact ⟨rfl, rfl⟩
  · intro slot hslot
    rw [List.map_id']
    split
    · rename_i hid
      exact hstands slot hslot (by simpa [Slot.hasId] using hid)
    · exact h.slots slot hslot

/-- Claiming a free output for an open run keeps a store regular. -/
theorem Regular.claim (h : s.Regular) {run : Int} {row : Row}
    (hopen : RunRow.opened run ∈ s.runs) (hrow : row ∈ s.spendable) :
    (s.setClaim row.id (some run)).Regular := by
  obtain ⟨slot₀, hmem, hspendable, rfl⟩ := mem_spendable_iff.1 hrow
  refine h.setClaim fun slot hslot hid => ?_
  -- ids are unique, so this is the output that was picked
  obtain rfl : slot = slot₀ := h.slot_eq hslot hmem hid
  cases h.slots slot hslot with
  | free hspent htxid => exact .claimed hspent htxid hopen
  | claimed => simp [Slot.isSpendable] at hspendable
  | spent hspent => simp [Slot.isSpendable, hspent] at hspendable

/-- Without its claim an output still stands. -/
theorem Slot.Stands.unclaim {runs : List RunRow} {slot : Slot} (h : slot.Stands runs) :
    Slot.Stands runs { slot with claim := none } := by
  cases h with
  | free hspent htxid => exact .free hspent htxid
  | claimed hspent htxid _ => exact .free hspent htxid
  | spent hspent htxid hrun => exact .spent hspent htxid hrun

/-- **Ending a run keeps a store regular.** The run and the outputs it claims may change together;
the runs that other outputs refer to stay as they are. -/
theorem Regular.finish (h : s.Regular) {run : Int} (hopen : RunRow.opened run ∈ s.runs)
    {f : Slot → Slot} {change : RunRow → RunRow}
    (hslot : ∀ slot, (f slot).row.id = slot.row.id ∧ (f slot).outpoint = slot.outpoint)
    (hid : ∀ r, (change r).id = r.id) (hstands : (change (.opened run)).Stands)
    (hmine : ∀ slot ∈ s.slots, slot.claim = some run →
      (f slot).Stands [change (.opened run)])
    (hother : ∀ slot, slot.claim ≠ some run → f slot = slot) :
    (setRun run change ⟨s.slots.map f, s.runs⟩).Regular := by
  -- no other run has this id, so every other run is left as it is
  have hself : ∀ r ∈ s.runs, r.id = run → r = .opened run := fun r hr => h.run_eq hr hopen
  have hkept : ∀ r ∈ s.runs, r.id ≠ run →
      r ∈ s.runs.map fun r => if r.id == run then change r else r :=
    fun r hr hne => List.mem_map.2 ⟨r, hr, if_neg (by simpa using hne)⟩
  have hended : [change (.opened run)] ⊆
      s.runs.map fun r => if r.id == run then change r else r :=
    List.cons_subset.2 ⟨List.mem_map.2 ⟨_, hopen, if_pos (beq_self_eq_true run)⟩,
      List.nil_subset _⟩
  refine h.map hslot (fun r => ?_) (fun slot hmem => ?_) (fun r hr => ?_)
  · split
    · exact hid r
    · rfl
  · by_cases hclaim : slot.claim = some run
    · exact (hmine slot hmem hclaim).mono hended
    · rw [hother slot hclaim]
      cases h.slots slot hmem with
      | free hspent htxid => exact .free hspent htxid
      | @claimed row run' hspent htxid hrun =>
        refine .claimed hspent htxid (hkept _ hrun fun heq => hclaim ?_)
        exact congrArg some heq
      | spent hspent htxid hrun =>
        -- the run that spent it is completed, so it is not the one that was open
        refine .spent hspent htxid (hkept _ hrun fun heq => ?_)
        cases hself _ hrun heq
  · split
    · rename_i heq
      rw [hself r hr (by simpa using heq)]
      exact hstands
    · exact h.runs r hr

/-- Completing a run, without its change, keeps a store regular. -/
theorem Regular.settle (h : s.Regular) {run : Int} (hopen : RunRow.opened run ∈ s.runs)
    (txid : Txid) : (s.settle run txid).Regular := by
  refine h.finish hopen (f := fun slot => if slot.isClaimedBy run then slot.spend txid else slot)
    (fun slot => ?_) (fun _ => rfl) (.completed run txid) (fun slot _ hclaim => ?_)
    (fun slot hclaim => if_neg (by simpa [Slot.isClaimedBy] using hclaim))
  · split <;> exact ⟨rfl, rfl⟩
  · rw [if_pos (by simpa [Slot.isClaimedBy] using hclaim)]
    exact .spent rfl rfl (List.mem_singleton.2 rfl)

/-- Aborting a run keeps a store regular. -/
theorem Regular.withdraw (h : s.Regular) {run : Int} (hopen : RunRow.opened run ∈ s.runs) :
    (s.withdraw run).Regular := by
  refine h.finish hopen
    (f := fun slot => if slot.isClaimedBy run then { slot with claim := none } else slot)
    (fun slot => ?_) (fun _ => rfl) (.aborted run) (fun slot hmem hclaim => ?_)
    (fun slot hclaim => if_neg (by simpa [Slot.isClaimedBy] using hclaim))
  · split <;> exact ⟨rfl, rfl⟩
  · rw [if_pos (by simpa [Slot.isClaimedBy] using hclaim)]
    cases h.slots slot hmem with
    | free => cases hclaim
    | claimed hspent htxid _ => exact .free hspent htxid
    | spent => cases hclaim

/-- No operation that succeeds makes a store irregular. -/
theorem Effect.regular {op : Op} {receipt : Receipt} {next : Store} (h : s.Regular)
    (heffect : Effect s op receipt next) : next.Regular := by
  cases heffect with
  | added hrow hnew => exact h.push hrow hnew
  | known => exact h
  | begun => exact h.begin
  | unanswered => exact h
  | claimed hopen hpick hread => exact h.claim (h.mem_of_ensureOpen hopen) (mem_of_pick hpick)
  | released => exact h.setClaim fun slot hslot _ => (h.slots slot hslot).unclaim
  | completed hcheck hopen hinsert =>
    refine insertAll_keeps (fun s o row h hrow hnew => h.push hrow hnew) ?_ hinsert
    exact h.settle (h.mem_of_ensureOpen hopen) _
  | aborted hopen => exact h.withdraw (h.mem_of_ensureOpen hopen)

/-- **Stores stay regular**, whatever operations have been tried on them. -/
theorem regular_after (history : List Op) : (after history).Regular :=
  after_keeps regular_empty (fun _ _ _ _ h heffect => heffect.regular h) history

end CoinPurse.Store
