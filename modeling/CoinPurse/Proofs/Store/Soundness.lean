import CoinPurse.Proofs.Store.Regular

/-!
# Stores are sound

Outputs, claims and runs refer to one another. Whatever operations have been tried on a store, and
however those of different runs were interleaved, these references are in order (`after_sound`): an
output is claimed at most once, and then by an open run; it is spent exactly if it names the
transaction that spent it, and then a run was completed with this transaction.
-/

namespace CoinPurse.Store

/-- The columns of all outputs. -/
def rows (s : Store) : List Row := s.slots.map (·.row)

/-- All claims, as the ids of the output and the run. -/
def claims (s : Store) : List (Int × Int) :=
  s.slots.filterMap fun slot => slot.claim.map fun run => (slot.row.id, run)

/-- A store in which outputs, claims and runs fit together. -/
structure Sound (s : Store) : Prop where
  /-- outputs are told apart by their ids -/
  rows_nodup : (s.rows.map (·.id)).Nodup
  /-- so are runs -/
  runs_nodup : (s.runs.map (·.id)).Nodup
  /-- a claim is that of an open run -/
  claims_run : ∀ output run, (output, run) ∈ s.claims →
    ∃ r ∈ s.runs, r.id = run ∧ r.status = .int RunStatus.opened.code
  /-- a claim is on an output that is not spent -/
  claims_output : ∀ output run, (output, run) ∈ s.claims →
    ∃ row ∈ s.rows, row.id = output ∧ row.spent = .int 0 ∧ row.spendingTxid = .null
  /-- no output has two claims -/
  claims_nodup : (s.claims.map (·.1)).Nodup
  /-- no two outputs have one outpoint -/
  outpoints_nodup : (s.rows.map fun row => (row.txid, row.vout)).Nodup
  /-- an output is spent exactly if it names a spending transaction -/
  spent_iff : ∀ row ∈ s.rows, row.spent ≠ .int 0 ↔ row.spendingTxid ≠ .null
  /-- and then a run was completed with this transaction -/
  spent_run : ∀ row ∈ s.rows, row.spent ≠ .int 0 →
    ∃ r ∈ s.runs, r.status = .int RunStatus.completed.code ∧ r.spendingTxid = row.spendingTxid
  /-- a run names a spending transaction exactly if it is completed -/
  completed_iff : ∀ r ∈ s.runs, r.spendingTxid ≠ .null ↔ r.status = .int RunStatus.completed.code

variable {s : Store}

/-- A claim is kept beside the output it is on. -/
theorem mem_claims_iff {output run : Int} :
    (output, run) ∈ s.claims ↔ ∃ slot ∈ s.slots, slot.row.id = output ∧ slot.claim = some run := by
  simp only [claims, List.mem_filterMap, Option.map_eq_some_iff, Prod.mk.injEq]
  constructor
  · rintro ⟨slot, hslot, run, hclaim, rfl, rfl⟩
    exact ⟨slot, hslot, rfl, hclaim⟩
  · rintro ⟨slot, hslot, rfl, hclaim⟩
    exact ⟨slot, hslot, run, hclaim, rfl, rfl⟩

/-- The outputs that are claimed are some of the outputs, each listed once. -/
theorem claims_sublist (slots : List Slot) :
    ((slots.filterMap fun slot => slot.claim.map fun run => (slot.row.id, run)).map (·.1)).Sublist
      (slots.map (·.row.id)) := by
  induction slots with
  | nil => exact List.Sublist.slnil
  | cons slot slots ih =>
    cases hclaim : slot.claim with
    | none =>
      rw [List.filterMap_cons_none (by rw [hclaim]; rfl), List.map_cons]
      exact ih.cons _
    | some run =>
      rw [List.filterMap_cons_some (by rw [hclaim]; rfl), List.map_cons, List.map_cons]
      exact ih.cons_cons _

/-- An output that stands is spent exactly if it names a spending transaction, and then a run was
completed with this transaction. -/
theorem Slot.Stands.spent_iff {runs : List RunRow} {slot : Slot} (h : slot.Stands runs) :
    (slot.row.spent ≠ .int 0 ↔ slot.row.spendingTxid ≠ .null) ∧
      (slot.row.spent ≠ .int 0 → ∃ r ∈ runs, r.status = .int RunStatus.completed.code ∧
        r.spendingTxid = slot.row.spendingTxid) := by
  cases h with
  | free hspent htxid =>
    exact ⟨iff_of_false (not_not_intro hspent) (not_not_intro htxid), fun h => absurd hspent h⟩
  | claimed hspent htxid _ =>
    exact ⟨iff_of_false (not_not_intro hspent) (not_not_intro htxid), fun h => absurd hspent h⟩
  | spent hspent htxid hrun =>
    refine ⟨iff_of_true ?_ ?_, fun _ => ⟨_, hrun, rfl, htxid.symm⟩⟩
    · rw [hspent]
      decide
    · rw [htxid]
      exact Cell.noConfusion

/-- A run that stands names a spending transaction exactly if it is completed. -/
theorem RunRow.Stands.completed_iff {r : RunRow} (h : r.Stands) :
    r.spendingTxid ≠ .null ↔ r.status = .int RunStatus.completed.code := by
  have hopened : Cell.int RunStatus.opened.code ≠ .int RunStatus.completed.code := by decide
  have haborted : Cell.int RunStatus.aborted.code ≠ .int RunStatus.completed.code := by decide
  cases h with
  | opened id => exact iff_of_false (not_not_intro rfl) hopened
  | completed id txid => exact iff_of_true Cell.noConfusion rfl
  | aborted id => exact iff_of_false (not_not_intro rfl) haborted

/-- **A regular store is sound.** -/
theorem Regular.sound (h : s.Regular) : s.Sound where
  rows_nodup := by
    rw [rows, List.map_map]
    exact h.nodup_slot_ids
  runs_nodup := h.run_ids ▸ nodup_numbers _
  claims_run output run hclaim := by
    obtain ⟨slot, hslot, -, hrun⟩ := mem_claims_iff.1 hclaim
    cases h.slots slot hslot with
    | free => cases hrun
    | claimed _ _ hopen =>
      obtain rfl := Option.some.inj hrun
      exact ⟨_, hopen, rfl, rfl⟩
    | spent => cases hrun
  claims_output output run hclaim := by
    obtain ⟨slot, hslot, hid, hrun⟩ := mem_claims_iff.1 hclaim
    refine ⟨slot.row, List.mem_map_of_mem hslot, hid, ?_⟩
    cases h.slots slot hslot with
    | free => cases hrun
    | claimed hspent htxid _ => exact ⟨hspent, htxid⟩
    | spent => cases hrun
  claims_nodup := (claims_sublist s.slots).nodup h.nodup_slot_ids
  outpoints_nodup := by
    rw [rows, List.map_map]
    exact h.outpoints
  spent_iff := List.forall_mem_map.2 fun slot hslot => (h.slots slot hslot).spent_iff.1
  spent_run := List.forall_mem_map.2 fun slot hslot => (h.slots slot hslot).spent_iff.2
  completed_iff r hr := (h.runs r hr).completed_iff

/-- **Stores are sound**, whatever operations have been tried on them, in whatever order and by
however many runs. -/
theorem after_sound (history : List Op) : (after history).Sound := (regular_after history).sound

end CoinPurse.Store
