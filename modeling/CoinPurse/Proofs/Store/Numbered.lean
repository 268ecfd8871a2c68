import CoinPurse.Proofs.Store.Regular
import CoinPurse.Store.Edit

/-!
# Stores that others write to

Edits from outside may leave anything in the columns they overwrite, so a store does not stay
regular under them. What does stay is `Numbered`: outputs and runs are numbered from one, and every
claim is that of a run there is. No edit reaches ids or claims, and operations keep up all of it
whatever they find in the columns.

So the number of a new run is free, also among the claims (`Numbered.claim_ne_nextRunId`).
-/

namespace CoinPurse.Store

/-- Something that happens to a store. -/
inductive Move where
  /-- an operation is performed on it -/
  | perform (op : Op)
  /-- a column is overwritten from outside -/
  | edit (edit : Edit)
  deriving DecidableEq, Repr

/-- The store after something has happened; if it failed, the same store. -/
def move (s : Store) : Move → Store
  | .perform op => s.step op
  | .edit e =>
    match s.edit e with
    | .ok (_, next) => next
    | .error _ => s

/-- The store that operations and edits lead to. -/
def reached (history : List Move) : Store := history.foldl move empty

/-- A store as operations and edits leave it. -/
structure Numbered (s : Store) : Prop where
  /-- outputs are numbered from one -/
  slot_ids : s.slots.map (·.row.id) = numbers s.slots.length
  /-- runs are numbered from one -/
  run_ids : s.runs.map (·.id) = numbers s.runs.length
  /-- only runs that were opened claim outputs -/
  claims : ∀ slot ∈ s.slots, ∀ run, slot.claim = some run → run ∈ s.runs.map (·.id)

variable {s next : Store}

/-- What an edit that succeeds does: nothing, or it overwrites a column of an output or a run. -/
theorem edit_cases {e : Edit} {n : Nat} (h : s.edit e = .ok (n, next)) :
    next = s ∨ (∃ id column cell, next = s.setRow id (Row.set column cell)) ∨
      ∃ id column cell, next = s.setRun id (RunRow.set column cell) := by
  cases e with
  | output id column cell =>
    rw [edit] at h
    split at h
    · exact .inl (Prod.mk.inj (Except.ok.inj h)).2.symm
    · obtain ⟨⟨⟩, -, h⟩ := exists_of_bind_eq_ok h
      dsimp only at h
      split at h
      · cases h
      · exact .inr (.inl ⟨id, column, cell, (Prod.mk.inj (Except.ok.inj h)).2.symm⟩)
  | run id column cell =>
    rw [edit] at h
    split at h
    · exact .inl (Prod.mk.inj (Except.ok.inj h)).2.symm
    · obtain ⟨⟨⟩, -, h⟩ := exists_of_bind_eq_ok h
      exact .inr (.inr ⟨id, column, cell, (Prod.mk.inj (Except.ok.inj h)).2.symm⟩)

/-- No column of an output that can be overwritten is its id. -/
theorem Row.id_set (column : Row.Column) (cell : Cell) (r : Row) :
    (r.set column cell).id = r.id := by
  cases column <;> rfl

/-- No column of a run that can be overwritten is its id. -/
theorem RunRow.id_set (column : RunRow.Column) (cell : Cell) (r : RunRow) :
    (r.set column cell).id = r.id := by
  cases column <;> rfl

/-- A run that passes for open was opened. -/
theorem mem_of_ensureOpen {run : Int} (hopen : s.ensureOpen run = .ok ()) :
    run ∈ s.runs.map (·.id) := by
  rw [ensureOpen] at hopen
  cases hfind : s.runs.find? (·.id == run) with
  | none =>
    rw [hfind] at hopen
    cases hopen
  | some row =>
    have hid : row.id = run := by simpa using List.find?_some hfind
    exact List.mem_map.2 ⟨row, List.mem_of_find?_eq_some hfind, hid⟩

namespace Numbered

/-- A store without outputs and runs is numbered. -/
theorem empty : Store.empty.Numbered where
  slot_ids := rfl
  run_ids := rfl
  claims _ hslot := nomatch hslot

/-- No two outputs have one id. -/
theorem nodup_slot_ids (h : s.Numbered) : (s.slots.map (·.row.id)).Nodup :=
  h.slot_ids ▸ nodup_numbers _

/-- The number of the next run is not that of another. -/
theorem nextRunId_not_mem (h : s.Numbered) : s.nextRunId ∉ s.runs.map (·.id) := by
  have hdistinct := nodup_numbers (s.runs.length + 1)
  rw [numbers_succ, ← h.run_ids, List.nodup_append'] at hdistinct
  exact List.disjoint_singleton.1 hdistinct.2.2

/-- No run is found under the number of the next run. -/
theorem find?_nextRunId (h : s.Numbered) : s.runs.find? (·.id == s.nextRunId) = none := by
  rw [List.find?_eq_none]
  intro row hrow hid
  exact h.nextRunId_not_mem (List.mem_map.2 ⟨row, hrow, by simpa using hid⟩)

/-- No output is claimed under the number of the next run. -/
theorem claim_ne_nextRunId (h : s.Numbered) {slot : Slot} (hslot : slot ∈ s.slots) :
    slot.claim ≠ some s.nextRunId :=
  fun hclaim => h.nextRunId_not_mem (h.claims slot hslot _ hclaim)

/-- A run with the number of the next run claims nothing. -/
theorem claimed_nextRunId (h : s.Numbered) : s.claimed s.nextRunId = [] := by
  rw [claimed, List.map_eq_nil_iff, List.filter_eq_nil_iff]
  intro slot hslot
  simpa [Slot.isClaimedBy] using h.claim_ne_nextRunId hslot

/-- A further output, without a claim, takes the next number. -/
theorem push (h : s.Numbered) {row : Row} (hid : row.id = s.nextOutputId) :
    (s.push row).Numbered where
  slot_ids := by
    simp only [Store.push, List.map_append, List.map_singleton, List.length_append,
      List.length_singleton]
    rw [h.slot_ids, numbers_succ, hid, nextOutputId]
  run_ids := h.run_ids
  claims slot hslot run hclaim := by
    rcases List.mem_append.1 hslot with hslot | hslot
    · exact h.claims slot hslot run hclaim
    · obtain rfl := List.mem_singleton.1 hslot
      cases hclaim

/-- A further run takes the next number. -/
theorem begin (h : s.Numbered) : s.begin.2.Numbered where
  slot_ids := h.slot_ids
  run_ids := by
    simp only [Store.begin, List.map_append, List.map_singleton, List.length_append,
      List.length_singleton]
    rw [h.run_ids, numbers_succ, nextRunId]
  claims slot hslot run hclaim := by
    rw [Store.begin, List.map_append]
    exact List.mem_append_left _ (h.claims slot hslot run hclaim)

/-- Going over outputs and runs keeps a store numbered, if ids stay and claims are those of runs. -/
theorem map (h : s.Numbered) {f : Slot → Slot} {g : RunRow → RunRow}
    (hslot : ∀ slot, (f slot).row.id = slot.row.id) (hrun : ∀ r, (g r).id = r.id)
    (hclaims : ∀ slot ∈ s.slots, ∀ run, (f slot).claim = some run → run ∈ s.runs.map (·.id)) :
    Numbered ⟨s.slots.map f, s.runs.map g⟩ := by
  have hids : (s.runs.map g).map (·.id) = s.runs.map (·.id) := by
    rw [List.map_map]
    exact List.map_congr_left fun r _ => hrun r
  refine ⟨?_, ?_, ?_⟩
  · rw [List.map_map, List.length_map, ← h.slot_ids]
    exact List.map_congr_left fun slot _ => hslot slot
  · rw [hids, List.length_map, h.run_ids]
  · rw [hids]
    exact List.forall_mem_map.2 hclaims

/-- Changing rows keeps a store numbered if their ids stay. -/
theorem setRow (h : s.Numbered) (id : Int) {change : Row → Row}
    (hid : ∀ r, (change r).id = r.id) : (s.setRow id change).Numbered := by
  have hmap := h.map (g := fun r => r)
    (f := fun slot => if slot.hasId id then { slot with row := change slot.row } else slot)
    ?_ (fun _ => rfl) ?_
  · rwa [List.map_id'] at hmap
  · intro slot
    split
    · exact hid slot.row
    · rfl
  · intro slot hslot run hclaim
    refine h.claims slot hslot run ?_
    split at hclaim <;> exact hclaim

/-- Changing a run keeps a store numbered if its id stays. -/
theorem setRun (h : s.Numbered) (id : Int) {change : RunRow → RunRow}
    (hid : ∀ r, (change r).id = r.id) : (s.setRun id change).Numbered := by
  have hmap := h.map (f := fun slot => slot)
    (g := fun r => if r.id == id then change r else r) (fun _ => rfl) ?_ h.claims
  · rwa [List.map_id'] at hmap
  · intro r
    split
    · exact hid r
    · rfl

/-- Going over the outputs keeps a store numbered if their ids stay, and no run that is not there
gets a claim. -/
theorem mapSlots (h : s.Numbered) {f : Slot → Slot}
    (hslot : ∀ slot, (f slot).row.id = slot.row.id)
    (hclaims : ∀ slot ∈ s.slots, ∀ run, (f slot).claim = some run → run ∈ s.runs.map (·.id)) :
    Numbered { s with slots := s.slots.map f } := by
  have hmap := h.map (g := fun r => r) hslot (fun _ => rfl) hclaims
  rwa [List.map_id'] at hmap

/-- Setting a claim for a run that was opened, or lifting one, keeps a store numbered. -/
theorem setClaim (h : s.Numbered) (id : Int) {claim : Option Int}
    (hclaim : ∀ run, claim = some run → run ∈ s.runs.map (·.id)) :
    (s.setClaim id claim).Numbered := by
  refine h.mapSlots (fun slot => ?_) (fun slot hslot run hrun => ?_)
  · split <;> rfl
  · split at hrun
    · exact hclaim run hrun
    · exact h.claims slot hslot run hrun

/-- Completing a run, without its change, keeps a store numbered. -/
theorem settle (h : s.Numbered) (run : Int) (txid : Txid) : (s.settle run txid).Numbered := by
  refine setRun (h.mapSlots (fun slot => ?_) (fun slot hslot run' hclaim => ?_)) run fun _ => rfl
  · split <;> rfl
  · split at hclaim
    · cases hclaim
    · exact h.claims slot hslot run' hclaim

/-- Aborting a run keeps a store numbered. -/
theorem withdraw (h : s.Numbered) (run : Int) : (s.withdraw run).Numbered := by
  refine setRun (h.mapSlots (fun slot => ?_) (fun slot hslot run' hclaim => ?_)) run fun _ => rfl
  · split <;> rfl
  · split at hclaim
    · cases hclaim
    · exact h.claims slot hslot run' hclaim

end Numbered

/-- A regular store is numbered. -/
theorem Regular.numbered (h : s.Regular) : s.Numbered where
  slot_ids := h.slot_ids
  run_ids := h.run_ids
  claims slot hslot run hclaim := by
    cases h.slots slot hslot with
    | free => cases hclaim
    | claimed _ _ hopen =>
      obtain rfl := Option.some.inj hclaim
      exact List.mem_map_of_mem hopen
    | spent => cases hclaim

/-- Operations keep a store numbered, whatever its columns hold. -/
theorem Effect.numbered {op : Op} {receipt : Receipt} (h : s.Numbered)
    (heffect : Effect s op receipt next) : next.Numbered := by
  cases heffect with
  | added hrow hnew => exact h.push (row_of_output hrow).1
  | known => exact h
  | begun => exact h.begin
  | unanswered => exact h
  | claimed hopen hpick hread =>
    refine h.setClaim _ fun run hrun => ?_
    obtain rfl := Option.some.inj hrun
    exact mem_of_ensureOpen hopen
  | released => exact h.setClaim _ fun _ hrun => nomatch hrun
  | completed hcheck hopen hinsert =>
    exact insertAll_keeps (fun s o row h hrow hnew => h.push (row_of_output hrow).1)
      (h.settle _ _) hinsert
  | aborted hopen => exact h.withdraw _

/-- Edits keep a store numbered, since they reach neither ids nor claims. -/
theorem Numbered.edit (h : s.Numbered) {e : Edit} {n : Nat} (hedit : s.edit e = .ok (n, next)) :
    next.Numbered := by
  rcases edit_cases hedit with rfl | ⟨id, column, cell, rfl⟩ | ⟨id, column, cell, rfl⟩
  · exact h
  · exact h.setRow id (Row.id_set column cell)
  · exact h.setRun id (RunRow.id_set column cell)

/-- Whatever happens to a store keeps it numbered. -/
theorem Numbered.move (h : s.Numbered) (m : Move) : (s.move m).Numbered := by
  cases m with
  | perform op =>
    simp only [Store.move, step]
    cases hperform : s.perform op with
    | error fault => exact h
    | ok result => exact (effect_of_perform hperform).numbered h
  | edit e =>
    simp only [Store.move]
    cases hedit : s.edit e with
    | error fault => exact h
    | ok result => exact h.edit hedit

/-- **Stores stay numbered**, whatever operations and edits have been tried on them. -/
theorem numbered_reached (history : List Move) : (reached history).Numbered := by
  suffices h : ∀ s : Store, s.Numbered → (history.foldl Store.move s).Numbered from
    h empty Numbered.empty
  induction history with
  | nil => exact fun _ h => h
  | cons m history ih => exact fun s h => ih _ (h.move m)

end CoinPurse.Store
