import CoinPurse.Proofs.Settlement

/-!
# Completing a run is all or nothing

Completing a run goes over all that a store keeps: the outputs the run claims are marked as spent,
its claims disappear, the change of the transaction is stored one output after another, and the run
is closed. An output of the change may turn out to be stored already when all the others have been
dealt with.

Whether completing succeeds can be told beforehand (`complete_allOrNothing`): the run has to be
open, and there has to be room for the change (`Takes`). If it succeeds, `Completes` says what has
become of every output, every claim and every run. If it fails, nothing has changed.
-/

namespace CoinPurse.Store

/-- The columns of a new output once it is stored under an id. -/
def NewOutput.entry (o : NewOutput) (id : Int) : Row :=
  ⟨id, .bytes o.txid.bytes, .int o.vout, .int o.satoshis, o.script, .int 0, .null⟩

/-- As many ids as a number says, from a first one on. -/
def idsFrom (first : Int) (n : Nat) : List Int := (List.range n).map fun i : Nat => first + i

/-- What completing a run with a transaction and its change makes of a store. -/
structure Completes (s : Store) (run : Int) (txid : Txid) (change : List NewOutput)
    (settlement : Settlement) (next : Store) : Prop where
  /-- the change is stored in its order, under the ids that come next -/
  created_eq : settlement.created = idsFrom s.nextOutputId change.length
  /-- under none of which there was an output before -/
  created_new : ∀ id ∈ settlement.created, id ∉ s.rows.map (·.id)
  /-- under these ids the change is found, not spent -/
  created_get : List.Forall₂ (fun o id => next.get id = .ok (some (o.stored id))) change
    settlement.created
  /-- what the run claimed is spent by the transaction, all other outputs are as they were, and the
  change follows -/
  rows_eq : next.rows = (s.rows.map fun row =>
      if (row.id, run) ∈ s.claims then row.spentBy txid else row)
    ++ List.zipWith NewOutput.entry change settlement.created
  /-- as many outputs were spent as the run claimed -/
  spent_eq : settlement.spent = s.claims.countP (·.2 == run)
  /-- the claims of the run are gone, those of others stay -/
  claims_eq : next.claims = s.claims.filter (·.2 != run)
  /-- the run is completed, other runs are as they were -/
  runs_eq : next.runs = s.runs.map fun r => if r.id = run then .completed run txid else r
  /-- and told to be -/
  getRun_eq : next.getRun run = .ok (some ⟨run, .completed, some txid⟩)

/-- Ids from one on are this one and those from the next on. -/
theorem idsFrom_succ (first : Int) (n : Nat) :
    idsFrom first (n + 1) = first :: idsFrom (first + 1) n := by
  rw [idsFrom, List.range_succ_eq_map, List.map_cons, List.map_map, idsFrom]
  refine congrArg₂ _ (Int.add_zero first) (List.map_congr_left fun i _ => ?_)
  simp only [Function.comp_apply, Nat.succ_eq_add_one]
  omega

section
variable {s next : Store} {o : NewOutput} {outputs change : List NewOutput} {ids : List Int}
variable {run : Int} {txid : Txid}

/-! ## Storing the change -/

/-- A row that an output makes is its entry. -/
theorem eq_entry_of_row {id : Int} {row : Row} (h : o.row id = .ok row) : row = o.entry id := by
  rw [NewOutput.row] at h
  split at h
  · cases h
  · split at h
    · cases h
    · exact (Except.ok.inj h).symm

/-- **What storing outputs does**: their entries follow those that are there, under the ids that
come next. -/
theorem eq_of_insertAll (h : insertAll outputs s = .ok (ids, next)) :
    ids = idsFrom s.nextOutputId outputs.length ∧
      next = { s with
        slots := s.slots ++ (List.zipWith NewOutput.entry outputs ids).map (⟨·, none⟩) } := by
  induction outputs generalizing s ids with
  | nil =>
    obtain ⟨rfl, rfl⟩ := Prod.mk.inj (Except.ok.inj h)
    exact ⟨rfl, by rw [List.zipWith_nil_left, List.map_nil, List.append_nil]⟩
  | cons o rest ih =>
    obtain ⟨⟨id, s₁⟩, hfirst, h⟩ := exists_of_bind_eq_ok h
    obtain ⟨⟨later, s₂⟩, hrest, h⟩ := exists_of_bind_eq_ok h
    obtain ⟨rfl, rfl⟩ := Prod.mk.inj (Except.ok.inj h)
    obtain ⟨row, hrow, -, rfl, rfl⟩ := exists_of_insert hfirst
    obtain rfl := eq_entry_of_row hrow
    obtain ⟨hlater, hnext⟩ := ih hrest
    have hids : (s.push (o.entry s.nextOutputId)).nextOutputId = s.nextOutputId + 1 := by
      rw [nextOutputId, push, List.length_append, List.length_singleton, nextOutputId]
      omega
    refine ⟨?_, ?_⟩
    · rw [hlater, hids, List.length_cons, idsFrom_succ]
      rfl
    · rw [hnext, List.zipWith_cons_cons, List.map_cons, List.append_cons]
      rfl

/-- What was stored there was room for. -/
theorem takes_of_insertAll (h : insertAll outputs s = .ok (ids, next)) : s.Takes outputs := by
  induction outputs generalizing s next ids with
  | nil => exact ⟨fun _ ho => (nomatch ho), fun _ ho => (nomatch ho), List.nodup_nil⟩
  | cons o rest ih =>
    obtain ⟨⟨id, s₁⟩, hfirst, h⟩ := exists_of_bind_eq_ok h
    obtain ⟨⟨later, s₂⟩, hrest, h⟩ := exists_of_bind_eq_ok h
    obtain ⟨rfl, rfl⟩ := Prod.mk.inj (Except.ok.inj h)
    obtain ⟨row, hrow, hnew, -, rfl⟩ := exists_of_insert hfirst
    have hholds := holds_of_output hrow
    have htakes := ih hrest
    constructor
    · exact List.forall_mem_cons.2 ⟨⟨hholds.vout_le, hholds.satoshis_le⟩, htakes.fits⟩
    · refine List.forall_mem_cons.2
        ⟨not_knows_of_hasOutpoint hrow hnew, fun o' ho' id' hknown => ?_⟩
      obtain ⟨row', hmem, hrow'⟩ := hknown
      refine htakes.fresh o' ho' id' ⟨row', ?_, hrow'⟩
      rw [rows, push, List.map_append]
      exact List.mem_append_left _ hmem
    · rw [List.map_cons, List.nodup_cons]
      refine ⟨fun hmem => ?_, htakes.distinct⟩
      -- the others are stored after the first, which is known by then
      obtain ⟨o', ho', hsame⟩ := List.mem_map.1 hmem
      obtain ⟨htxid, hvout⟩ := Prod.mk.inj hsame
      refine htakes.fresh o' ho' row.id ⟨row, ?_, rfl, ?_, ?_⟩
      · rw [rows, push, List.map_append]
        exact List.mem_append_right _ (List.mem_singleton.2 rfl)
      · rw [htxid, hholds.txid]
      · rw [hvout, hholds.vout]

/-! ## Spending what the run claimed -/

/-- In a regular store the claim on an output is told by the claims. -/
theorem Regular.mem_claims_of_slot (h : s.Regular) {slot : Slot} (hslot : slot ∈ s.slots) :
    (slot.row.id, run) ∈ s.claims ↔ slot.claim = some run := by
  rw [mem_claims_iff]
  constructor
  · rintro ⟨slot', hslot', hid, hclaim⟩
    rwa [← h.slot_eq hslot' hslot hid]
  · exact fun hclaim => ⟨slot, hslot, rfl, hclaim⟩

/-- Completing a run spends what it claims and leaves all other outputs alone. -/
theorem Regular.rows_settle (h : s.Regular) (run : Int) (txid : Txid) :
    (s.settle run txid).rows
      = s.rows.map fun row => if (row.id, run) ∈ s.claims then row.spentBy txid else row := by
  rw [rows, Store.settle, setRun, spendClaims, List.map_map, rows, List.map_map]
  refine List.map_congr_left fun slot hslot => ?_
  have hclaim : slot.isClaimedBy run = true ↔ (slot.row.id, run) ∈ s.claims := by
    rw [h.mem_claims_of_slot hslot, Slot.isClaimedBy, beq_iff_eq]
  simp only [Function.comp_apply, ← hclaim]
  split <;> rfl

/-- Outputs are known that were known. -/
theorem Knows.settle {id : Int} (h : s.Knows o id) (run : Int) (txid : Txid) :
    (s.settle run txid).Knows o id := by
  obtain ⟨row, hrow, hid, htxid, hvout⟩ := h
  obtain ⟨slot, hslot, rfl⟩ := List.mem_map.1 hrow
  by_cases hclaim : slot.isClaimedBy run = true
  · exact ⟨(slot.spend txid).row, List.mem_map_of_mem (List.mem_map.2 ⟨slot, hslot, if_pos hclaim⟩),
      hid, htxid, hvout⟩
  · exact ⟨slot.row, List.mem_map_of_mem (List.mem_map.2 ⟨slot, hslot, if_neg hclaim⟩),
      hid, htxid, hvout⟩

/-- Completing a run drops its claims and no others. -/
theorem claims_settle (run : Int) (txid : Txid) (s : Store) :
    (s.settle run txid).claims = s.claims.filter (·.2 != run) := by
  rw [claims, settle, setRun, spendClaims, claims, List.filterMap_map]
  induction s.slots with
  | nil => rfl
  | cons slot slots ih =>
    rw [List.filterMap_cons, List.filterMap_cons, ih]
    cases hclaim : slot.claim with
    | none => simp [Slot.isClaimedBy, hclaim]
    | some r =>
      by_cases hr : r = run
      · simp [Slot.isClaimedBy, Slot.spend, hclaim, hr]
      · simp [Slot.isClaimedBy, hclaim, hr]

/-- There are as many claims of a run as outputs it claims. -/
theorem length_claimed (run : Int) (s : Store) :
    (s.claimed run).length = s.claims.countP (·.2 == run) := by
  rw [claimed, List.length_map, ← List.countP_eq_length_filter, claims]
  induction s.slots with
  | nil => rfl
  | cons slot slots ih =>
    rw [List.countP_cons, ih, List.filterMap_cons]
    cases hclaim : slot.claim with
    | none => simp [Slot.isClaimedBy, hclaim]
    | some r => simp [Slot.isClaimedBy, hclaim, List.countP_cons]

/-- Completing a run closes it and leaves the others alone. -/
theorem runs_settle (run : Int) (txid : Txid) (s : Store) :
    (s.settle run txid).runs
      = s.runs.map fun r => if r.id = run then .completed run txid else r := by
  rw [settle, setRun]
  refine List.map_congr_left fun r _ => ?_
  by_cases hid : r.id = run
  · subst hid
    simp [RunRow.completed]
  · simp [hid]

/-- A completed run is told to be completed. -/
theorem Regular.getRun_completed (h : s.Regular) (hrun : RunRow.completed run txid ∈ s.runs) :
    s.getRun run = .ok (some ⟨run, .completed, some txid⟩) := by
  have hspending : readSpending (.bytes txid.bytes) = .ok (some txid) := by
    rw [readSpending, if_neg Cell.noConfusion, Cell.content, Txid.ofBytes?_bytes]
  have hfind : s.runs.find? (·.id == run) = some (.completed run txid) := h.find?_runs hrun
  have hread : (RunRow.completed run txid).read = .ok ⟨run, .completed, some txid⟩ := by
    rw [RunRow.read, RunRow.completed, hspending]
    rfl
  rw [getRun, hfind]
  change (RunRow.completed run txid).read.map some = _
  rw [hread]
  rfl

/-- An output is found under its id, along with the claim on it. -/
theorem Regular.find?_slots (h : s.Regular) {slot : Slot} (hslot : slot ∈ s.slots) :
    s.slots.find? (Slot.hasId slot.row.id) = some slot := by
  cases hfind : s.slots.find? (Slot.hasId slot.row.id) with
  | none =>
    have := List.find?_eq_none.1 hfind slot hslot
    simp [Slot.hasId] at this
  | some slot' =>
    have hid : slot'.row.id = slot.row.id := by simpa [Slot.hasId] using List.find?_some hfind
    rw [h.slot_eq (List.mem_of_find?_eq_some hfind) hslot hid]

/-- What a store gives for the id of an output that was stored is this output, not spent. -/
theorem Regular.get_entry (h : s.Regular) {id : Int} (hvout : o.vout ≤ Word.maxSigned32)
    (hsatoshis : o.satoshis ≤ Word.maxSigned64) (hslot : ⟨o.entry id, none⟩ ∈ s.slots) :
    s.get id = .ok (some (o.stored id)) := by
  obtain ⟨row, hrow⟩ := exists_row_eq_ok hvout hsatoshis id
  have hread := read_of_output hrow
  rw [eq_entry_of_row hrow] at hread
  have hfind : s.slots.find? (Slot.hasId id) = some ⟨o.entry id, none⟩ := h.find?_slots hslot
  rw [get, hfind]
  change (o.entry id).read.map some = _
  rw [hread]
  rfl

/-! ## Completing -/

/-- A run is told to be open if and only if it is. -/
theorem Regular.getRun_opened_iff (h : s.Regular) :
    (∃ r, s.getRun run = .ok (some r) ∧ r.status = .opened) ↔ RunRow.opened run ∈ s.runs := by
  refine ⟨fun ⟨r, hrun, hopen⟩ => h.mem_of_getRun hrun hopen, fun hopen => ?_⟩
  have hfind : s.runs.find? (·.id == run) = some (.opened run) := h.find?_runs hopen
  refine ⟨⟨run, .opened, none⟩, ?_, rfl⟩
  rw [getRun, hfind]
  rfl

/-- **When completing succeeds**: the run is open, and there is room for the change. -/
theorem Regular.exists_complete_iff (h : s.Regular) :
    (∃ settlement next, s.complete run txid change = .ok (settlement, next)) ↔
      RunRow.opened run ∈ s.runs ∧ s.Takes change := by
  constructor
  · rintro ⟨settlement, next, hcomplete⟩
    cases effect_of_complete hcomplete with
    | completed hcheck hopen hinsert =>
      exact ⟨h.mem_of_ensureOpen hopen,
        (takes_of_insertAll hinsert).anti fun _ _ hknown => hknown.settle run txid⟩
  · rintro ⟨hopen, htakes⟩
    exact h.exists_complete hopen txid htakes

/-- **What completing a run does** to a store that operations have led to. -/
theorem Regular.completes (h : s.Regular) {settlement : Settlement}
    (hcomplete : s.complete run txid change = .ok (settlement, next)) :
    Completes s run txid change settlement next := by
  have heffect := effect_of_complete hcomplete
  have hregular := heffect.regular h
  obtain ⟨hrun, -⟩ := heffect.mem_of_completed h
  cases heffect with
  | @completed _ _ _ ids _ hcheck hopen hinsert =>
    obtain ⟨hids, hnext⟩ := eq_of_insertAll hinsert
    have hfirst : (s.settle run txid).nextOutputId = s.nextOutputId := by
      rw [nextOutputId, Store.settle, setRun, spendClaims, List.length_map, nextOutputId]
    rw [hfirst] at hids
    have hlength : change.length = ids.length := by
      rw [hids, idsFrom, List.length_map, List.length_range]
    constructor
    case created_eq => exact hids
    case created_new =>
      intro id hid hmem
      rw [hids, idsFrom] at hid
      obtain ⟨i, -, rfl⟩ := List.mem_map.1 hid
      rw [rows, List.map_map] at hmem
      have hold : s.nextOutputId + i ∈ numbers s.slots.length := h.slot_ids ▸ hmem
      obtain ⟨j, hj, heq⟩ := List.mem_map.1 hold
      have := List.mem_range.1 hj
      rw [nextOutputId] at heq
      omega
    case created_get =>
      refine List.forall₂_iff_zip.2 ⟨hlength, fun {o id} hmem => ?_⟩
      obtain ⟨hvout, hsatoshis⟩ := (takes_of_insertAll hinsert).fits o (List.of_mem_zip hmem).1
      refine hregular.get_entry hvout hsatoshis ?_
      rw [hnext]
      refine List.mem_append_right _ (List.mem_map_of_mem ?_)
      rw [← List.map_uncurry_zip_eq_zipWith]
      exact List.mem_map_of_mem hmem
    case rows_eq =>
      rw [hnext, rows, List.map_append, List.map_map, ← h.rows_settle]
      exact congrArg _ (List.map_id _)
    case spent_eq => exact length_claimed run s
    case claims_eq =>
      rw [hnext, claims, List.filterMap_append, ← claims_settle run txid]
      have hnone : ((List.zipWith NewOutput.entry change ids).map (Slot.mk · none)).filterMap
          (fun slot => slot.claim.map fun run => (slot.row.id, run)) = [] := by
        rw [List.filterMap_map]
        exact List.filterMap_eq_nil_iff.2 fun _ _ => rfl
      rw [hnone, List.append_nil, claims]
    case runs_eq => rw [hnext, ← runs_settle]
    case getRun_eq => exact hregular.getRun_completed hrun

end

/-- **Completing a run is all or nothing**, whatever operations have led to a store. It succeeds if
and only if the run is open and there is room for the change: each output fits its columns, no two
have one outpoint, and none is stored already. On success `Completes` says what has changed; on
failure nothing has, and the same ids come next. -/
theorem complete_allOrNothing (history : List Op) (run : Int) (txid : Txid)
    (change : List NewOutput) :
    ((∃ settlement next,
        (after history).complete run txid change = .ok (settlement, next)) ↔
      (∃ r, (after history).getRun run = .ok (some r) ∧ r.status = .opened) ∧
        (after history).Takes change) ∧
    (∀ settlement next, (after history).complete run txid change = .ok (settlement, next) →
      after (history ++ [.complete run txid change]) = next ∧
        Completes (after history) run txid change settlement next) ∧
    ∀ fault, (after history).complete run txid change = .error fault →
      after (history ++ [.complete run txid change]) = after history := by
  have hregular := regular_after history
  refine ⟨?_, fun settlement next hcomplete => ⟨?_, hregular.completes hcomplete⟩,
    fun fault hcomplete => ?_⟩
  · rw [hregular.exists_complete_iff, hregular.getRun_opened_iff]
  · have hperform : (after history).perform (.complete run txid change)
        = .ok (.completed settlement, next) := by
      rw [perform, hcomplete]
      rfl
    exact after_concat_of_ok hperform
  · rw [after_concat, step, perform, hcomplete]
    rfl

/-- A store with two outputs, the first of which an open run claims. -/
def firstClaimed : List Op := twoOutputs ++ [.begin, .allocate 1 ⟨4000, none⟩]

/-- Completed with its change, a run spends the output it claims and brings a third one. If the
change has one outpoint twice, neither output is stored, nothing is spent, and the claim stays. -/
theorem complete_allOrNothing_firstClaimed :
    (∃ next, (after firstClaimed).complete 1 returned.txid [returned] = .ok (⟨[3], 1⟩, next) ∧
      (after firstClaimed).Takes [returned] ∧
      after (firstClaimed ++ [.complete 1 returned.txid [returned]]) = next ∧
      Completes (after firstClaimed) 1 returned.txid [returned] ⟨[3], 1⟩ next) ∧
    (after firstClaimed).complete 1 returned.txid [returned, returned]
      = .error .duplicateOutpoint ∧
    ¬ (after firstClaimed).Takes [returned, returned] ∧
    after (firstClaimed ++ [.complete 1 returned.txid [returned, returned]])
      = after firstClaimed := by
  obtain ⟨hiff, hcompletes, -⟩ := complete_allOrNothing firstClaimed 1 returned.txid [returned]
  obtain ⟨hiff', -, hkept⟩ :=
    complete_allOrNothing firstClaimed 1 returned.txid [returned, returned]
  have hfault : (after firstClaimed).complete 1 returned.txid [returned, returned]
      = .error .duplicateOutpoint := rfl
  refine ⟨⟨_, rfl, (hiff.1 ⟨_, _, rfl⟩).2, hcompletes _ _ rfl⟩, hfault, fun htakes => ?_,
    hkept _ hfault⟩
  obtain ⟨settlement, next, hok⟩ := hiff'.2 ⟨⟨_, rfl, rfl⟩, htakes⟩
  rw [hfault] at hok
  cases hok

end CoinPurse.Store
