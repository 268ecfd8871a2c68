import CoinPurse.Proofs.Store.Soundness

/-!
# What lasts in a store

Some of what is in a store stays as it is. An output that is spent, or that a run claims, only
changes when the run that claims it gives it back, completes or aborts (`Effect.mem_slots`), so a
spent output never changes again. A run that has ended never changes either (`Effect.mem_runs`).

It follows that no output is spent twice (`after_spendsOnce`). Whatever operations are tried on a
store, by however many runs, an output is promised to one run at a time, the run that completes
spends what it claims, and what is spent cannot be had again.
-/

namespace CoinPurse

/-- What a list of results holds comes from the list it was made of. -/
theorem exists_of_mem_mapM {ε α β : Type} {f : α → Except ε β} {xs : List α} {ys : List β}
    (h : xs.mapM f = .ok ys) {y : β} (hy : y ∈ ys) : ∃ x ∈ xs, f x = .ok y := by
  induction xs generalizing ys with
  | nil =>
    obtain rfl := Except.ok.inj h
    cases hy
  | cons x xs ih =>
    rw [List.mapM_cons] at h
    obtain ⟨z, hz, h⟩ := exists_of_bind_eq_ok h
    obtain ⟨zs, hzs, h⟩ := exists_of_bind_eq_ok h
    obtain rfl := Except.ok.inj h
    rcases List.mem_cons.1 hy with rfl | hy
    · exact ⟨x, List.mem_cons_self .., hz⟩
    · obtain ⟨x', hx', hf⟩ := ih hzs hy
      exact ⟨x', List.mem_cons_of_mem x hx', hf⟩

namespace Store

/-- Whether an operation, if it succeeds, ends the claim of a run on an output. -/
def Op.ends (run id : Int) : Op → Bool
  | release r i => r == run && i == id
  | complete r _ _ | abort r => r == run
  | _ => false

/-- Operations that only an open run can do: it claims an output, gives one back, completes with
change that fits its columns, or aborts. -/
inductive Op.Requires (run : Int) : Op → Prop where
  | allocate (ask : Ask) : Requires run (.allocate run ask)
  | release (id : Int) : Requires run (.release run id)
  | complete (txid : Txid) (change : List NewOutput)
      (hfits : ∀ o ∈ change, o.vout ≤ Word.maxSigned32 ∧ o.satoshis ≤ Word.maxSigned64) :
      Requires run (.complete run txid change)
  | abort : Requires run (.abort run)

/-- The row of an output that a transaction spends. -/
def Row.spentBy (txid : Txid) (row : Row) : Row :=
  { row with spent := .int 1, spendingTxid := .bytes txid.bytes }

/-- **No output is spent twice** between what a store has been through and what it is put through
later. -/
structure SpendsOnce (past later : List Op) : Prop where
  /-- a spent output never changes -/
  spent_stays : ∀ row ∈ (after past).rows, row.spent ≠ .int 0 →
    (after (past ++ later)).rows.find? (·.id == row.id) = some row
  /-- it is not listed as spendable again -/
  spent_not_listed : ∀ row ∈ (after past).rows, row.spent ≠ .int 0 → ∀ outputs,
    (after (past ++ later)).list = .ok outputs → ∀ o ∈ outputs, o.id ≠ row.id
  /-- no run is given it -/
  spent_not_allocated : ∀ row ∈ (after past).rows, row.spent ≠ .int 0 → ∀ run ask c next,
    (after (past ++ later)).allocate run ask = .ok (some c, next) → c.id ≠ row.id
  /-- and it is not among the claims of a run -/
  spent_not_claimed : ∀ row ∈ (after past).rows, row.spent ≠ .int 0 → ∀ run cs,
    (after (past ++ later)).allocations run = .ok cs → ∀ c ∈ cs, c.id ≠ row.id
  /-- while nothing ends the claim of a run on an output, no run is given the output -/
  claimed_once : ∀ run ask c next, (after past).allocate run ask = .ok (some c, next) →
    (∀ before op rest, later = before ++ op :: rest → op.ends run c.id = true →
      ∃ fault, (after (past ++ .allocate run ask :: before)).perform op = .error fault) →
    ∀ run' ask' c' next', (after (past ++ .allocate run ask :: later)).allocate run' ask'
      = .ok (some c', next') → c'.id ≠ c.id
  /-- what a run claims when it completes is spent by its transaction -/
  completed_spends : ∀ run txid change settlement next,
    (after past).complete run txid change = .ok (settlement, next) →
    (after (past ++ .complete run txid change :: later)).runs.find? (·.id == run)
      = some (.completed run txid) ∧
    ∀ id, (id, run) ∈ (after past).claims → ∃ row ∈ (after past).rows, row.id = id ∧
      (after (past ++ .complete run txid change :: later)).rows.find? (·.id == id)
        = some (row.spentBy txid)
  /-- a run that has ended never changes -/
  ended_stays : ∀ r ∈ (after past).runs, r.status ≠ .int RunStatus.opened.code →
    (after (past ++ later)).runs.find? (·.id == r.id) = some r
  /-- whatever it tries is refused -/
  ended_refused : ∀ r ∈ (after past).runs, r.status ≠ .int RunStatus.opened.code →
    ∀ op : Op, op.Requires r.id →
      (after (past ++ later)).perform op = .error (.runNotOpen r.id) ∧
      (after (past ++ later)).step op = after (past ++ later)

section
variable {s next : Store} {op : Op} {receipt : Receipt}

/-- Storing further outputs leaves outputs and runs as they are. -/
theorem exists_of_insertAll {outputs : List NewOutput} {ids : List Int}
    (h : insertAll outputs s = .ok (ids, next)) :
    (∃ slots, next.slots = s.slots ++ slots) ∧ next.runs = s.runs := by
  refine insertAll_keeps (P := fun n => (∃ slots, n.slots = s.slots ++ slots) ∧ n.runs = s.runs)
    (fun n o row hn _ _ => ?_) ⟨⟨[], (List.append_nil _).symm⟩, rfl⟩ h
  obtain ⟨⟨slots, hslots⟩, hruns⟩ := hn
  exact ⟨⟨slots ++ [⟨row, none⟩], by rw [push, hslots, List.append_assoc]⟩, hruns⟩

/-- **Outputs that are spent or claimed stay**, unless the operation ends the claim on them. -/
theorem Effect.mem_slots (h : s.Regular) (heffect : Effect s op receipt next) {slot : Slot}
    (hslot : slot ∈ s.slots) (htaken : slot.isSpendable = false)
    (hkept : ∀ run, slot.claim = some run → op.ends run slot.row.id = false) :
    slot ∈ next.slots := by
  -- going over the outputs leaves this one where it is, if it does not change it
  have hmap : ∀ {f : Slot → Slot}, f slot = slot → slot ∈ s.slots.map f :=
    fun hf => List.mem_map.2 ⟨slot, hslot, hf⟩
  -- so does ending a run, if the run does not claim it
  have hclaimed : ∀ {run : Int} {f : Slot → Slot}, op.ends run slot.row.id = true →
      slot ∈ s.slots.map fun slot => if slot.isClaimedBy run then f slot else slot := by
    intro run f hends
    refine hmap (if_neg fun hclaim => ?_)
    rw [hkept run (by simpa [Slot.isClaimedBy] using hclaim)] at hends
    cases hends
  cases heffect with
  | added => exact List.mem_append_left _ hslot
  | known | begun | unanswered => exact hslot
  | claimed hopen hpick hread =>
    obtain ⟨slot', hmem, hfree, rfl⟩ := mem_spendable_iff.1 (mem_of_pick hpick)
    refine hmap (if_neg fun hid => ?_)
    obtain rfl : slot = slot' := h.slot_eq hslot hmem (by simpa [Slot.hasId] using hid)
    rw [htaken] at hfree
    cases hfree
  | @released run id slot' hopen hslot' hid hheld =>
    refine hmap (if_neg fun hsame => ?_)
    have hsame : slot.row.id = id := by simpa [Slot.hasId] using hsame
    obtain rfl : slot = slot' := h.slot_eq hslot hslot' (hsame.trans hid.symm)
    have hends := hkept run hheld
    simp [Op.ends, hsame] at hends
  | completed hcheck hopen hinsert =>
    obtain ⟨⟨slots, hslots⟩, -⟩ := exists_of_insertAll hinsert
    rw [hslots]
    exact List.mem_append_left _ (hclaimed (by simp [Op.ends]))
  | aborted hopen => exact hclaimed (by simp [Op.ends])

/-- **Runs that have ended stay.** -/
theorem Effect.mem_runs (h : s.Regular) (heffect : Effect s op receipt next) {r : RunRow}
    (hr : r ∈ s.runs) (hended : r.status ≠ .int RunStatus.opened.code) : r ∈ next.runs := by
  -- a run that ends now is open, so it is another one
  have hset : ∀ {run : Int} {f : RunRow → RunRow}, s.ensureOpen run = .ok () →
      r ∈ s.runs.map fun row => if row.id == run then f row else row := by
    intro run f hopen
    refine List.mem_map.2 ⟨r, hr, if_neg fun hid => hended ?_⟩
    have hid : r.id = run := by simpa using hid
    rw [h.run_eq hr (h.mem_of_ensureOpen hopen) hid]
    rfl
  cases heffect with
  | begun => exact List.mem_append_left _ hr
  | added | known | unanswered | claimed | released => exact hr
  | completed hcheck hopen hinsert =>
    obtain ⟨-, hruns⟩ := exists_of_insertAll hinsert
    rw [hruns]
    exact hset hopen
  | aborted hopen => exact hset hopen

/-- Completing a run spends what it claims, and the run is completed. -/
theorem Effect.mem_of_completed (h : s.Regular) {run : Int} {txid : Txid} {change : List NewOutput}
    (heffect : Effect s (.complete run txid change) receipt next) :
    RunRow.completed run txid ∈ next.runs ∧
      ∀ slot ∈ s.slots, slot.claim = some run → slot.spend txid ∈ next.slots := by
  cases heffect with
  | completed hcheck hopen hinsert =>
    obtain ⟨⟨slots, hslots⟩, hruns⟩ := exists_of_insertAll hinsert
    constructor
    · rw [hruns]
      exact List.mem_map.2 ⟨_, h.mem_of_ensureOpen hopen, if_pos (beq_self_eq_true run)⟩
    · intro slot hslot hclaim
      rw [hslots]
      refine List.mem_append_left _ (List.mem_map.2 ⟨slot, hslot, if_pos ?_⟩)
      simpa [Slot.isClaimedBy] using hclaim

end

section
variable {past : List Op}

/-- An operation that succeeds is one more operation. -/
theorem after_concat_of_ok {op : Op} {receipt : Receipt} {next : Store}
    (h : (after past).perform op = .ok (receipt, next)) : after (past ++ [op]) = next := by
  rw [after_concat, step, h]

/-- Outputs that are spent or claimed stay until their claim is ended. -/
theorem mem_slots_after (later : List Op) {slot : Slot} (hslot : slot ∈ (after past).slots)
    (htaken : slot.isSpendable = false)
    (hkept : ∀ run, slot.claim = some run → ∀ before op rest, later = before ++ op :: rest →
      op.ends run slot.row.id = true →
        ∃ fault, (after (past ++ before)).perform op = .error fault) :
    slot ∈ (after (past ++ later)).slots := by
  -- by the last operation: it fails, or what it does leaves the output alone
  induction later using List.reverseRecOn with
  | nil => rwa [List.append_nil]
  | append_singleton later op ih =>
    have hmem := ih fun run hrun before op' rest heq =>
      hkept run hrun before op' (rest ++ [op]) (by rw [heq, List.append_assoc, List.cons_append])
    rw [← List.append_assoc, after_concat, step]
    cases hperform : (after (past ++ later)).perform op with
    | error fault => exact hmem
    | ok result =>
      refine (effect_of_perform hperform).mem_slots (regular_after _) hmem htaken fun run hrun => ?_
      rw [Bool.eq_false_iff]
      intro hends
      obtain ⟨fault, hfault⟩ := hkept run hrun later op [] rfl hends
      rw [hperform] at hfault
      cases hfault

/-- Runs that have ended stay. -/
theorem mem_runs_after (later : List Op) {r : RunRow} (hr : r ∈ (after past).runs)
    (hended : r.status ≠ .int RunStatus.opened.code) : r ∈ (after (past ++ later)).runs := by
  induction later using List.reverseRecOn with
  | nil => rwa [List.append_nil]
  | append_singleton later op ih =>
    rw [← List.append_assoc, after_concat, step]
    cases hperform : (after (past ++ later)).perform op with
    | error fault => exact ih
    | ok result => exact (effect_of_perform hperform).mem_runs (regular_after _) ih hended

/-- A spent output is not claimed, and it stays. -/
theorem mem_slots_of_spent (later : List Op) {row : Row} (hrow : row ∈ (after past).rows)
    (hspent : row.spent ≠ .int 0) : ⟨row, none⟩ ∈ (after (past ++ later)).slots := by
  obtain ⟨slot, hslot, rfl⟩ := List.mem_map.1 hrow
  have hnone : slot = ⟨slot.row, none⟩ := by
    cases (regular_after past).slots slot hslot with
    | free => rfl
    | claimed hfree => exact absurd hfree hspent
    | spent => rfl
  rw [hnone] at hslot
  refine mem_slots_after later hslot ?_ fun run hrun => by cases hrun
  simpa [Slot.isSpendable] using hspent

end

section
variable {s next : Store} {slot : Slot}

/-- An output is found under its id. -/
theorem Regular.find?_rows (h : s.Regular) (hslot : slot ∈ s.slots) :
    s.rows.find? (·.id == slot.row.id) = some slot.row := by
  cases hfind : s.rows.find? (·.id == slot.row.id) with
  | none =>
    have := List.find?_eq_none.1 hfind slot.row (List.mem_map_of_mem hslot)
    simp at this
  | some row =>
    obtain ⟨slot', hslot', rfl⟩ := List.mem_map.1 (List.mem_of_find?_eq_some hfind)
    rw [h.slot_eq hslot' hslot (by simpa using List.find?_some hfind)]

/-- A run is found under its id. -/
theorem Regular.find?_runs (h : s.Regular) {r : RunRow} (hr : r ∈ s.runs) :
    s.runs.find? (·.id == r.id) = some r := by
  cases hfind : s.runs.find? (·.id == r.id) with
  | none =>
    have := List.find?_eq_none.1 hfind r hr
    simp at this
  | some r' =>
    rw [h.run_eq (List.mem_of_find?_eq_some hfind) hr (by simpa using List.find?_some hfind)]

/-- The output read from a row has its id. -/
theorem id_of_read {row : Row} {o : Output} (h : row.read = .ok o) : o.id = row.id := by
  rw [Row.read] at h
  split at h
  · cases h
  · simp only at h
    split at h
    · cases h
    · obtain ⟨satoshis, -, h⟩ := exists_of_bind_eq_ok h
      obtain ⟨txid, -, h⟩ := exists_of_bind_eq_ok h
      obtain rfl := Except.ok.inj h
      rfl

/-- Only spendable outputs are listed. -/
theorem Regular.not_listed (h : s.Regular) (hslot : slot ∈ s.slots)
    (htaken : slot.isSpendable = false) {outputs : List Output} (hlist : s.list = .ok outputs) :
    ∀ o ∈ outputs, o.id ≠ slot.row.id := by
  intro o ho hid
  obtain ⟨row, hrow, hread⟩ := exists_of_mem_mapM hlist ho
  obtain ⟨slot', hmem, hfree, rfl⟩ := mem_spendable_iff.1 hrow
  obtain rfl := h.slot_eq hmem hslot ((id_of_read hread).symm.trans hid)
  rw [htaken] at hfree
  cases hfree

/-- What is allocated was spendable, and is claimed afterwards. -/
theorem exists_of_allocate {run : Int} {ask : Ask} {c : Candidate}
    (h : s.allocate run ask = .ok (some c, next)) :
    ∃ slot ∈ s.slots, slot.isSpendable = true ∧ slot.row.id = c.id ∧
      { slot with claim := some run } ∈ next.slots := by
  cases effect_of_allocate h with
  | claimed hopen hpick hread =>
    obtain ⟨slot, hmem, hfree, rfl⟩ := mem_spendable_iff.1 (mem_of_pick hpick)
    refine ⟨slot, hmem, hfree, (id_of_readCandidate hread).symm, ?_⟩
    exact List.mem_map.2 ⟨slot, hmem, if_pos (beq_self_eq_true slot.row.id)⟩

/-- Only spendable outputs are allocated. -/
theorem Regular.not_allocated (h : s.Regular) (hslot : slot ∈ s.slots)
    (htaken : slot.isSpendable = false) {run : Int} {ask : Ask} {c : Candidate}
    (hallocate : s.allocate run ask = .ok (some c, next)) : c.id ≠ slot.row.id := by
  intro hid
  obtain ⟨slot', hmem, hfree, hid', -⟩ := exists_of_allocate hallocate
  obtain rfl := h.slot_eq hmem hslot (hid'.trans hid)
  rw [htaken] at hfree
  cases hfree

/-- Only what a run claims is among its claims. -/
theorem Regular.not_claimed (h : s.Regular) (hslot : slot ∈ s.slots) {run : Int}
    (hclaim : slot.claim ≠ some run) {cs : List Candidate} (hcs : s.allocations run = .ok cs) :
    ∀ c ∈ cs, c.id ≠ slot.row.id := by
  intro c hc hid
  obtain ⟨row, hrow, hread⟩ := exists_of_mem_mapM hcs hc
  obtain ⟨slot', hmem, hheld, rfl⟩ := mem_claimed_iff.1 hrow
  obtain rfl := h.slot_eq hmem hslot ((id_of_readCandidate hread).symm.trans hid)
  exact hclaim hheld

/-- Outputs that fit their columns pass the check. -/
theorem forM_check_eq_ok {change : List NewOutput}
    (h : ∀ o ∈ change, o.vout ≤ Word.maxSigned32 ∧ o.satoshis ≤ Word.maxSigned64) :
    change.forM NewOutput.check = .ok () := by
  induction change with
  | nil => rfl
  | cons o rest ih =>
    obtain ⟨⟨hvout, hsatoshis⟩, hrest⟩ := List.forall_mem_cons.1 h
    have hcheck : o.check = .ok () := by
      rw [NewOutput.check, NewOutput.row, if_neg (Nat.not_lt.2 hvout),
        if_neg (Nat.not_lt.2 hsatoshis)]
      rfl
    rw [List.forM, hcheck]
    exact ih hrest

/-- A run that has ended does not pass for open. -/
theorem Regular.ensureOpen_eq_error (h : s.Regular) {r : RunRow} (hr : r ∈ s.runs)
    (hended : r.status ≠ .int RunStatus.opened.code) :
    s.ensureOpen r.id = .error (.runNotOpen r.id) := by
  rw [ensureOpen, h.find?_runs hr]
  cases h.runs r hr with
  | opened id => exact absurd rfl hended
  | completed id txid => rfl
  | aborted id => rfl

/-- **Ended runs are refused** whatever only an open run can do. -/
theorem Regular.perform_eq_error (h : s.Regular) {r : RunRow} (hr : r ∈ s.runs)
    (hended : r.status ≠ .int RunStatus.opened.code) {op : Op} (hop : op.Requires r.id) :
    s.perform op = .error (.runNotOpen r.id) := by
  have hclosed := h.ensureOpen_eq_error hr hended
  cases hop with
  | allocate ask => simp only [perform, allocate, hclosed, bind, Except.bind, Except.map]
  | release id => simp only [perform, release, hclosed, bind, Except.bind, Except.map]
  | complete txid change hfits =>
    simp only [perform, complete, forM_check_eq_ok hfits, hclosed, bind, Except.bind, Except.map]
  | abort => simp only [perform, abort, hclosed, bind, Except.bind, Except.map]

end

section
variable {past later : List Op} {run : Int} {next : Store}

/-- While nothing ends the claim of a run on an output, no run is given the output again. -/
theorem ne_of_allocate_again {ask : Ask} {c : Candidate}
    (hallocate : (after past).allocate run ask = .ok (some c, next))
    (hkept : ∀ before op rest, later = before ++ op :: rest → op.ends run c.id = true →
      ∃ fault, (after (past ++ .allocate run ask :: before)).perform op = .error fault)
    {run' : Int} {ask' : Ask} {c' : Candidate} {next' : Store}
    (hagain : (after (past ++ .allocate run ask :: later)).allocate run' ask'
      = .ok (some c', next')) : c'.id ≠ c.id := by
  obtain ⟨slot, -, -, hid, hmem⟩ := exists_of_allocate hallocate
  have hperform : (after past).perform (.allocate run ask) = .ok (.allocated (some c), next) := by
    rw [perform, hallocate]
    rfl
  rw [← after_concat_of_ok hperform] at hmem
  rw [List.append_cons] at hagain
  have htaken : Slot.isSpendable { slot with claim := some run } = false := by
    simp [Slot.isSpendable]
  have hstays := mem_slots_after later hmem htaken fun r hr before op rest heq hends => by
    obtain rfl := Option.some.inj hr
    rw [← List.append_cons]
    exact hkept before op rest heq (by rwa [← hid])
  rw [← hid]
  exact (regular_after _).not_allocated hstays htaken hagain

/-- What a run claims when it completes is spent by its transaction, for good. -/
theorem spent_of_complete (later : List Op) {txid : Txid} {change : List NewOutput}
    {settlement : Settlement}
    (hcomplete : (after past).complete run txid change = .ok (settlement, next)) :
    (after (past ++ .complete run txid change :: later)).runs.find? (·.id == run)
      = some (.completed run txid) ∧
    ∀ id, (id, run) ∈ (after past).claims → ∃ row ∈ (after past).rows, row.id = id ∧
      (after (past ++ .complete run txid change :: later)).rows.find? (·.id == id)
        = some (row.spentBy txid) := by
  have hperform : (after past).perform (.complete run txid change)
      = .ok (.completed settlement, next) := by
    rw [perform, hcomplete]
    rfl
  obtain ⟨hrun, hslots⟩ :=
    (effect_of_perform hperform).mem_of_completed (regular_after past)
  rw [← after_concat_of_ok hperform] at hrun hslots
  rw [List.append_cons]
  constructor
  · exact (regular_after _).find?_runs
      (mem_runs_after later hrun
        (by decide : Cell.int RunStatus.completed.code ≠ .int RunStatus.opened.code))
  · intro id hclaim
    obtain ⟨slot, hslot, rfl, hheld⟩ := mem_claims_iff.1 hclaim
    refine ⟨slot.row, List.mem_map_of_mem hslot, rfl, ?_⟩
    have hspent := mem_slots_of_spent later
      (List.mem_map_of_mem (hslots slot hslot hheld)) (by decide : Cell.int 1 ≠ .int 0)
    exact (regular_after _).find?_rows hspent

end

/-- **No output is spent twice**, whatever operations are tried on a store, in whatever order and by
however many runs. -/
theorem after_spendsOnce (past later : List Op) : SpendsOnce past later where
  spent_stays row hrow hspent :=
    (regular_after (past ++ later)).find?_rows (mem_slots_of_spent later hrow hspent)
  spent_not_listed row hrow hspent outputs hlist :=
    (regular_after _).not_listed (mem_slots_of_spent later hrow hspent)
      (by simpa [Slot.isSpendable] using hspent) hlist
  spent_not_allocated row hrow hspent run ask c next hallocate :=
    (regular_after _).not_allocated (mem_slots_of_spent later hrow hspent)
      (by simpa [Slot.isSpendable] using hspent) hallocate
  spent_not_claimed row hrow hspent run cs hcs :=
    (regular_after _).not_claimed (mem_slots_of_spent later hrow hspent) (by simp) hcs
  claimed_once run ask c next hallocate hkept run' ask' c' next' hagain :=
    ne_of_allocate_again hallocate hkept hagain
  completed_spends run txid change settlement next hcomplete := spent_of_complete later hcomplete
  ended_stays r hr hended := (regular_after _).find?_runs (mem_runs_after later hr hended)
  ended_refused r hr hended op hop := by
    have hrefused := (regular_after (past ++ later)).perform_eq_error
      (mem_runs_after later hr hended) hended hop
    refine ⟨hrefused, ?_⟩
    rw [step, hrefused]

end Store

end CoinPurse
