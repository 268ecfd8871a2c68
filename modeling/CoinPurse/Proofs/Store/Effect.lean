import CoinPurse.Proofs.Selection
import CoinPurse.Store.History

/-!
# What operations do to a store

An operation that succeeds does one of eight things to a store. `Effect` lists them, each with the
receipt and the store it leaves; `effect_of_perform` says that there are no others. What holds after
every operation is proved by going through this list once (`after_keeps`).

An operation that fails does nothing. A request fails over its run or over what it reads, but not
for having lost an output to another run (`isDuplicate_of_allocate`).

Completing a run is put down as if the run were closed before its change is stored. The order makes
no difference, since storing outputs does not look at runs (`insertAll_setRun`).
-/

namespace CoinPurse

/-- A check followed by something else succeeds only if both do. -/
theorem exists_of_bind_eq_ok {ε α β : Type} {x : Except ε α} {f : α → Except ε β} {b : β}
    (h : x >>= f = .ok b) : ∃ a, x = .ok a ∧ f a = .ok b := by
  cases x with
  | error e => cases h
  | ok a => exact ⟨a, rfl, h⟩

/-- What is made of a result comes from the result. -/
theorem exists_of_map_eq_ok {ε α β : Type} {x : Except ε α} {f : α → β} {b : β}
    (h : x.map f = .ok b) : ∃ a, x = .ok a ∧ f a = b := by
  cases x with
  | error e => cases h
  | ok a => exact ⟨a, rfl, Except.ok.inj h⟩

/-- A check followed by something else fails if the check does, or what follows it. -/
theorem cases_of_bind_eq_error {ε α β : Type} {x : Except ε α} {f : α → Except ε β} {e : ε}
    (h : x >>= f = .error e) : x = .error e ∨ ∃ a, x = .ok a ∧ f a = .error e := by
  cases x with
  | error e' => exact .inl (congrArg Except.error (Except.error.inj h))
  | ok a => exact .inr ⟨a, rfl, h⟩

namespace Store

/-- The columns of an open run. -/
def RunRow.opened (id : Int) : RunRow := ⟨id, .int RunStatus.opened.code, .null⟩

/-- The columns of a run completed with a transaction. -/
def RunRow.completed (id : Int) (txid : Txid) : RunRow :=
  ⟨id, .int RunStatus.completed.code, .bytes txid.bytes⟩

/-- The columns of an aborted run. -/
def RunRow.aborted (id : Int) : RunRow := ⟨id, .int RunStatus.aborted.code, .null⟩

/-- The store with one more output, on which there is no claim. -/
def push (row : Row) (s : Store) : Store := { s with slots := s.slots ++ [⟨row, none⟩] }

/-- The store with a run completed and what it claimed spent, without the change. -/
def settle (run : Int) (txid : Txid) (s : Store) : Store :=
  (s.spendClaims run txid).setRun run fun r => { r with
    status := .int RunStatus.completed.code, spendingTxid := .bytes txid.bytes }

/-- The store with a run aborted and its claims dropped. -/
def withdraw (run : Int) (s : Store) : Store :=
  (s.dropClaims run).setRun run fun r => { r with status := .int RunStatus.aborted.code }

/-- What an operation that succeeds may do to a store. -/
inductive Effect (s : Store) : Op → Receipt → Store → Prop where
  /-- a new output is stored -/
  | added {o : NewOutput} {row : Row} (hrow : o.row s.nextOutputId = .ok row)
      (hnew : ∀ slot ∈ s.slots, slot.hasOutpoint row.txid row.vout = false) :
      Effect s (.add o) (.added row.id) (s.push row)
  /-- the output is stored already -/
  | known {o : NewOutput} {row : Row} {slot : Slot} (hrow : o.row s.nextOutputId = .ok row)
      (hslot : s.slots.find? (Slot.hasOutpoint row.txid row.vout) = some slot) :
      Effect s (.add o) (.added slot.row.id) s
  /-- a run is opened -/
  | begun : Effect s .begin (.begun s.nextRunId) s.begin.2
  /-- there is nothing to claim -/
  | unanswered {run : Int} {ask : Ask} (hopen : s.ensureOpen run = .ok ())
      (hpick : pick s.spendable ask = none) :
      Effect s (.allocate run ask) (.allocated none) s
  /-- a spendable output is claimed -/
  | claimed {run : Int} {ask : Ask} {row : Row} {c : Candidate}
      (hopen : s.ensureOpen run = .ok ()) (hpick : pick s.spendable ask = some row)
      (hread : row.readCandidate = .ok c) :
      Effect s (.allocate run ask) (.allocated (some c)) (s.setClaim row.id (some run))
  /-- a claim is lifted -/
  | released {run id : Int} {slot : Slot} (hopen : s.ensureOpen run = .ok ())
      (hslot : slot ∈ s.slots) (hid : slot.row.id = id) (hheld : slot.claim = some run) :
      Effect s (.release run id) .released (s.setClaim id none)
  /-- a run is completed, and its change is stored -/
  | completed {run : Int} {txid : Txid} {change : List NewOutput} {ids : List Int} {next : Store}
      (hcheck : change.forM NewOutput.check = .ok ()) (hopen : s.ensureOpen run = .ok ())
      (hinsert : insertAll change (s.settle run txid) = .ok (ids, next)) :
      Effect s (.complete run txid change) (.completed ⟨ids, (s.claimed run).length⟩) next
  /-- a run is aborted -/
  | aborted {run : Int} (hopen : s.ensureOpen run = .ok ()) :
      Effect s (.abort run) (.aborted (s.claimed run).length) (s.withdraw run)

section
variable {s next : Store} {run id : Int} {ask : Ask}

/-- A spendable row is that of a spendable output. -/
theorem mem_spendable_iff {row : Row} :
    row ∈ s.spendable ↔ ∃ slot ∈ s.slots, slot.isSpendable = true ∧ slot.row = row := by
  simp only [spendable, List.mem_map, List.mem_filter, and_assoc]

/-- What is spendable is not claimed. -/
theorem Slot.claim_of_isSpendable {slot : Slot} (h : slot.isSpendable = true) :
    slot.claim = none := by
  rw [Slot.isSpendable, Bool.and_eq_true, Option.isNone_iff_eq_none] at h
  exact h.2

/-- A row that a run claims is that of an output with its claim. -/
theorem mem_claimed_iff {row : Row} :
    row ∈ s.claimed run ↔ ∃ slot ∈ s.slots, slot.claim = some run ∧ slot.row = row := by
  simp only [claimed, List.mem_map, List.mem_filter, Slot.isClaimedBy, beq_iff_eq, and_assoc]

/-- What is picked is one of the rows. -/
theorem mem_of_pick {rows : List Row} {row : Row} (h : pick rows ask = some row) : row ∈ rows := by
  simp only [pick, Option.orElse_eq_orElse, Option.orElse_eq_or, Option.or_eq_some_iff] at h
  rcases h with h | ⟨-, h | ⟨-, h⟩⟩
  all_goals exact (List.mem_filter.1 (mem_of_best? h)).1

/-- A candidate is known by the id of its row. -/
theorem id_of_readCandidate {row : Row} {c : Candidate} (h : row.readCandidate = .ok c) :
    c.id = row.id := by
  obtain ⟨satoshis, -, h⟩ := exists_of_bind_eq_ok h
  obtain rfl := Except.ok.inj h
  rfl

/-- What storing an output does. -/
theorem effect_of_add {o : NewOutput} (h : s.add o = .ok (id, next)) :
    Effect s (.add o) (.added id) next := by
  obtain ⟨row, hrow, h⟩ := exists_of_bind_eq_ok h
  cases hslot : s.slots.find? (Slot.hasOutpoint row.txid row.vout) with
  | some slot =>
    rw [hslot] at h
    obtain ⟨rfl, rfl⟩ := Prod.mk.inj (Except.ok.inj h)
    exact .known hrow hslot
  | none =>
    rw [hslot] at h
    obtain ⟨rfl, rfl⟩ := Prod.mk.inj (Except.ok.inj h)
    exact .added hrow fun slot hmem => by simpa using List.find?_eq_none.1 hslot slot hmem

/-- What claiming an output does. -/
theorem effect_of_allocate {answer : Option Candidate}
    (h : s.allocate run ask = .ok (answer, next)) :
    Effect s (.allocate run ask) (.allocated answer) next := by
  obtain ⟨⟨⟩, hopen, h⟩ := exists_of_bind_eq_ok h
  cases hpick : pick s.spendable ask with
  | none =>
    rw [hpick] at h
    obtain ⟨rfl, rfl⟩ := Prod.mk.inj (Except.ok.inj h)
    exact .unanswered hopen hpick
  | some row =>
    rw [hpick] at h
    obtain ⟨c, hread, h⟩ := exists_of_bind_eq_ok h
    obtain ⟨rfl, rfl⟩ := Prod.mk.inj (Except.ok.inj h)
    rw [id_of_readCandidate hread]
    exact .claimed hopen hpick hread

/-- A run is never refused as a duplicate: it is missing or has ended, or its status is bad data. -/
theorem isDuplicate_of_ensureOpen {fault : Fault} (h : s.ensureOpen run = .error fault) :
    fault.isDuplicate = false := by
  rw [ensureOpen] at h
  cases hfind : s.runs.find? (·.id == run) with
  | none =>
    rw [hfind] at h
    obtain rfl := Except.error.inj h
    rfl
  | some row =>
    rw [hfind] at h
    rcases cases_of_bind_eq_error h with hstatus | ⟨status, -, hopen⟩
    · rw [RunRow.readStatus, RunStatus.ofCode] at hstatus
      split_ifs at hstatus
      obtain rfl := Except.error.inj hstatus
      rfl
    · cases status with
      | opened => cases hopen
      | completed | aborted =>
        obtain rfl := Except.error.inj hopen
        rfl

/-- **No claim is lost to another run.** A request fails over its run, or over an amount that cannot
be read, and never because the output is claimed already. So there is no use in making it again. -/
theorem isDuplicate_of_allocate {fault : Fault} (h : s.allocate run ask = .error fault) :
    fault.isDuplicate = false := by
  rcases cases_of_bind_eq_error h with hopen | ⟨⟨⟩, -, hpick⟩
  · exact isDuplicate_of_ensureOpen hopen
  · cases hrow : pick s.spendable ask with
    | none =>
      rw [hrow] at hpick
      cases hpick
    | some row =>
      rw [hrow] at hpick
      rcases cases_of_bind_eq_error hpick with hread | ⟨c, -, hclaim⟩
      · rcases cases_of_bind_eq_error hread with hamount | ⟨satoshis, -, hcandidate⟩
        · rw [readAmount] at hamount
          split_ifs at hamount
          obtain rfl := Except.error.inj hamount
          rfl
        · cases hcandidate
      · cases hclaim

/-- What giving back an output does. -/
theorem effect_of_release (h : s.release run id = .ok ((), next)) :
    Effect s (.release run id) .released next := by
  obtain ⟨⟨⟩, hopen, h⟩ := exists_of_bind_eq_ok h
  split at h
  · rename_i hany
    obtain ⟨slot, hslot, hheld⟩ := List.any_eq_true.1 hany
    obtain ⟨hid, hclaim⟩ : slot.row.id = id ∧ slot.claim = some run := by
      simpa [Slot.hasId, Slot.isClaimedBy] using hheld
    obtain ⟨-, rfl⟩ := Prod.mk.inj (Except.ok.inj h)
    exact .released hopen hslot hid hclaim
  · cases h

/-- What aborting a run does. -/
theorem effect_of_abort {released : Nat} (h : s.abort run = .ok (released, next)) :
    Effect s (.abort run) (.aborted released) next := by
  obtain ⟨⟨⟩, hopen, h⟩ := exists_of_bind_eq_ok h
  obtain ⟨rfl, rfl⟩ := Prod.mk.inj (Except.ok.inj h)
  exact .aborted hopen

/-- What storing a further output does. -/
theorem exists_of_insert {o : NewOutput} (h : s.insert o = .ok (id, next)) :
    ∃ row, o.row s.nextOutputId = .ok row ∧
      (∀ slot ∈ s.slots, slot.hasOutpoint row.txid row.vout = false) ∧
      id = row.id ∧ next = s.push row := by
  obtain ⟨row, hrow, h⟩ := exists_of_bind_eq_ok h
  split at h
  · cases h
  · rename_i hany
    obtain ⟨rfl, rfl⟩ := Prod.mk.inj (Except.ok.inj h)
    refine ⟨row, hrow, fun slot hslot => ?_, rfl, rfl⟩
    by_contra hsame
    exact hany (List.any_eq_true.2 ⟨slot, hslot, by simpa using hsame⟩)

/-- What holds with one more output, holds with several more. -/
theorem insertAll_keeps {P : Store → Prop}
    (hpush : ∀ s o row, P s → NewOutput.row o s.nextOutputId = .ok row →
      (∀ slot ∈ s.slots, slot.hasOutpoint row.txid row.vout = false) → P (s.push row))
    {outputs : List NewOutput} {ids : List Int} (h : P s)
    (hinsert : insertAll outputs s = .ok (ids, next)) : P next := by
  induction outputs generalizing s ids with
  | nil =>
    obtain ⟨-, rfl⟩ := Prod.mk.inj (Except.ok.inj hinsert)
    exact h
  | cons o rest ih =>
    obtain ⟨⟨id, s₁⟩, hfirst, hinsert⟩ := exists_of_bind_eq_ok hinsert
    obtain ⟨⟨later, s₂⟩, hrest, hinsert⟩ := exists_of_bind_eq_ok hinsert
    obtain ⟨-, rfl⟩ := Prod.mk.inj (Except.ok.inj hinsert)
    obtain ⟨row, hrow, hnew, -, rfl⟩ := exists_of_insert hfirst
    exact ih (hpush s o row h hrow hnew) hrest

/-- Storing an output does not look at runs. -/
theorem insert_setRun {o : NewOutput} (change : RunRow → RunRow) (h : s.insert o = .ok (id, next)) :
    (s.setRun run change).insert o = .ok (id, next.setRun run change) := by
  obtain ⟨row, hrow, hnew, rfl, rfl⟩ := exists_of_insert h
  have hany : ¬ s.slots.any (Slot.hasOutpoint row.txid row.vout) = true := by
    rw [List.any_eq_true]
    rintro ⟨slot, hslot, hsame⟩
    rw [hnew slot hslot] at hsame
    cases hsame
  have hrow' : o.row (s.setRun run change).nextOutputId = .ok row := hrow
  simp only [insert, hrow', bind, Except.bind]
  exact if_neg hany

/-- Storing outputs does not look at runs. -/
theorem insertAll_setRun {outputs : List NewOutput} {ids : List Int} (change : RunRow → RunRow)
    (h : insertAll outputs s = .ok (ids, next)) :
    insertAll outputs (s.setRun run change) = .ok (ids, next.setRun run change) := by
  induction outputs generalizing s ids with
  | nil =>
    obtain ⟨rfl, rfl⟩ := Prod.mk.inj (Except.ok.inj h)
    rfl
  | cons o rest ih =>
    obtain ⟨⟨id, s₁⟩, hfirst, h⟩ := exists_of_bind_eq_ok h
    obtain ⟨⟨later, s₂⟩, hrest, h⟩ := exists_of_bind_eq_ok h
    obtain ⟨rfl, rfl⟩ := Prod.mk.inj (Except.ok.inj h)
    simp only [insertAll, insert_setRun change hfirst, ih hrest, bind, Except.bind]
    rfl

/-- What completing a run does. -/
theorem effect_of_complete {txid : Txid} {change : List NewOutput} {settlement : Settlement}
    (h : s.complete run txid change = .ok (settlement, next)) :
    Effect s (.complete run txid change) (.completed settlement) next := by
  obtain ⟨⟨⟩, hcheck, h⟩ := exists_of_bind_eq_ok h
  obtain ⟨⟨⟩, hopen, h⟩ := exists_of_bind_eq_ok h
  obtain ⟨⟨ids, s₁⟩, hinsert, h⟩ := exists_of_bind_eq_ok h
  obtain ⟨rfl, rfl⟩ := Prod.mk.inj (Except.ok.inj h)
  exact .completed hcheck hopen (insertAll_setRun _ hinsert)

end

/-- **What operations do.** An operation that succeeds does one of the things listed. -/
theorem effect_of_perform {s next : Store} {op : Op} {receipt : Receipt}
    (h : s.perform op = .ok (receipt, next)) : Effect s op receipt next := by
  cases op with
  | add o =>
    obtain ⟨⟨id, s'⟩, hadd, heq⟩ := exists_of_map_eq_ok h
    obtain ⟨rfl, rfl⟩ := Prod.mk.inj heq
    exact effect_of_add hadd
  | begin =>
    obtain ⟨rfl, rfl⟩ := Prod.mk.inj (Except.ok.inj h)
    exact .begun
  | allocate run ask =>
    obtain ⟨⟨answer, s'⟩, hallocate, heq⟩ := exists_of_map_eq_ok h
    obtain ⟨rfl, rfl⟩ := Prod.mk.inj heq
    exact effect_of_allocate hallocate
  | release run id =>
    obtain ⟨⟨⟨⟩, s'⟩, hrelease, heq⟩ := exists_of_map_eq_ok h
    obtain ⟨rfl, rfl⟩ := Prod.mk.inj heq
    exact effect_of_release hrelease
  | complete run txid change =>
    obtain ⟨⟨settlement, s'⟩, hcomplete, heq⟩ := exists_of_map_eq_ok h
    obtain ⟨rfl, rfl⟩ := Prod.mk.inj heq
    exact effect_of_complete hcomplete
  | abort run =>
    obtain ⟨⟨released, s'⟩, habort, heq⟩ := exists_of_map_eq_ok h
    obtain ⟨rfl, rfl⟩ := Prod.mk.inj heq
    exact effect_of_abort habort

/-- The store after one more operation. -/
theorem after_concat (history : List Op) (op : Op) :
    after (history ++ [op]) = (after history).step op := by
  rw [after, after, List.foldl_append]
  rfl

/-- **What no operation breaks holds after every history.** -/
theorem after_keeps {P : Store → Prop} (hempty : P empty)
    (hkeeps : ∀ s op receipt next, P s → Effect s op receipt next → P next) (history : List Op) :
    P (after history) := by
  induction history using List.reverseRecOn with
  | nil => exact hempty
  | append_singleton history op ih =>
    rw [after_concat, step]
    cases hperform : (after history).perform op with
    | error fault => exact ih
    | ok result => exact hkeeps _ _ _ _ ih (effect_of_perform hperform)

end Store

end CoinPurse
