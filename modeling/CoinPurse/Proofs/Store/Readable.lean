import CoinPurse.Proofs.Identity

/-!
# Nothing stored is unreadable

What a store is given is narrowed to its columns when it is written, and the columns are checked
again, one by one, when they are read. So an operation may complain of data in two ways
(`Complains`): what it was given does not fit, or what it finds in a row is not what it should be.

In a store that only operations have changed the second never happens (`after_readable`). Every row
is read, whatever has become of the output or the run in it, and an operation complains exactly if
an output among its arguments does not fit (`NewOutput.Exceeds`). The balance is the one answer that
may not fit itself: it is refused if the spendable outputs are worth more than a word holds.
-/

namespace CoinPurse.Store

/-- The answer is a complaint about data. -/
def Complains {α : Type} (answer : Except Fault α) : Prop :=
  ∃ cause, answer = .error (.invalidData cause)

/-- An output that does not fit its columns. -/
def NewOutput.Exceeds (o : NewOutput) : Prop :=
  Word.maxSigned32 < o.vout ∨ Word.maxSigned64 < o.satoshis

/-- A store that can read all it holds. -/
structure Readable (s : Store) : Prop where
  /-- under each id it gives the output, or says that there is none -/
  get : ∀ id, (∃ o, s.get id = .ok (some o) ∧ o.id = id) ∨
    (s.get id = .ok none ∧ id ∉ s.rows.map (·.id))
  /-- so it does with runs -/
  getRun : ∀ run, (∃ r, s.getRun run = .ok (some r) ∧ r.id = run) ∨
    (s.getRun run = .ok none ∧ run ∉ s.runs.map (·.id))
  /-- it lists what is spendable and counts as much, and it gives the balance unless that is more
  than a word holds -/
  list : ∃ outputs, s.list = .ok outputs ∧ s.count = outputs.length ∧
    (Complains s.balance ↔ Word.max64 < totalOf (outputs.map (·.satoshis)))
  /-- it lists what a run claims -/
  allocations : ∀ run, ∃ cs, s.allocations run = .ok cs
  /-- a request may fail, but not on account of data -/
  allocate : ∀ run ask, ¬ Complains (s.allocate run ask)
  /-- so may giving back -/
  release : ∀ run id, ¬ Complains (s.release run id)
  /-- and aborting -/
  abort : ∀ run, ¬ Complains (s.abort run)
  /-- an output is complained of exactly if it does not fit -/
  add : ∀ o, Complains (s.add o) ↔ o.Exceeds
  /-- and change exactly if one of its outputs does not fit -/
  complete : ∀ run txid change,
    Complains (s.complete run txid change) ↔ ∃ o ∈ change, o.Exceeds

/-! ## Complaints -/

section
variable {α β : Type} {x : Except Fault α}

/-- An answer that is given is no complaint. -/
theorem not_complains_ok (a : α) : ¬ Complains (.ok a) := by
  rintro ⟨cause, h⟩
  cases h

/-- Of two steps the first complains, or else the second. -/
theorem complains_bind_iff {f : α → Except Fault β} :
    Complains (x >>= f) ↔ Complains x ∨ ∃ a, x = .ok a ∧ Complains (f a) := by
  cases x with
  | ok a =>
    constructor
    · intro h
      exact .inr ⟨a, rfl, h⟩
    · rintro (h | ⟨b, hb, h⟩)
      · exact absurd h (not_complains_ok a)
      · obtain rfl := Except.ok.inj hb
        exact h
  | error fault =>
    constructor
    · rintro ⟨cause, h⟩
      exact .inl ⟨cause, congrArg Except.error (Except.error.inj h)⟩
    · rintro (⟨cause, h⟩ | ⟨a, h, -⟩)
      · exact ⟨cause, congrArg Except.error (Except.error.inj h)⟩
      · cases h

/-- After a step that does not complain only the next one may. -/
theorem complains_bind_iff_of_not {f : α → Except Fault β} (hx : ¬ Complains x) :
    Complains (x >>= f) ↔ ∃ a, x = .ok a ∧ Complains (f a) := by
  rw [complains_bind_iff]
  exact or_iff_right hx

end

/-! ## What is written -/

section
variable {o : NewOutput} {change : List NewOutput}

/-- An output that does not exceed its columns fits them. -/
theorem NewOutput.not_exceeds_iff :
    ¬ o.Exceeds ↔ o.vout ≤ Word.maxSigned32 ∧ o.satoshis ≤ Word.maxSigned64 := by
  rw [Exceeds, not_or, Nat.not_lt, Nat.not_lt]

/-- An output is refused as a row exactly if it does not fit. -/
theorem complains_row_iff (id : Int) : Complains (o.row id) ↔ o.Exceeds := by
  constructor
  · rintro ⟨cause, h⟩
    by_contra hfits
    obtain ⟨hvout, hsatoshis⟩ := NewOutput.not_exceeds_iff.1 hfits
    obtain ⟨row, hrow⟩ := exists_row_eq_ok hvout hsatoshis id
    rw [hrow] at h
    cases h
  · intro h
    rw [NewOutput.row]
    split
    · exact ⟨_, rfl⟩
    · rename_i hvout
      rw [if_pos (h.resolve_left hvout)]
      exact ⟨_, rfl⟩

/-- An output is refused when it is checked beforehand exactly if it does not fit. -/
theorem complains_check_iff : Complains o.check ↔ o.Exceeds := by
  rw [← complains_row_iff 0, NewOutput.check]
  cases o.row 0 with
  | ok row => exact iff_of_false (not_complains_ok ()) (not_complains_ok row)
  | error fault => simp [Complains, Except.map]

/-- Change is refused exactly if one of its outputs does not fit. -/
theorem complains_forM_check_iff :
    Complains (change.forM NewOutput.check) ↔ ∃ o ∈ change, o.Exceeds := by
  constructor
  · rintro ⟨cause, h⟩
    by_contra hfits
    rw [forM_check_eq_ok fun o ho => NewOutput.not_exceeds_iff.1 fun hlarge =>
      hfits ⟨o, ho, hlarge⟩] at h
    cases h
  · rintro ⟨o, ho, hlarge⟩
    induction change with
    | nil => cases ho
    | cons first rest ih =>
      change Complains (first.check >>= fun _ => rest.forM NewOutput.check)
      rw [complains_bind_iff, complains_check_iff]
      by_cases hfirst : first.Exceeds
      · exact .inl hfirst
      · have hrest : o ∈ rest := (List.mem_cons.1 ho).resolve_left fun heq => hfirst (heq ▸ hlarge)
        have hok : first.check = .ok () := by
          obtain ⟨row, hrow⟩ := exists_row_eq_ok (NewOutput.not_exceeds_iff.1 hfirst).1
            (NewOutput.not_exceeds_iff.1 hfirst).2 0
          rw [NewOutput.check, hrow]
          rfl
        exact .inr ⟨(), hok, ih hrest⟩

/-- Outputs that fit are stored without complaint, though not always. -/
theorem not_complains_insertAll (hfits : ∀ o ∈ change, ¬ o.Exceeds) (s : Store) :
    ¬ Complains (insertAll change s) := by
  induction change generalizing s with
  | nil => exact not_complains_ok _
  | cons o rest ih =>
    obtain ⟨ho, hrest⟩ := List.forall_mem_cons.1 hfits
    have hinsert : ¬ Complains (s.insert o) := by
      rw [insert, complains_bind_iff, complains_row_iff]
      rintro (h | ⟨row, -, h⟩)
      · exact ho h
      · split at h
        · obtain ⟨cause, h⟩ := h
          cases h
        · exact not_complains_ok _ h
    rw [insertAll, complains_bind_iff_of_not hinsert]
    rintro ⟨⟨id, next⟩, -, h⟩
    rw [complains_bind_iff_of_not (ih hrest next)] at h
    obtain ⟨⟨ids, last⟩, -, h⟩ := h
    exact not_complains_ok _ h

end

/-! ## What is read -/

section
variable {s : Store} {run : Int}

/-- A run that stands is read. -/
theorem RunRow.Stands.exists_read {r : RunRow} (h : r.Stands) :
    ∃ run, r.read = .ok run ∧ run.id = r.id := by
  cases h with
  | opened id => exact ⟨⟨id, .opened, none⟩, rfl, rfl⟩
  | completed id txid =>
    have hspending : readSpending (.bytes txid.bytes) = .ok (some txid) := by
      rw [readSpending, if_neg Cell.noConfusion, Cell.content, Txid.ofBytes?_bytes]
    refine ⟨⟨id, .completed, some txid⟩, ?_, rfl⟩
    rw [RunRow.read, RunRow.completed, hspending]
    rfl
  | aborted id => exact ⟨⟨id, .aborted, none⟩, rfl, rfl⟩

/-- **Every run is read**, open or ended. -/
theorem Regular.getRun_cases (h : s.Regular) (run : Int) :
    (∃ r, s.getRun run = .ok (some r) ∧ r.id = run) ∨
      (s.getRun run = .ok none ∧ run ∉ s.runs.map (·.id)) := by
  cases hfind : s.runs.find? (·.id == run) with
  | none =>
    refine .inr ⟨by rw [getRun, hfind], ?_⟩
    intro hmem
    obtain ⟨row, hrow, rfl⟩ := List.mem_map.1 hmem
    simpa using List.find?_eq_none.1 hfind row hrow
  | some row =>
    obtain ⟨r, hread, hid⟩ := (h.runs row (List.mem_of_find?_eq_some hfind)).exists_read
    refine .inl ⟨r, ?_, hid.trans (by simpa using List.find?_some hfind)⟩
    rw [getRun, hfind]
    change row.read.map some = _
    rw [hread]
    rfl

/-- **Every output is read**, free, claimed or spent. -/
theorem Regular.get_cases (h : s.Regular) (hwritten : s.Written) (id : Int) :
    (∃ o, s.get id = .ok (some o) ∧ o.id = id) ∨
      (s.get id = .ok none ∧ id ∉ s.rows.map (·.id)) := by
  by_cases hmem : id ∈ s.rows.map (·.id)
  · rw [rows, List.map_map] at hmem
    obtain ⟨slot, hslot, rfl⟩ := List.mem_map.1 hmem
    obtain ⟨o, ho⟩ := hwritten slot hslot
    obtain ⟨output, hget, hid, -⟩ := h.exists_get hslot ho
    exact .inl ⟨output, hget, hid⟩
  · have hnone : s.slots.find? (Slot.hasId id) = none := by
      rw [List.find?_eq_none]
      intro slot hslot hid
      refine hmem (List.mem_map.2 ⟨slot.row, List.mem_map_of_mem hslot, ?_⟩)
      simpa [Slot.hasId] using hid
    exact .inr ⟨by rw [get, hnone], hmem⟩

/-- Whether a run is open can be told without complaint. -/
theorem Regular.not_complains_ensureOpen (h : s.Regular) (run : Int) :
    ¬ Complains (s.ensureOpen run) := by
  rintro ⟨cause, hopen⟩
  rw [ensureOpen] at hopen
  cases hfind : s.runs.find? (·.id == run) with
  | none =>
    rw [hfind] at hopen
    cases hopen
  | some row =>
    rw [hfind] at hopen
    cases h.runs row (List.mem_of_find?_eq_some hfind) with
    | opened id => cases hopen
    | completed id txid => cases hopen
    | aborted id => cases hopen

/-! ## Operations -/

/-- A request finds nothing to complain of. -/
theorem Regular.not_complains_allocate (h : s.Regular) (hwritten : s.Written) (ask : Ask) :
    ¬ Complains (s.allocate run ask) := by
  rw [allocate, complains_bind_iff_of_not (h.not_complains_ensureOpen run)]
  rintro ⟨-, -, hpick⟩
  cases hrow : pick s.spendable ask with
  | none =>
    rw [hrow] at hpick
    exact not_complains_ok _ hpick
  | some row =>
    obtain ⟨o, ho⟩ := hwritten.holds_spendable row (mem_of_pick hrow)
    simp only [hrow, ho.readCandidate_eq] at hpick
    exact not_complains_ok _ hpick

/-- Giving back an output finds nothing to complain of. -/
theorem Regular.not_complains_release (h : s.Regular) (id : Int) :
    ¬ Complains (s.release run id) := by
  rw [release, complains_bind_iff_of_not (h.not_complains_ensureOpen run)]
  rintro ⟨-, -, hrelease⟩
  split at hrelease
  · exact not_complains_ok _ hrelease
  · obtain ⟨cause, hrelease⟩ := hrelease
    cases hrelease

/-- Aborting a run finds nothing to complain of. -/
theorem Regular.not_complains_abort (h : s.Regular) : ¬ Complains (s.abort run) := by
  rw [abort, complains_bind_iff_of_not (h.not_complains_ensureOpen run)]
  rintro ⟨-, -, habort⟩
  exact not_complains_ok _ habort

/-- Adding an output looks at no other row. -/
theorem complains_add_iff (o : NewOutput) : Complains (s.add o) ↔ o.Exceeds := by
  rw [add, complains_bind_iff, complains_row_iff]
  refine or_iff_left ?_
  rintro ⟨row, -, hadd⟩
  split at hadd
  · exact not_complains_ok _ hadd
  · exact not_complains_ok _ hadd

/-- Completing a run complains of its change only. -/
theorem Regular.complains_complete_iff (h : s.Regular) (txid : Txid) (change : List NewOutput) :
    Complains (s.complete run txid change) ↔ ∃ o ∈ change, o.Exceeds := by
  rw [complete, complains_bind_iff, complains_forM_check_iff]
  refine or_iff_left_of_imp ?_
  rintro ⟨-, -, hrest⟩
  rw [complains_bind_iff_of_not (h.not_complains_ensureOpen run)] at hrest
  obtain ⟨-, -, hrest⟩ := hrest
  -- outputs that fit are stored without complaint, so one of them does not
  by_contra hfits
  rw [complains_bind_iff_of_not
    (not_complains_insertAll (fun o ho hlarge => hfits ⟨o, ho, hlarge⟩) _)] at hrest
  obtain ⟨⟨ids, next⟩, -, hrest⟩ := hrest
  exact not_complains_ok _ hrest

end

/-- The balance is refused exactly if the spendable outputs are worth more than a word holds. -/
theorem Ledger.complains_balance_iff {s : Store} {outputs : List Output} (h : s.Ledger outputs) :
    Complains s.balance ↔ Word.max64 < totalOf (outputs.map (·.satoshis)) := by
  rw [h.balance_eq]
  split
  · rename_i hover
    exact iff_of_true ⟨_, rfl⟩ hover
  · rename_i hfits
    exact iff_of_false (not_complains_ok _) hfits

/-- **Nothing stored is unreadable.** Whatever operations have been tried on a store, it reads all
it holds, and it complains of data exactly where the data that it is given do not fit, or where the
balance would not. -/
theorem after_readable (history : List Op) : (after history).Readable := by
  have hregular := regular_after history
  have hwritten := written_after history
  obtain ⟨outputs, hledger⟩ := after_ledger history
  constructor
  case get => exact hregular.get_cases hwritten
  case getRun => exact hregular.getRun_cases
  case list => exact ⟨outputs, hledger.list_eq, hledger.count_eq, hledger.complains_balance_iff⟩
  case allocations => exact fun run => ⟨_, hwritten.allocations_eq run⟩
  case allocate => exact fun run ask => hregular.not_complains_allocate hwritten ask
  case release => exact fun run id => hregular.not_complains_release id
  case abort => exact fun run => hregular.not_complains_abort
  case add => exact complains_add_iff
  case complete => exact fun run => hregular.complains_complete_iff

end CoinPurse.Store
