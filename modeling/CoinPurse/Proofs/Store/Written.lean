import CoinPurse.Proofs.Store.Regular

/-!
# What is written can be read

Operations write an output in one form only (`Row.Holds`), and afterwards they change nothing of it
but the marks of its spending. So in a store that only operations have changed every row holds an
output (`written_after`), and every row can be read (`Row.Holds.read_eq`).

What is picked from such rows is what would be chosen from the candidates they stand for
(`pick_eq_choose`). A row holds a signed word and a request may name more, so the request is cut
down before it meets the rows. That makes no difference, since no row holds as much.
-/

namespace CoinPurse

/-- If something can be made of every member of a list, it can be made of the list. -/
theorem exists_mapM_eq_ok {ε α β γ : Type} {f : α → Except ε β} {g : β → γ} {k : α → γ}
    {xs : List α} (h : ∀ x ∈ xs, ∃ y, f x = .ok y ∧ g y = k x) :
    ∃ ys, xs.mapM f = .ok ys ∧ ys.map g = xs.map k := by
  induction xs with
  | nil => exact ⟨[], rfl, rfl⟩
  | cons x xs ih =>
    obtain ⟨⟨y, hy, hg⟩, hxs⟩ := List.forall_mem_cons.1 h
    obtain ⟨ys, hys, hmap⟩ := ih hxs
    refine ⟨y :: ys, ?_, ?_⟩
    · rw [List.mapM_cons, hy, hys]
      rfl
    · rw [List.map_cons, List.map_cons, hg, hmap]

namespace Store

/-- The candidate a row stands for. -/
def Row.candidate (row : Row) : Candidate := ⟨row.id, row.satoshis.number.toNat⟩

/-- A stored output as a candidate. -/
def Output.candidate (o : Output) : Candidate := ⟨o.id, o.satoshis⟩

/-- What a row holds of an output, spent or not. -/
structure Row.Holds (row : Row) (o : NewOutput) : Prop where
  /-- the bytes of its transaction -/
  txid : row.txid = .bytes o.txid.bytes
  /-- its place -/
  vout : row.vout = .int o.vout
  /-- which fits its column -/
  vout_le : o.vout ≤ Word.maxSigned32
  /-- its amount -/
  satoshis : row.satoshis = .int o.satoshis
  /-- which fits its column, too -/
  satoshis_le : o.satoshis ≤ Word.maxSigned64
  /-- its script -/
  script : row.script = o.script

/-- A store in which every row holds an output. -/
def Written (s : Store) : Prop := ∀ slot ∈ s.slots, ∃ o, slot.row.Holds o

section
variable {s next : Store}

/-- An output enters the store in a row that holds it. -/
theorem holds_of_output {o : NewOutput} {id : Int} {row : Row} (h : o.row id = .ok row) :
    row.Holds o := by
  rw [NewOutput.row] at h
  split at h
  · cases h
  · split at h
    · cases h
    · obtain rfl := Except.ok.inj h
      exact ⟨rfl, rfl, by omega, rfl, by omega, rfl⟩

/-- One more output keeps a store written. -/
theorem Written.push (h : s.Written) {o : NewOutput} {row : Row} {id : Int}
    (hrow : o.row id = .ok row) : (s.push row).Written := by
  intro slot hslot
  rcases List.mem_append.1 hslot with hslot | hslot
  · exact h slot hslot
  · obtain rfl := List.mem_singleton.1 hslot
    exact ⟨o, holds_of_output hrow⟩

/-- Going over the outputs, if each keeps what its row holds. -/
theorem Written.map (h : s.Written) {f : Slot → Slot} (runs : List RunRow)
    (hf : ∀ slot o, slot.row.Holds o → (f slot).row.Holds o) : Written ⟨s.slots.map f, runs⟩ := by
  intro slot hslot
  obtain ⟨slot, hmem, rfl⟩ := List.mem_map.1 hslot
  obtain ⟨o, ho⟩ := h slot hmem
  exact ⟨o, hf slot o ho⟩

/-- Claims are kept beside the rows. -/
theorem Written.setClaim (h : s.Written) (id : Int) (claim : Option Int) :
    (s.setClaim id claim).Written := by
  refine h.map _ fun slot o ho => ?_
  split <;> exact ho

/-- A row that is marked as spent holds what it held. -/
theorem Row.Holds.spend {slot : Slot} {o : NewOutput} (h : slot.row.Holds o) (txid : Txid) :
    (slot.spend txid).row.Holds o :=
  ⟨h.txid, h.vout, h.vout_le, h.satoshis, h.satoshis_le, h.script⟩

/-- No operation that succeeds makes a row hold less than an output. -/
theorem Effect.written {op : Op} {receipt : Receipt} (h : s.Written)
    (heffect : Effect s op receipt next) : next.Written := by
  cases heffect with
  | added hrow => exact h.push hrow
  | known | begun | unanswered => exact h
  | claimed | released => exact h.setClaim _ _
  | @completed run txid _ _ _ _ _ hinsert =>
    refine insertAll_keeps (fun s o row h hrow _ => h.push hrow) ?_ hinsert
    refine h.map _ fun slot o ho => ?_
    split
    · exact ho.spend txid
    · exact ho
  | aborted =>
    refine h.map _ fun slot o ho => ?_
    split <;> exact ho

/-- **Every row holds an output**, whatever operations have been tried. -/
theorem written_after (history : List Op) : (after history).Written :=
  after_keeps (fun _ hslot => nomatch hslot) (fun _ _ _ _ h heffect => heffect.written h) history

end

section
variable {row : Row} {o : NewOutput}

/-- The candidate a row stands for is worth what the row holds. -/
theorem Row.Holds.candidate_eq (h : row.Holds o) : row.candidate = ⟨row.id, o.satoshis⟩ := by
  rw [Row.candidate, h.satoshis]
  rfl

/-- A row that holds one output and has the outpoint of another holds one with that outpoint. -/
theorem Row.Holds.outpoint_eq {o' : NewOutput} (h : row.Holds o)
    (htxid : row.txid = .bytes o'.txid.bytes) (hvout : row.vout = .int o'.vout) :
    o.txid = o'.txid ∧ o.vout = o'.vout := by
  constructor
  · have hbytes := Cell.bytes.inj (h.txid.symm.trans htxid)
    have hread := Txid.ofBytes?_bytes o.txid
    rw [hbytes, Txid.ofBytes?_bytes] at hread
    exact (Option.some.inj hread).symm
  · have := Cell.int.inj (h.vout.symm.trans hvout)
    omega

/-- The amount in a row can be read. -/
theorem Row.Holds.readAmount_eq (h : row.Holds o) : readAmount row.satoshis = .ok o.satoshis := by
  rw [h.satoshis, readAmount]
  exact if_pos (Int.natCast_nonneg _)

/-- The candidate a row stands for can be read. -/
theorem Row.Holds.readCandidate_eq (h : row.Holds o) : row.readCandidate = .ok row.candidate := by
  rw [readCandidate, h.readAmount_eq, h.candidate_eq]
  rfl

/-- Places up to the largest signed word survive being narrowed to one. -/
theorem shortNumber_of_le {n : Nat} (h : n ≤ Word.maxSigned32) :
    (Cell.int n).shortNumber = n := by
  rw [Cell.shortNumber, Cell.number, Word.narrow32]
  simp only [Word.maxSigned32] at h
  exact Int.bmod_eq_of_le (by omega) (by omega)

/-- **A row that holds an output can be read**, if its spending transaction can. -/
theorem Row.Holds.read_eq (h : row.Holds o) {spending : Option Txid}
    (hspending : readSpending row.spendingTxid = .ok spending) :
    row.read = .ok ⟨row.id, o.txid, o.vout, o.satoshis, o.script, row.spent.shortNumber != 0,
      spending⟩ := by
  have hvout : ¬ ((o.vout : Int) < 0) := by omega
  rw [Row.read, h.txid, Cell.content, Txid.ofBytes?_bytes, h.vout, shortNumber_of_le h.vout_le]
  simp only [if_neg hvout, h.readAmount_eq, hspending, h.script, bind, Except.bind]
  rfl

/-- The spending transaction of an output that stands can be read. -/
theorem Slot.Stands.exists_readSpending {runs : List RunRow} {slot : Slot} (h : slot.Stands runs) :
    ∃ spending, readSpending slot.row.spendingTxid = .ok spending := by
  have hnull : readSpending .null = .ok none := rfl
  cases h with
  | free _ htxid => exact ⟨none, htxid ▸ hnull⟩
  | claimed _ htxid _ => exact ⟨none, htxid ▸ hnull⟩
  | @spent _ _ txid _ htxid _ =>
    refine ⟨some txid, ?_⟩
    rw [htxid, readSpending, if_neg Cell.noConfusion, Cell.content, Txid.ofBytes?_bytes]

/-- An amount compares as a cell like the number it is. -/
theorem Row.Holds.compare (h : row.Holds o) (n : Nat) :
    row.satoshis.before (.int n) = decide (row.candidate.satoshis < n) ∧
      Cell.before (.int n) row.satoshis = decide (n < row.candidate.satoshis) ∧
      (row.satoshis == .int n) = (row.candidate.satoshis == n) := by
  rw [h.candidate_eq, h.satoshis]
  refine ⟨?_, ?_, ?_⟩
  · simp [Cell.before]
  · simp [Cell.before]
  · rw [Bool.eq_iff_iff, beq_iff_eq, beq_iff_eq, Cell.int.injEq, Int.ofNat_inj]

end

/-! ## Selection -/

section
variable {rows : List Row} (h : ∀ row ∈ rows, ∃ o, row.Holds o)
include h

/-- Rows are in the order of their candidates, smaller amounts first. -/
theorem smaller_candidate : ∀ x ∈ rows, ∀ y ∈ rows,
    Candidate.smaller x.candidate y.candidate = smaller x y := by
  intro x hx y hy
  obtain ⟨o, ho⟩ := h x hx
  obtain ⟨o', ho'⟩ := h y hy
  obtain ⟨hbefore, -, heq⟩ := ho.compare o'.satoshis
  rw [smaller, ho'.satoshis, hbefore, heq, ho'.candidate_eq]
  rfl

/-- Rows are in the order of their candidates, larger amounts first. -/
theorem larger_candidate : ∀ x ∈ rows, ∀ y ∈ rows,
    Candidate.larger x.candidate y.candidate = larger x y := by
  intro x hx y hy
  obtain ⟨o, ho⟩ := h x hx
  obtain ⟨o', ho'⟩ := h y hy
  obtain ⟨-, hafter, heq⟩ := ho.compare o'.satoshis
  rw [larger, ho'.satoshis, hafter, heq, ho'.candidate_eq]
  rfl

/-- The first row with an exact amount stands for the first such candidate. -/
theorem best?_exact (exact : Option Nat) :
    best? Candidate.earlier ((rows.map Row.candidate).filter fun c => exact == some c.satoshis)
      = (best? earlier (rows.filter fun r => exact.any fun n => r.satoshis == .int n)).map
        Row.candidate := by
  refine best?_filter_map Row.candidate (fun _ _ _ _ => rfl) fun row hrow => ?_
  obtain ⟨o, ho⟩ := h row hrow
  cases exact with
  | none => rfl
  | some n =>
    change (some n == some row.candidate.satoshis) = (row.satoshis == .int n)
    rw [(ho.compare n).2.2, Bool.eq_iff_iff, beq_iff_eq, beq_iff_eq, Option.some_inj, eq_comm]

/-- The smallest row that covers a target stands for the smallest such candidate. -/
theorem best?_covering (target : Nat) :
    best? Candidate.smaller ((rows.map Row.candidate).filter fun c => target ≤ c.satoshis)
      = (best? smaller (rows.filter fun r => !r.satoshis.before (.int target))).map
        Row.candidate := by
  refine best?_filter_map Row.candidate (smaller_candidate h) fun row hrow => ?_
  obtain ⟨o, ho⟩ := h row hrow
  rw [(ho.compare target).1, ← decide_not, decide_eq_decide, Nat.not_lt]

/-- The largest row below a target stands for the largest such candidate. -/
theorem best?_below (target : Nat) :
    best? Candidate.larger ((rows.map Row.candidate).filter fun c => c.satoshis < target)
      = (best? larger (rows.filter fun r => r.satoshis.before (.int target))).map
        Row.candidate := by
  refine best?_filter_map Row.candidate (larger_candidate h) fun row hrow => ?_
  obtain ⟨o, ho⟩ := h row hrow
  rw [(ho.compare target).1]

/-- No candidate that a row stands for is worth more than a signed word. -/
theorem candidate_satoshis_le : ∀ c ∈ rows.map Row.candidate, c.satoshis ≤ Word.maxSigned64 := by
  refine List.forall_mem_map.2 fun row hrow => ?_
  obtain ⟨o, ho⟩ := h row hrow
  rw [ho.candidate_eq]
  exact ho.satoshis_le

/-- **Rows that hold outputs are picked like the candidates they stand for.** -/
theorem pick_eq_choose (ask : Ask) :
    (pick rows ask).map Row.candidate = Candidate.choose (rows.map Row.candidate) ask := by
  have htarget : min (ask.target : Int) Word.maxSigned64
      = ((min ask.target Word.maxSigned64 : Nat) : Int) := by omega
  -- cut down to signed words, the request leads to three searches on either side
  rw [← Candidate.choose_min (candidate_satoshis_le h), Candidate.choose, best?_exact h,
    best?_covering h, best?_below h, pick, htarget]
  simp only [Option.orElse_eq_orElse, Option.orElse_eq_or, Option.map_or]

end

end Store

end CoinPurse
