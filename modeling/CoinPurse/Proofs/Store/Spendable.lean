import CoinPurse.Proofs.Store.Refinement

/-!
# What is spendable

Whether an output is spendable is not stored: it is so if it is not spent and nothing claims it.
This file says how the spendable rows change when an output is stored, when a claim is set or
lifted, and when a run ends (`Regular.spendable_claim`, `Regular.spendable_withdraw` and others),
and what the store answers about them: which outputs they hold (`Regular.list_eq`) and what these
are worth together (`Written.balance_eq`).
-/

namespace CoinPurse

section
variable {α : Type} {xs : List α}

/-- A selection by two conditions that exclude each other consists of two selections. -/
theorem perm_filter_or {p q : α → Bool} (h : ∀ x ∈ xs, p x = true → q x = false) :
    (xs.filter fun x => p x || q x).Perm (xs.filter p ++ xs.filter q) := by
  have hsplit := List.filter_append_perm p (xs.filter fun x => p x || q x)
  rw [List.filter_filter, List.filter_filter] at hsplit
  have hfirst : xs.filter (fun x => p x && (p x || q x)) = xs.filter p := by
    refine List.filter_congr fun x _ => ?_
    cases p x <;> rfl
  have hsecond : xs.filter (fun x => !p x && (p x || q x)) = xs.filter q := by
    refine List.filter_congr fun x hx => ?_
    cases hp : p x with
    | false => rfl
    | true => rw [h x hx hp]; rfl
  rw [hfirst, hsecond] at hsplit
  exact hsplit.symm

end

namespace Store

/-- What the spendable outputs are worth together. -/
def worth (s : Store) : Nat := totalOf (s.spendable.map (·.candidate.satoshis))

/-- The outputs that rows hold, without those that cannot be read. -/
def outputsOf (rows : List Row) : List Output := rows.filterMap (·.read.toOption)

/-- The spendable outputs. -/
def listed (s : Store) : List Output := outputsOf s.spendable

/-- A new output as it is listed once it is stored under an id. -/
def NewOutput.stored (o : NewOutput) (id : Int) : Output :=
  ⟨id, o.txid, o.vout, o.satoshis, o.script, false, none⟩

section
variable {rows rows' : List Row} {row : Row} {o : Output}

/-- A row that can be read holds what is read from it. -/
theorem outputsOf_cons (h : row.read = .ok o) : outputsOf (row :: rows) = o :: outputsOf rows := by
  simp only [outputsOf, List.filterMap_cons, h, Except.toOption]

/-- Rows one after another hold their outputs one after another. -/
theorem outputsOf_append : outputsOf (rows ++ rows') = outputsOf rows ++ outputsOf rows' :=
  List.filterMap_append

/-- Rows in another order hold the same outputs in another order. -/
theorem outputsOf_perm (h : rows.Perm rows') : (outputsOf rows).Perm (outputsOf rows') :=
  h.filterMap _

/-- If all rows can be read, then what is read is what they hold. -/
theorem mapM_read_eq_ok (h : ∀ row ∈ rows, ∃ o, row.read = .ok o) :
    rows.mapM Row.read = .ok (outputsOf rows) := by
  induction rows with
  | nil => rfl
  | cons row rows ih =>
    obtain ⟨⟨o, ho⟩, hrows⟩ := List.forall_mem_cons.1 h
    rw [List.mapM_cons, ho, ih hrows, outputsOf_cons ho]
    rfl

/-- An output can be read from the row in which it enters the store. -/
theorem read_of_output {o : NewOutput} {id : Int} (h : o.row id = .ok row) :
    row.read = .ok (o.stored id) := by
  obtain ⟨hid, hspent, htxid⟩ := row_of_output h
  have hspending : readSpending row.spendingTxid = .ok none := by
    rw [htxid]
    rfl
  rw [(holds_of_output h).read_eq hspending, hspent, hid]
  rfl

end

section
variable {s next : Store} {slot : Slot} {run : Int}

/-- A further output is spendable. -/
theorem spendable_push {row : Row} (hspent : row.spent = .int 0) :
    (s.push row).spendable = s.spendable ++ [row] := by
  have hfree : Slot.isSpendable ⟨row, none⟩ = true := by simp [Slot.isSpendable, hspent]
  rw [spendable, push, List.filter_append, List.map_append, List.filter_cons_of_pos hfree]
  rfl

/-- A further output is listed after the others. -/
theorem listed_push {o : NewOutput} {row : Row} {id : Int} (hrow : o.row id = .ok row) :
    (s.push row).listed = s.listed ++ [o.stored id] := by
  rw [listed, spendable_push (row_of_output hrow).2.1, outputsOf_append,
    outputsOf_cons (read_of_output hrow)]
  rfl

/-- Several further outputs are listed after the others, in their order. -/
theorem listed_insertAll {outputs : List NewOutput} {ids : List Int}
    (h : insertAll outputs s = .ok (ids, next)) :
    ids.length = outputs.length ∧
      next.listed = s.listed ++ List.zipWith NewOutput.stored outputs ids := by
  induction outputs generalizing s ids with
  | nil =>
    obtain ⟨rfl, rfl⟩ := Prod.mk.inj (Except.ok.inj h)
    exact ⟨rfl, (List.append_nil _).symm⟩
  | cons o rest ih =>
    obtain ⟨⟨id, s₁⟩, hfirst, h⟩ := exists_of_bind_eq_ok h
    obtain ⟨⟨later, s₂⟩, hrest, h⟩ := exists_of_bind_eq_ok h
    obtain ⟨rfl, rfl⟩ := Prod.mk.inj (Except.ok.inj h)
    obtain ⟨row, hrow, -, rfl, rfl⟩ := exists_of_insert hfirst
    obtain ⟨hlength, hlisted⟩ := ih hrest
    refine ⟨congrArg (· + 1) hlength, ?_⟩
    rw [hlisted, listed_push hrow, List.append_assoc, (row_of_output hrow).1]
    rfl

/-- An output that is claimed is not spendable any more. -/
theorem Regular.spendable_claim (h : s.Regular) (run : Int) (hslot : slot ∈ s.slots)
    (hfree : slot.isSpendable = true) :
    s.spendable.Perm (slot.row :: (s.setClaim slot.row.id (some run)).spendable) := by
  have hleaves := perm_filter_of_leaves Slot.isSpendable
    (fun slot => { slot with claim := some run }) h.nodup_slot_ids hslot hfree
    (by simp [Slot.isSpendable])
  exact hleaves.map (·.row)

/-- What is claimed is not spent. -/
theorem Regular.spent_of_claim (h : s.Regular) (hslot : slot ∈ s.slots)
    (hclaim : slot.claim = some run) : slot.row.spent = .int 0 := by
  cases h.slots slot hslot with
  | free => cases hclaim
  | claimed hspent => exact hspent
  | spent => cases hclaim

/-- An output that is given back is spendable again. -/
theorem Regular.spendable_unclaim (h : s.Regular) (hslot : slot ∈ s.slots)
    (hclaim : slot.claim = some run) :
    (s.setClaim slot.row.id none).spendable.Perm (slot.row :: s.spendable) := by
  have hjoins := perm_filter_of_joins Slot.isSpendable (fun slot => { slot with claim := none })
    h.nodup_slot_ids hslot (by simp [Slot.isSpendable, hclaim])
    (by simp [Slot.isSpendable, h.spent_of_claim hslot hclaim])
  exact hjoins.map (·.row)

/-- What a run sees is what is spendable and what it claims. -/
theorem perm_seen (run : Int) (s : Store) : ((s.slots.filter (Slot.isSeenBy run)).map (·.row)).Perm
    (s.spendable ++ s.claimed run) := by
  rw [spendable, claimed, ← List.map_append]
  apply List.Perm.map
  apply perm_filter_or
  intro slot _ hfree
  simp [Slot.isClaimedBy, Slot.claim_of_isSpendable hfree]

/-- Without the claims of a run, what it claimed is spendable again. -/
theorem Regular.spendable_dropClaims (h : s.Regular) (run : Int) :
    (s.dropClaims run).spendable.Perm (s.spendable ++ s.claimed run) := by
  have hseen : s.slots.filter (Slot.isSpendable ∘ fun slot =>
      if slot.isClaimedBy run then { slot with claim := none } else slot)
      = s.slots.filter (Slot.isSeenBy run) := by
    refine List.filter_congr fun slot hslot => ?_
    simp only [Function.comp_apply, Slot.isSeenBy]
    by_cases hclaim : slot.claim = some run
    · simp [Slot.isClaimedBy, Slot.isSpendable, hclaim, h.spent_of_claim hslot hclaim]
    · simp [Slot.isClaimedBy, hclaim]
  have hrows : (s.dropClaims run).spendable
      = (s.slots.filter (Slot.isSeenBy run)).map (·.row) := by
    rw [spendable, dropClaims, List.filter_map, hseen, List.map_map]
    refine List.map_congr_left fun slot _ => ?_
    simp only [Function.comp_apply]
    split <;> rfl
  rw [hrows]
  exact perm_seen run s

/-- Without the claims of a run, what it claimed is listed again. -/
theorem Regular.listed_dropClaims (h : s.Regular) (run : Int) :
    (s.dropClaims run).listed.Perm (s.listed ++ outputsOf (s.claimed run)) := by
  have hperm := outputsOf_perm (h.spendable_dropClaims run)
  rwa [outputsOf_append] at hperm

/-- What is spent with a run was not spendable, and is not. -/
theorem spendable_settle (run : Int) (txid : Txid) (s : Store) :
    (s.settle run txid).spendable = s.spendable := by
  have hsame : s.slots.filter (Slot.isSpendable ∘ fun slot =>
      if slot.isClaimedBy run then slot.spend txid else slot)
      = s.slots.filter Slot.isSpendable := by
    refine List.filter_congr fun slot _ => ?_
    simp only [Function.comp_apply]
    split
    · rename_i hclaim
      simp_all [Slot.isClaimedBy, Slot.isSpendable, Slot.spend]
    · rfl
  rw [spendable, settle, setRun, spendClaims, List.filter_map, hsame, spendable, List.map_map]
  refine List.map_congr_left fun slot hslot => ?_
  have hfree := Slot.claim_of_isSpendable (List.mem_filter.1 hslot).2
  simp [Slot.isClaimedBy, hfree]

/-- When the outputs of a run are spent, the same outputs are listed. -/
theorem listed_settle (run : Int) (txid : Txid) (s : Store) :
    (s.settle run txid).listed = s.listed := by
  rw [listed, spendable_settle, listed]

/-- Outputs are in the order of their ids. -/
theorem Regular.slots_sorted (h : s.Regular) :
    s.slots.Pairwise fun a b => a.row.id < b.row.id := by
  have hsorted : (numbers s.slots.length).Pairwise (· < ·) :=
    List.pairwise_map.2 (List.pairwise_lt_range.imp fun hlt => by omega)
  rw [← h.slot_ids] at hsorted
  exact List.pairwise_map.1 hsorted

/-- Outputs that are selected are in the order of their ids. -/
theorem Regular.sorted (h : s.Regular) (p : Slot → Bool) :
    ((s.slots.filter p).map (·.row)).Pairwise fun a b => a.id < b.id :=
  List.pairwise_map.2 (h.slots_sorted.sublist List.filter_sublist)

/-- Rows of a store are read as the candidates they stand for. -/
theorem Regular.outputsOf_eq (h : s.Regular) (hwritten : s.Written) (p : Slot → Bool) :
    ((s.slots.filter p).map (·.row)).mapM Row.read
        = .ok (outputsOf ((s.slots.filter p).map (·.row))) ∧
      (outputsOf ((s.slots.filter p).map (·.row))).map Output.candidate
        = ((s.slots.filter p).map (·.row)).map Row.candidate := by
  have hread : ∀ row ∈ (s.slots.filter p).map (·.row),
      ∃ o, row.read = .ok o ∧ o.candidate = row.candidate :=
    List.forall_mem_map.2 fun slot hslot =>
      h.exists_read_eq_ok hwritten (List.mem_filter.1 hslot).1
  have hlist := mapM_read_eq_ok fun row hrow => (hread row hrow).imp fun _ => And.left
  obtain ⟨outputs, houtputs, hmap⟩ := exists_mapM_eq_ok hread
  obtain rfl := Except.ok.inj (hlist.symm.trans houtputs)
  exact ⟨hlist, hmap⟩

/-- **The store lists what is spendable.** -/
theorem Regular.list_eq (h : s.Regular) (hwritten : s.Written) : s.list = .ok s.listed :=
  (h.outputsOf_eq hwritten Slot.isSpendable).1

/-- As candidates, they are those that the spendable rows stand for. -/
theorem Regular.listed_candidates (h : s.Regular) (hwritten : s.Written) :
    s.listed.map Output.candidate = s.spendable.map Row.candidate :=
  (h.outputsOf_eq hwritten Slot.isSpendable).2

/-- What a run claims, as candidates, is what the rows it claims stand for. -/
theorem Regular.claimed_candidates (h : s.Regular) (hwritten : s.Written) (run : Int) :
    (outputsOf (s.claimed run)).map Output.candidate = (s.claimed run).map Row.candidate :=
  (h.outputsOf_eq hwritten (Slot.isClaimedBy run)).2

/-- The outputs listed are known by the ids of their rows. -/
theorem Regular.listed_ids (h : s.Regular) (hwritten : s.Written) :
    s.listed.map (·.id) = s.spendable.map (·.id) := by
  have hids := congrArg (List.map Candidate.id) (h.listed_candidates hwritten)
  rwa [List.map_map, List.map_map] at hids

/-- There are as many of them as are counted. -/
theorem Regular.length_listed (h : s.Regular) (hwritten : s.Written) :
    s.listed.length = s.count := by
  have hlength := congrArg List.length (h.listed_ids hwritten)
  rwa [List.length_map, List.length_map] at hlength

/-- The outputs listed are worth what the spendable rows are worth. -/
theorem Regular.totalOf_listed (h : s.Regular) (hwritten : s.Written) :
    totalOf (s.listed.map (·.satoshis)) = s.worth := by
  have hamounts := congrArg (List.map Candidate.satoshis) (h.listed_candidates hwritten)
  rw [List.map_map, List.map_map] at hamounts
  exact congrArg totalOf hamounts

end

/-! ## What the spendable outputs are worth -/

/-- Amounts are added up as long as the total is a word. -/
theorem foldlM_addAmount {cells : List Cell} {total : Nat}
    (h : ∀ c ∈ cells, readAmount c = .ok c.number.toNat) (htotal : total ≤ Word.max64) :
    cells.foldlM addAmount total
      = if Word.max64 < total + totalOf (cells.map (·.number.toNat)) then bad .balanceOverflow
        else .ok (total + totalOf (cells.map (·.number.toNat))) := by
  induction cells generalizing total with
  | nil => exact (if_neg (Nat.not_lt.2 htotal)).symm
  | cons c rest ih =>
    obtain ⟨hc, hrest⟩ := List.forall_mem_cons.1 h
    have hadd : addAmount total c
        = if Word.max64 < total + c.number.toNat then bad .balanceOverflow
          else .ok (total + c.number.toNat) := by
      rw [addAmount, hc]
      rfl
    rw [List.foldlM_cons, hadd, List.map_cons, totalOf_cons, ← Nat.add_assoc]
    by_cases hover : Word.max64 < total + c.number.toNat
    · rw [if_pos hover, if_pos (Nat.lt_add_right _ hover)]
      rfl
    · rw [if_neg hover]
      exact ih hrest (Nat.not_lt.1 hover)

/-- **The balance is what the spendable outputs are worth together**, unless that is more than a
word holds. -/
theorem Written.balance_eq {s : Store} (h : s.Written) :
    s.balance = if Word.max64 < s.worth then bad .balanceOverflow else .ok s.worth := by
  have hcells : ∀ c ∈ Cell.ascending (s.spendable.map (·.satoshis)),
      readAmount c = .ok c.number.toNat := by
    intro c hc
    obtain ⟨row, hrow, rfl⟩ := List.mem_map.1 ((Cell.ascending_perm _).mem_iff.1 hc)
    obtain ⟨slot, hslot, -, rfl⟩ := mem_spendable_iff.1 hrow
    obtain ⟨o, ho⟩ := h slot hslot
    rw [ho.readAmount_eq, ho.satoshis]
    rfl
  have hworth : totalOf ((Cell.ascending (s.spendable.map (·.satoshis))).map (·.number.toNat))
      = s.worth := by
    rw [totalOf_perm ((Cell.ascending_perm _).map _), List.map_map]
    rfl
  rw [balance, foldlM_addAmount hcells (Nat.zero_le _), hworth, Nat.zero_add]

end Store

end CoinPurse
