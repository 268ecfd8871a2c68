import CoinPurse.Proofs.Completion

/-!
# Outputs keep their ids

An output enters a store in one of two ways: it is added, or it is change of a transaction that a
run is completed with. `created` lists the outputs that the operations of a history have stored, in
the order in which they were stored. The rows of the store hold these outputs in this order, and are
numbered from one (`records_after`). An operation that fails stores nothing and uses up no id, and
whatever happens to an output later, its row still holds it.

So a history only ever adds to the list (`created_append`), and with it to the map from outpoints to
ids. An output that is added again is found under its first id, and nothing changes
(`Regular.add_of_knows`).
-/

namespace CoinPurse.Store

/-- The outputs that an operation stores, if it succeeds: an output to be added unless its outpoint
is stored already, and all change of a transaction. -/
def Op.brings (s : Store) : Op → List NewOutput
  | add o =>
    if s.slots.any (Slot.hasOutpoint (.bytes o.txid.bytes) (.int o.vout)) then [] else [o]
  | complete _ _ change => change
  | _ => []

/-- The outputs that operations store from one store on, in the order in which they are stored. -/
def createdFrom : List Op → Store → List NewOutput
  | [], _ => []
  | op :: rest, s =>
    match s.perform op with
    | .ok (_, next) => op.brings s ++ createdFrom rest next
    | .error _ => createdFrom rest s

/-- The outputs that a history has stored, in the order in which they were stored. -/
def created (history : List Op) : List NewOutput := createdFrom history empty

/-- The rows of a store hold these outputs, in this order. -/
def Records (s : Store) (outputs : List NewOutput) : Prop :=
  List.Forall₂ Row.Holds s.rows outputs

/-- **Outputs keep their ids** between what a store has been through and what it is put through
later. -/
structure KeepsIds (past later : List Op) : Prop where
  /-- outputs are numbered from one -/
  ids_eq : (after past).rows.map (·.id) = numbers (created past).length
  /-- in the order in which they were created -/
  records : (after past).Records (created past)
  /-- an operation that fails uses up no id -/
  failed : ∀ op fault, (after past).perform op = .error fault →
    after (past ++ [op]) = after past ∧ created (past ++ [op]) = created past
  /-- one that adds an output gives the id under which the outpoint is known afterwards; if it was
  not known before, this is the id that comes next -/
  added : ∀ o id next, (after past).add o = .ok (id, next) →
    (after (past ++ [.add o])).Knows o id ∧ ((∀ id', ¬ (after past).Knows o id') →
      id = (created past).length + 1 ∧ created (past ++ [.add o]) = created past ++ [o])
  /-- one that completes a run gives the ids that come next to all of the change -/
  completed : ∀ run txid change settlement next,
    (after past).complete run txid change = .ok (settlement, next) →
    settlement.created = idsFrom ((created past).length + 1) change.length ∧
      created (past ++ [.complete run txid change]) = created past ++ change
  /-- later operations only add to what was created -/
  created_prefix : created past <+: created (past ++ later)
  /-- the outpoints that are known are those of the outputs that were created -/
  knows_iff : ∀ o id, (after past).Knows o id ↔ ∃ (i : Nat) (o' : NewOutput),
    (created past)[i]? = some o' ∧ o'.txid = o.txid ∧ o'.vout = o.vout ∧ id = i + 1
  /-- each under one id -/
  knows_unique : ∀ o id id', (after past).Knows o id → (after past).Knows o id' → id = id'
  /-- which lasts -/
  knows_stays : ∀ o id, (after past).Knows o id → (after (past ++ later)).Knows o id
  /-- an output whose outpoint is known is not stored again: whatever has become of it, and whatever
  amount and script it is said to have, its id is given and nothing changes -/
  add_again : ∀ o id, (after past).Knows o id → o.satoshis ≤ Word.maxSigned64 →
    (after (past ++ later)).add o = .ok (id, after (past ++ later)) ∧
      created (past ++ later ++ [.add o]) = created (past ++ later)
  /-- under its id an output is found as it was created -/
  get_created : ∀ (i : Nat) (o : NewOutput), (created past)[i]? = some o →
    ∃ output, (after (past ++ later)).get (i + 1) = .ok (some output) ∧ output.id = i + 1 ∧
      output.txid = o.txid ∧ output.vout = o.vout ∧ output.satoshis = o.satoshis ∧
      output.script = o.script

section
variable {s next : Store} {op : Op} {receipt : Receipt} {o o' : NewOutput}
variable {outputs change : List NewOutput} {slot : Slot} {id : Int} {i : Nat}

/-! ## What is created -/

/-- What a longer history creates begins with what a shorter one does. -/
theorem createdFrom_append (past later : List Op) (s : Store) :
    createdFrom (past ++ later) s
      = createdFrom past s ++ createdFrom later (past.foldl step s) := by
  induction past generalizing s with
  | nil => rfl
  | cons op rest ih =>
    rw [List.cons_append, createdFrom, createdFrom, List.foldl_cons, step]
    rcases s.perform op with fault | ⟨receipt, next⟩
    · exact ih s
    · simp only [ih next, List.append_assoc]

/-- A history only adds to what is created. -/
theorem created_append (past later : List Op) :
    created (past ++ later) = created past ++ createdFrom later (after past) :=
  createdFrom_append past later empty

/-- An operation that succeeds adds what it brings. -/
theorem created_concat_of_ok {past : List Op}
    (h : (after past).perform op = .ok (receipt, next)) :
    created (past ++ [op]) = created past ++ op.brings (after past) := by
  rw [created_append, createdFrom, h]
  exact congrArg _ (List.append_nil _)

/-- One that fails adds nothing. -/
theorem created_concat_of_error {past : List Op} {fault : Fault}
    (h : (after past).perform op = .error fault) : created (past ++ [op]) = created past := by
  rw [created_append, createdFrom, h]
  exact List.append_nil _

/-! ## What is recorded -/

/-- An output that is stored is recorded after the others. -/
theorem Records.push (h : s.Records outputs) {row : Row} (hrow : o.row id = .ok row) :
    (s.push row).Records (outputs ++ [o]) := by
  have hnew : List.Forall₂ Row.Holds [row] [o] := .cons (holds_of_output hrow) .nil
  rw [Records, rows, Store.push, List.map_append]
  exact List.rel_append h hnew

/-- Going over the outputs leaves the record as it is, if each row keeps what it holds. -/
theorem Records.map (h : s.Records outputs) {f : Slot → Slot} (runs : List RunRow)
    (hf : ∀ slot o, slot.row.Holds o → (f slot).row.Holds o) :
    Records ⟨s.slots.map f, runs⟩ outputs := by
  rw [Records, rows, List.forall₂_map_left_iff] at h ⊢
  exact List.forall₂_map_left_iff.2 (h.imp hf)

/-- Setting or lifting a claim leaves the record as it is. -/
theorem Records.setClaim (h : s.Records outputs) (id : Int) (claim : Option Int) :
    (s.setClaim id claim).Records outputs := by
  refine h.map _ fun slot o ho => ?_
  split <;> exact ho

/-- Outputs that are stored in order are recorded in this order. -/
theorem Records.insertAll (h : s.Records outputs) {ids : List Int}
    (hinsert : insertAll change s = .ok (ids, next)) : next.Records (outputs ++ change) := by
  induction change generalizing s outputs ids with
  | nil =>
    obtain ⟨-, rfl⟩ := Prod.mk.inj (Except.ok.inj hinsert)
    rwa [List.append_nil]
  | cons o rest ih =>
    obtain ⟨⟨id, s₁⟩, hfirst, hinsert⟩ := exists_of_bind_eq_ok hinsert
    obtain ⟨⟨later, s₂⟩, hrest, hinsert⟩ := exists_of_bind_eq_ok hinsert
    obtain ⟨-, rfl⟩ := Prod.mk.inj (Except.ok.inj hinsert)
    obtain ⟨row, hrow, -, -, rfl⟩ := exists_of_insert hfirst
    rw [List.append_cons]
    exact ih (h.push hrow) hrest

/-- The outpoint of an output is that of its columns. -/
theorem hasOutpoint_of_row {row : Row} (hrow : o.row id = .ok row) :
    Slot.hasOutpoint row.txid row.vout
      = Slot.hasOutpoint (.bytes o.txid.bytes) (.int o.vout) := by
  have hholds := holds_of_output hrow
  rw [hholds.txid, hholds.vout]

/-- An output with a new outpoint is brought. -/
theorem brings_add_of_new {row : Row} (hrow : o.row id = .ok row)
    (hnew : ∀ slot ∈ s.slots, slot.hasOutpoint row.txid row.vout = false) :
    Op.brings s (.add o) = [o] := by
  have hfresh : ¬ s.slots.any (Slot.hasOutpoint (.bytes o.txid.bytes) (.int o.vout)) = true := by
    rw [← hasOutpoint_of_row hrow, List.any_eq_true]
    rintro ⟨slot, hslot, hsame⟩
    rw [hnew slot hslot] at hsame
    cases hsame
  rw [Op.brings, if_neg hfresh]

/-- One with a stored outpoint is not. -/
theorem brings_add_of_stored (hslot : slot ∈ s.slots)
    (hsame : slot.hasOutpoint (.bytes o.txid.bytes) (.int o.vout) = true) :
    Op.brings s (.add o) = [] := by
  rw [Op.brings, if_pos (List.any_eq_true.2 ⟨slot, hslot, hsame⟩)]

/-- **Operations record what they bring**, after what there is. -/
theorem Effect.records (h : s.Records outputs) (heffect : Effect s op receipt next) :
    next.Records (outputs ++ op.brings s) := by
  have hnothing : s.Records (outputs ++ []) := by rwa [List.append_nil]
  cases heffect with
  | @added o row hrow hnew =>
    rw [brings_add_of_new hrow hnew]
    exact h.push hrow
  | @known o row slot hrow hslot =>
    have hsame : slot.hasOutpoint row.txid row.vout = true := List.find?_some hslot
    rw [hasOutpoint_of_row hrow] at hsame
    rw [brings_add_of_stored (List.mem_of_find?_eq_some hslot) hsame]
    exact hnothing
  | begun | unanswered => exact hnothing
  | claimed | released => exact hnothing.setClaim _ _
  | @completed run txid change ids next hcheck hopen hinsert =>
    have hsettle : (s.settle run txid).Records outputs := by
      refine h.map _ fun slot o ho => ?_
      split
      · exact ho.spend txid
      · exact ho
    exact hsettle.insertAll hinsert
  | aborted =>
    refine hnothing.map _ fun slot o ho => ?_
    split <;> exact ho

/-- **Rows hold what was created**, in the order in which it was created. -/
theorem records_after (history : List Op) : (after history).Records (created history) := by
  induction history using List.reverseRecOn with
  | nil => exact .nil
  | append_singleton history op ih =>
    rw [after_concat, step]
    cases hperform : (after history).perform op with
    | error fault => rwa [created_concat_of_error hperform]
    | ok result =>
      rw [created_concat_of_ok hperform]
      exact (effect_of_perform hperform).records ih

/-! ## What is known -/

/-- The output in a place has the id of that place. -/
theorem Regular.id_of_getElem? (h : s.Regular) (hslot : s.slots[i]? = some slot) :
    slot.row.id = i + 1 := by
  have hids : (s.slots.map (·.row.id))[i]? = (numbers s.slots.length)[i]? := by rw [h.slot_ids]
  have hi := (List.getElem?_eq_some_iff.1 hslot).1
  rw [List.getElem?_map, hslot, numbers, List.getElem?_map, List.getElem?_range hi] at hids
  exact Option.some.inj hids

/-- The row in a place holds the output that was created in this place. -/
theorem Records.holds_of_getElem? (h : s.Records outputs) (hslot : s.slots[i]? = some slot)
    (ho : outputs[i]? = some o) : slot.row.Holds o := by
  obtain ⟨hi, rfl⟩ := List.getElem?_eq_some_iff.1 hslot
  obtain ⟨hi', rfl⟩ := List.getElem?_eq_some_iff.1 ho
  rw [Records, rows, List.forall₂_map_left_iff] at h
  exact h.get hi hi'

/-- There are as many outputs as were created. -/
theorem Records.length_eq (h : s.Records outputs) : s.slots.length = outputs.length := by
  rw [← List.Forall₂.length_eq h, rows, List.length_map]

/-- What was created is found in its place. -/
theorem Regular.exists_slot (h : s.Regular) (hrecords : s.Records outputs)
    (ho : outputs[i]? = some o) :
    ∃ slot ∈ s.slots, slot.row.id = i + 1 ∧ slot.row.Holds o := by
  have hi : i < s.slots.length := by
    rw [hrecords.length_eq]
    exact (List.getElem?_eq_some_iff.1 ho).1
  have hslot : s.slots[i]? = some s.slots[i] := List.getElem?_eq_getElem hi
  exact ⟨s.slots[i], List.getElem_mem hi, h.id_of_getElem? hslot,
    hrecords.holds_of_getElem? hslot ho⟩

/-- What is found was created in its place. -/
theorem Regular.exists_created (h : s.Regular) (hrecords : s.Records outputs)
    (hslot : slot ∈ s.slots) :
    ∃ (i : Nat) (o : NewOutput), outputs[i]? = some o ∧ slot.row.id = i + 1 ∧ slot.row.Holds o := by
  obtain ⟨i, hi, rfl⟩ := List.mem_iff_getElem.1 hslot
  have hi' : i < outputs.length := hrecords.length_eq ▸ hi
  have hget : s.slots[i]? = some s.slots[i] := List.getElem?_eq_getElem hi
  have ho : outputs[i]? = some outputs[i] := List.getElem?_eq_getElem hi'
  exact ⟨i, outputs[i], ho, h.id_of_getElem? hget, hrecords.holds_of_getElem? hget ho⟩

/-- **The outpoints that are known** are those of the outputs that were created, each under the id
of its place. -/
theorem Regular.knows_iff (h : s.Regular) (hrecords : s.Records outputs) :
    s.Knows o id ↔ ∃ (i : Nat) (o' : NewOutput), outputs[i]? = some o' ∧ o'.txid = o.txid ∧
      o'.vout = o.vout ∧ id = i + 1 := by
  constructor
  · rintro ⟨row, hrow, rfl, htxid, hvout⟩
    obtain ⟨slot, hslot, rfl⟩ := List.mem_map.1 hrow
    obtain ⟨i, o', ho', hid, hholds⟩ := h.exists_created hrecords hslot
    obtain ⟨hsame, hplace⟩ := hholds.outpoint_eq htxid hvout
    exact ⟨i, o', ho', hsame, hplace, hid⟩
  · rintro ⟨i, o', ho', htxid, hvout, rfl⟩
    obtain ⟨slot, hslot, hid, hholds⟩ := h.exists_slot hrecords ho'
    refine ⟨slot.row, List.mem_map_of_mem hslot, hid, ?_, ?_⟩
    · rw [hholds.txid, htxid]
    · rw [hholds.vout, hvout]

/-- An outpoint is known under one id only. -/
theorem Regular.eq_of_knows (h : s.Regular) {id' : Int} (hknown : s.Knows o id)
    (hknown' : s.Knows o id') : id = id' := by
  obtain ⟨row, hrow, rfl, htxid, hvout⟩ := hknown
  obtain ⟨row', hrow', rfl, htxid', hvout'⟩ := hknown'
  obtain ⟨slot, hslot, rfl⟩ := List.mem_map.1 hrow
  obtain ⟨slot', hslot', rfl⟩ := List.mem_map.1 hrow'
  have hsame : slot.outpoint = slot'.outpoint := by
    rw [Slot.outpoint, Slot.outpoint, htxid, hvout, htxid', hvout']
  rw [List.inj_on_of_nodup_map h.outpoints hslot hslot' hsame]

/-- **An output that is known is not stored again.** It is found under its id, whatever amount and
script it comes with this time. -/
theorem Regular.add_of_knows (h : s.Regular) (hwritten : s.Written) (hknown : s.Knows o id)
    (hsatoshis : o.satoshis ≤ Word.maxSigned64) : s.add o = .ok (id, s) := by
  obtain ⟨row, hrow, hid, htxid, hvout⟩ := hknown
  obtain ⟨slot, hslot, rfl⟩ := List.mem_map.1 hrow
  obtain ⟨o', hholds⟩ := hwritten slot hslot
  have hplace : o.vout ≤ Word.maxSigned32 := (hholds.outpoint_eq htxid hvout).2 ▸ hholds.vout_le
  obtain ⟨new, hnew⟩ := exists_row_eq_ok hplace hsatoshis s.nextOutputId
  have hstored : slot.hasOutpoint new.txid new.vout = true := by
    rw [hasOutpoint_of_row hnew, Slot.hasOutpoint, htxid, hvout, beq_self_eq_true, beq_self_eq_true]
    rfl
  cases hfind : s.slots.find? (Slot.hasOutpoint new.txid new.vout) with
  | none => simpa [hstored] using List.find?_eq_none.1 hfind slot hslot
  | some found =>
    have hmem := List.mem_of_find?_eq_some hfind
    have hfound := knows_of_hasOutpoint hnew hmem (List.find?_some hfind)
    have hsame : found.row.id = id :=
      h.eq_of_knows hfound ⟨slot.row, hrow, hid, htxid, hvout⟩
    simp only [add, hnew, hfind, bind, Except.bind]
    rw [hsame]
    rfl

/-- An output is given as it was created, whatever has become of it. -/
theorem Regular.exists_get (h : s.Regular) (hslot : slot ∈ s.slots) (hholds : slot.row.Holds o) :
    ∃ output, s.get slot.row.id = .ok (some output) ∧ output.id = slot.row.id ∧
      output.txid = o.txid ∧ output.vout = o.vout ∧ output.satoshis = o.satoshis ∧
      output.script = o.script := by
  obtain ⟨spending, hspending⟩ := (h.slots slot hslot).exists_readSpending
  refine ⟨⟨slot.row.id, o.txid, o.vout, o.satoshis, o.script, slot.row.spent.shortNumber != 0,
    spending⟩, ?_, rfl, rfl, rfl, rfl, rfl⟩
  rw [get, h.find?_slots hslot]
  change slot.row.read.map some = _
  rw [hholds.read_eq hspending]
  rfl

end

section
variable {past later : List Op}

/-- What was created stays in its place. -/
theorem getElem?_created (later : List Op) {i : Nat} {o : NewOutput}
    (h : (created past)[i]? = some o) : (created (past ++ later))[i]? = some o := by
  obtain ⟨hi, -⟩ := List.getElem?_eq_some_iff.1 h
  rw [created_append, List.getElem?_append_left hi, h]

/-- What is known stays known. -/
theorem knows_later (later : List Op) {o : NewOutput} {id : Int} (h : (after past).Knows o id) :
    (after (past ++ later)).Knows o id := by
  obtain ⟨i, o', ho', hsame⟩ := ((regular_after past).knows_iff (records_after past)).1 h
  exact ((regular_after _).knows_iff (records_after _)).2 ⟨i, o', getElem?_created later ho', hsame⟩

/-- What is known is found again. -/
theorem add_again_of_knows (later : List Op) {o : NewOutput} {id : Int}
    (h : (after past).Knows o id) (hsatoshis : o.satoshis ≤ Word.maxSigned64) :
    (after (past ++ later)).add o = .ok (id, after (past ++ later)) ∧
      created (past ++ later ++ [.add o]) = created (past ++ later) := by
  have hknown := knows_later later h
  have hadd := (regular_after _).add_of_knows (written_after _) hknown hsatoshis
  refine ⟨hadd, ?_⟩
  have hperform : (after (past ++ later)).perform (.add o)
      = .ok (.added id, after (past ++ later)) := by
    rw [perform, hadd]
    rfl
  obtain ⟨row, hrow, -, htxid, hvout⟩ := hknown
  obtain ⟨slot, hslot, rfl⟩ := List.mem_map.1 hrow
  have hstored : slot.hasOutpoint (.bytes o.txid.bytes) (.int o.vout) = true := by
    simp [Slot.hasOutpoint, htxid, hvout]
  rw [created_concat_of_ok hperform, brings_add_of_stored hslot hstored, List.append_nil]

/-- What is added is known afterwards, and if it was not known before, it comes next. -/
theorem knows_of_add {o : NewOutput} {id : Int} {next : Store}
    (h : (after past).add o = .ok (id, next)) :
    (after (past ++ [.add o])).Knows o id ∧ ((∀ id', ¬ (after past).Knows o id') →
      id = (created past).length + 1 ∧ created (past ++ [.add o]) = created past ++ [o]) := by
  have hperform : (after past).perform (.add o) = .ok (.added id, next) := by
    rw [perform, h]
    rfl
  rw [after_concat_of_ok hperform, created_concat_of_ok hperform]
  cases effect_of_add h with
  | @added o row hrow hnew =>
    have hholds := holds_of_output hrow
    refine ⟨⟨row, ?_, rfl, hholds.txid, hholds.vout⟩, fun _ => ⟨?_, ?_⟩⟩
    · rw [rows, push, List.map_append]
      exact List.mem_append_right _ (List.mem_singleton.2 rfl)
    · rw [(row_of_output hrow).1, nextOutputId, (records_after past).length_eq]
    · rw [brings_add_of_new hrow hnew]
  | @known o row slot hrow hslot =>
    have hknown := knows_of_hasOutpoint hrow (List.mem_of_find?_eq_some hslot)
      (List.find?_some hslot)
    exact ⟨hknown, fun hnew => absurd hknown (hnew _)⟩

end

/-- **Outputs keep their ids**, whatever operations are tried on a store. -/
theorem after_keepsIds (past later : List Op) : KeepsIds past later := by
  have hregular := regular_after past
  have hrecords := records_after past
  constructor
  case ids_eq =>
    rw [← hrecords.length_eq, ← hregular.slot_ids, rows, List.map_map]
    rfl
  case records => exact hrecords
  case failed =>
    intro op fault hperform
    refine ⟨?_, created_concat_of_error hperform⟩
    rw [after_concat, step, hperform]
  case added => exact fun o id next h => knows_of_add h
  case completed =>
    intro run txid change settlement next hcomplete
    have hperform : (after past).perform (.complete run txid change)
        = .ok (.completed settlement, next) := by
      rw [perform, hcomplete]
      rfl
    constructor
    · rw [(hregular.completes hcomplete).created_eq, nextOutputId, hrecords.length_eq]
    · exact created_concat_of_ok hperform
  case created_prefix =>
    rw [created_append]
    exact List.prefix_append _ _
  case knows_iff => exact fun o id => hregular.knows_iff hrecords
  case knows_unique => exact fun o id id' => hregular.eq_of_knows
  case knows_stays => exact fun o id => knows_later later
  case add_again => exact fun o id => add_again_of_knows later
  case get_created =>
    intro i o ho
    obtain ⟨slot, hslot, hid, hholds⟩ :=
      (regular_after _).exists_slot (records_after _) (getElem?_created later ho)
    rw [← hid]
    exact (regular_after _).exists_get hslot hholds

/-- Change that is stored is found under its id when it is added again with another script, and a
failed attempt in between has used up no id. -/
example :
    let other : NewOutput := ⟨returned.txid, 7, 50, []⟩
    let settled := twoOutputs
      ++ [.begin, .allocate 1 ⟨4000, none⟩, .complete 1 returned.txid [returned]]
    let failed := settled ++ [.begin, .complete 2 returned.txid [other, returned]]
    ((after failed).add { returned with script := [1, 2] }).map Prod.fst = .ok 3 ∧
      ((after failed).add other).map Prod.fst = .ok 4 :=
  ⟨rfl, rfl⟩

end CoinPurse.Store
