import CoinPurse.Proofs.Store.Spendable

/-!
# The ledger of a store

An output is spendable, claimed or spent. None of this is written down as such: it follows from the
mark of being spent and from the claims. Still the store keeps account of what can be spent
(`after_ledger`). What it lists as spendable, what it counts and what it takes the total of are the
same outputs, and every operation that succeeds changes the list by exactly the outputs it is about
(`Posts`).
-/

namespace CoinPurse.Store

/-- An output with the outpoint of this one is stored under this id. -/
def Knows (s : Store) (o : NewOutput) (id : Int) : Prop :=
  ∃ row ∈ s.rows, row.id = id ∧ row.txid = .bytes o.txid.bytes ∧ row.vout = .int o.vout

/-- What an operation on a store, by the receipt it leaves, makes of the list of what is
spendable. -/
inductive Posts (s : Store) (before after : List Output) : Op → Receipt → Prop where
  /-- an output with a new outpoint is added -/
  | added {o : NewOutput} (hnew : ∀ id, ¬ s.Knows o id)
      (hafter : after = before ++ [o.stored s.nextOutputId]) :
      Posts s before after (.add o) (.added s.nextOutputId)
  /-- one with a known outpoint is not -/
  | known {o : NewOutput} {id : Int} (hknown : s.Knows o id) (hafter : after = before) :
      Posts s before after (.add o) (.added id)
  /-- a run that is opened changes nothing -/
  | begun (hafter : after = before) : Posts s before after .begin (.begun s.nextRunId)
  /-- nor does a request that is answered with nothing -/
  | unanswered {run : Int} {ask : Ask} (hafter : after = before) :
      Posts s before after (.allocate run ask) (.allocated none)
  /-- the output that answers a request is removed -/
  | claimed {run : Int} {ask : Ask} {o : Output} (hafter : before.Perm (o :: after)) :
      Posts s before after (.allocate run ask) (.allocated (some o.candidate))
  /-- an output that its run gives back is added -/
  | released {run : Int} {o : Output} (hclaim : (o.id, run) ∈ s.claims)
      (hafter : after.Perm (o :: before)) : Posts s before after (.release run o.id) .released
  /-- the change of a transaction is added, and what its run claimed is not -/
  | completed {run : Int} {txid : Txid} {change : List NewOutput} {created : List Int}
      (hcreated : created.length = change.length)
      (hafter : after = before ++ List.zipWith NewOutput.stored change created)
      (hclaimed : ∀ output, (output, run) ∈ s.claims → output ∉ after.map (·.id)) :
      Posts s before after (.complete run txid change)
        (.completed ⟨created, (s.claimed run).length⟩)
  /-- what a run claimed that is aborted is added -/
  | aborted {run : Int} {outputs : List Output}
      (houtputs : s.allocations run = .ok (outputs.map Output.candidate))
      (hafter : after.Perm (before ++ outputs)) :
      Posts s before after (.abort run) (.aborted outputs.length)

/-- A store keeps account of some outputs: they are those that can be spent. -/
structure Ledger (s : Store) (outputs : List Output) : Prop where
  /-- it lists them -/
  list_eq : s.list = .ok outputs
  /-- in the order of their ids -/
  sorted : outputs.Pairwise fun a b => a.id < b.id
  /-- it counts them -/
  count_eq : s.count = outputs.length
  /-- its balance is what they are worth together, unless that is more than a word holds -/
  balance_eq : s.balance =
    if Word.max64 < totalOf (outputs.map (·.satoshis)) then bad .balanceOverflow
    else .ok (totalOf (outputs.map (·.satoshis)))
  /-- every output is one of them, or claimed, or spent, and no two of these -/
  partition : (outputs.map (·.id) ++ s.claims.map (·.1)
    ++ (s.rows.filter fun row => row.spent != .int 0).map (·.id)).Perm (s.rows.map (·.id))
  /-- outputs are told apart by their ids -/
  rows_nodup : (s.rows.map (·.id)).Nodup
  /-- and every operation that succeeds changes them as it says -/
  posts : ∀ op receipt next, s.perform op = .ok (receipt, next) →
    ∃ after, next.list = .ok after ∧ Posts s outputs after op receipt

variable {s next : Store}

/-! ## Spendable, claimed or spent -/

/-- The claims are those on the outputs that are claimed. -/
theorem claims_eq (s : Store) :
    s.claims.map (·.1) = (s.slots.filter (·.claim.isSome)).map (·.row.id) := by
  rw [claims]
  induction s.slots with
  | nil => rfl
  | cons slot slots ih =>
    rw [List.filterMap_cons, List.filter_cons]
    cases hclaim : slot.claim with
    | none => exact ih
    | some run => exact congrArg (slot.row.id :: ·) ih

/-- An output that stands is spendable, claimed or spent. -/
theorem Slot.Stands.cases_eq {runs : List RunRow} {slot : Slot} (h : slot.Stands runs) :
    (slot.isSpendable || slot.claim.isSome || slot.row.spent != .int 0) = true := by
  cases h with
  | free hspent => simp [Slot.isSpendable, hspent]
  | claimed => simp
  | spent hspent => simp [hspent]

/-- An output that is spendable or claimed is not spent. -/
theorem Slot.Stands.spent_eq_false {runs : List RunRow} {slot : Slot} (h : slot.Stands runs)
    (hunspent : (slot.isSpendable || slot.claim.isSome) = true) :
    (slot.row.spent != .int 0) = false := by
  cases h with
  | free hspent => simp [hspent]
  | claimed hspent => simp [hspent]
  | spent hspent => simp [Slot.isSpendable, hspent] at hunspent

/-- **Outputs are spendable, claimed or spent**, and only one of these. -/
theorem Regular.partition (h : s.Regular) :
    (s.spendable.map (·.id) ++ s.claims.map (·.1)
      ++ (s.rows.filter fun row => row.spent != .int 0).map (·.id)).Perm (s.rows.map (·.id)) := by
  have hsplit := perm_filter_or fun slot hslot => (h.slots slot hslot).spent_eq_false
  have hunspent := perm_filter_or fun slot (_ : slot ∈ s.slots) (hfree : slot.isSpendable = true) =>
    show slot.claim.isSome = false by rw [Slot.claim_of_isSpendable hfree]; rfl
  have hall : s.slots.filter
      (fun slot => slot.isSpendable || slot.claim.isSome || slot.row.spent != .int 0) = s.slots :=
    List.filter_eq_self.2 fun slot hslot => (h.slots slot hslot).cases_eq
  rw [hall] at hsplit
  have hperm := ((hsplit.trans (hunspent.append_right _)).map (·.row.id)).symm
  rw [List.map_append, List.map_append] at hperm
  rw [claims_eq, spendable, rows, List.filter_map, List.map_map, List.map_map, List.map_map]
  exact hperm

/-! ## What operations do to the list -/

/-- A stored outpoint is found. -/
theorem knows_of_hasOutpoint {o : NewOutput} {id : Int} {row : Row} {slot : Slot}
    (hrow : o.row id = .ok row) (hslot : slot ∈ s.slots)
    (hsame : slot.hasOutpoint row.txid row.vout = true) : s.Knows o slot.row.id := by
  have ho := holds_of_output hrow
  rw [Slot.hasOutpoint, ho.txid, ho.vout, Bool.and_eq_true, beq_iff_eq, beq_iff_eq] at hsame
  exact ⟨slot.row, List.mem_map_of_mem hslot, rfl, hsame⟩

/-- An outpoint that is not found is new. -/
theorem not_knows_of_hasOutpoint {o : NewOutput} {id : Int} {row : Row} (hrow : o.row id = .ok row)
    (hnew : ∀ slot ∈ s.slots, slot.hasOutpoint row.txid row.vout = false) (output : Int) :
    ¬ s.Knows o output := by
  rintro ⟨row', hmem, -, htxid, hvout⟩
  obtain ⟨slot, hslot, rfl⟩ := List.mem_map.1 hmem
  have ho := holds_of_output hrow
  have hdiffers := hnew slot hslot
  simp [Slot.hasOutpoint, ho.txid, ho.vout, htxid, hvout] at hdiffers

/-- What a run claims and completes with is not listed afterwards. -/
theorem Effect.not_listed (h : s.Regular) (hnext : next.list = .ok next.listed) {run : Int}
    {txid : Txid} {change : List NewOutput} {receipt : Receipt}
    (heffect : Effect s (.complete run txid change) receipt next) {output : Int}
    (hclaim : (output, run) ∈ s.claims) : output ∉ next.listed.map (·.id) := by
  obtain ⟨slot, hslot, rfl, hheld⟩ := mem_claims_iff.1 hclaim
  have hspent := (heffect.mem_of_completed h).2 slot hslot hheld
  intro hmem
  obtain ⟨o, ho, hid⟩ := List.mem_map.1 hmem
  exact (heffect.regular h).not_listed hspent (by simp [Slot.isSpendable, Slot.spend]) hnext o ho
    hid

/-- The claims of a run are those of the outputs it claims. -/
theorem Regular.allocations_eq (h : s.Regular) (hwritten : s.Written) (run : Int) :
    s.allocations run = .ok ((outputsOf (s.claimed run)).map Output.candidate) ∧
      (s.claimed run).length = (outputsOf (s.claimed run)).length := by
  have hmap := h.claimed_candidates hwritten run
  have hlength := congrArg List.length hmap
  rw [List.length_map, List.length_map] at hlength
  exact ⟨by rw [hwritten.allocations_eq, hmap], hlength.symm⟩

/-- **What operations do to the list** of what is spendable. -/
theorem Effect.posts (h : s.Regular) (hwritten : s.Written) {op : Op} {receipt : Receipt}
    (heffect : Effect s op receipt next) : Posts s s.listed next.listed op receipt := by
  have hnext : next.list = .ok next.listed :=
    (heffect.regular h).list_eq (heffect.written hwritten)
  cases heffect with
  | added hrow hnew =>
    rw [(row_of_output hrow).1]
    exact .added (not_knows_of_hasOutpoint hrow hnew) (listed_push hrow)
  | @known o row slot hrow hslot =>
    have hsame := List.find?_some hslot
    exact .known (knows_of_hasOutpoint hrow (List.mem_of_find?_eq_some hslot) hsame) rfl
  | begun => exact .begun rfl
  | unanswered => exact .unanswered rfl
  | @claimed run ask row c hopen hpick hread =>
    obtain ⟨slot, hslot, hfree, rfl⟩ := mem_spendable_iff.1 (mem_of_pick hpick)
    obtain ⟨o, ho, hcandidate⟩ := h.exists_read_eq_ok hwritten hslot
    obtain ⟨_, hholds⟩ := hwritten slot hslot
    obtain rfl : c = o.candidate := by
      rw [hcandidate]
      exact Except.ok.inj (hread.symm.trans hholds.readCandidate_eq)
    have hperm := outputsOf_perm (h.spendable_claim run hslot hfree)
    rw [outputsOf_cons ho] at hperm
    exact .claimed hperm
  | @released run id slot hopen hslot hid hheld =>
    obtain ⟨o, ho, -⟩ := h.exists_read_eq_ok hwritten hslot
    obtain rfl : o.id = id := (id_of_read ho).trans hid
    have hperm := outputsOf_perm (h.spendable_unclaim hslot hheld)
    rw [outputsOf_cons ho, hid] at hperm
    exact .released (mem_claims_iff.2 ⟨slot, hslot, hid, hheld⟩) hperm
  | @completed run txid change ids next hcheck hopen hinsert =>
    obtain ⟨hlength, hlisted⟩ := listed_insertAll hinsert
    rw [listed_settle] at hlisted
    exact .completed hlength hlisted fun output hclaim =>
      Effect.not_listed h hnext (.completed hcheck hopen hinsert) hclaim
  | @aborted run hopen =>
    obtain ⟨hallocations, hlength⟩ := h.allocations_eq hwritten run
    rw [hlength]
    exact .aborted hallocations (h.listed_dropClaims run)

/-- **Stores keep account of what can be spent**, whatever operations have been tried on them. -/
theorem after_ledger (history : List Op) : ∃ outputs, (after history).Ledger outputs := by
  have hregular := regular_after history
  have hwritten := written_after history
  have hids := hregular.listed_ids hwritten
  refine ⟨(after history).listed, ?_⟩
  constructor
  case list_eq => exact hregular.list_eq hwritten
  case sorted =>
    have hsorted := List.pairwise_map.2 (hregular.sorted Slot.isSpendable)
    exact List.pairwise_map.1 (hids ▸ hsorted)
  case count_eq => exact (hregular.length_listed hwritten).symm
  case balance_eq => rw [hregular.totalOf_listed hwritten, hwritten.balance_eq]
  case partition =>
    rw [hids]
    exact hregular.partition
  case rows_nodup =>
    rw [rows, List.map_map]
    exact hregular.nodup_slot_ids
  case posts =>
    intro op receipt next hperform
    have heffect := effect_of_perform hperform
    exact ⟨next.listed, (heffect.regular hregular).list_eq (heffect.written hwritten),
      heffect.posts hregular hwritten⟩

end CoinPurse.Store
