import CoinPurse.Proofs.Completion

/-!
# Runs do not disturb each other

All runs claim outputs of one store, and operations go over the outputs and runs of all. What a run
sees of a store is its record and the outputs with its claim on them. Operations on other runs leave
these alone (`Effect.agrees`), and operations on no run only append to what there is
(`Effect.appends`).

What a run is told when it gives an output back or ends depends on what it sees, and on the
outpoints that are stored if it ends with change (`Agrees.perform_eq`). So it is told the same
whatever other runs have claimed or given back in the meantime, and the same is refused.
-/

namespace CoinPurse

/-- What is answered with the answer of a step depends on that answer only. -/
theorem map_fst_bind {ε α β σ τ : Type} {x y : Except ε (α × σ)} (g : α → β) (k k' : σ → τ)
    (h : x.map Prod.fst = y.map Prod.fst) :
    (x.bind fun r => .ok (g r.1, k r.2)).map Prod.fst
      = (y.bind fun r => .ok (g r.1, k' r.2)).map Prod.fst := by
  have hanswer : ∀ (z : Except ε (α × σ)) (k : σ → τ),
      (z.bind fun r => .ok (g r.1, k r.2)).map Prod.fst = (z.map Prod.fst).map g := by
    rintro (e | r) k
    · rfl
    · rfl
  rw [hanswer, hanswer, h]

/-- What is made of the answer of a step depends on that answer only. -/
theorem map_fst_map {ε α β σ : Type} {x y : Except ε (α × σ)} (g : α → β)
    (h : x.map Prod.fst = y.map Prod.fst) :
    (x.map fun r => (g r.1, r.2)).map Prod.fst = (y.map fun r => (g r.1, r.2)).map Prod.fst := by
  have hanswer : ∀ z : Except ε (α × σ),
      (z.map fun r => (g r.1, r.2)).map Prod.fst = (z.map Prod.fst).map g := by
    rintro (e | r)
    · rfl
    · rfl
  rw [hanswer, hanswer, h]

namespace Store

/-- The run that an operation is about, if it is about one. -/
def Op.run? : Op → Option Int
  | add _ | begin => none
  | allocate run _ | release run _ | complete run _ _ | abort run => some run

/-- Whether an operation may store outputs. -/
def Op.stores : Op → Bool
  | add _ | complete _ _ _ => true
  | _ => false

/-- Whether an operation asks for an output, so that the answer depends on all that are
spendable. -/
def Op.asks : Op → Bool
  | allocate _ _ => true
  | _ => false

/-- What a run sees of one store is what it sees of the other. -/
structure Agrees (run : Int) (s next : Store) : Prop where
  /-- its record -/
  run_eq : next.runs.find? (·.id == run) = s.runs.find? (·.id == run)
  /-- and the outputs with its claim on them -/
  slots_eq : next.slots.filter (Slot.isClaimedBy run) = s.slots.filter (Slot.isClaimedBy run)

/-- A run is left alone between two stores. -/
structure Spares (run : Int) (s next : Store) : Prop where
  /-- its record is the same -/
  run_eq : next.runs.find? (·.id == run) = s.runs.find? (·.id == run)
  /-- and told to be -/
  getRun_eq : next.getRun run = s.getRun run
  /-- it claims the same outputs, all columns of which are the same -/
  claimed_eq : next.claimed run = s.claimed run
  /-- and is told the same about them -/
  allocations_eq : next.allocations run = s.allocations run
  /-- under the ids of the outputs it claims there are the same rows, and no other claims -/
  rows_eq : ∀ id, (id, run) ∈ s.claims → (id, run) ∈ next.claims ∧
    next.rows.find? (·.id == id) = s.rows.find? (·.id == id) ∧ next.get id = s.get id

/-- What there is stays, and more may follow. -/
structure Appends (s next : Store) : Prop where
  /-- every output, with the claim on it -/
  slots : s.slots <+: next.slots
  /-- every run -/
  runs : s.runs <+: next.runs
  /-- what follows is not claimed -/
  claims_eq : next.claims = s.claims

section
variable {s next : Store} {op : Op} {receipt : Receipt} {a b : Int}

/-! ## What a run sees -/

/-- Going over outputs leaves those alone that a run claims, if none of them is changed and no other
comes to be claimed by it. -/
theorem filter_claimed_map {slots : List Slot} {f : Slot → Slot}
    (hkept : ∀ slot ∈ slots, slot.claim = some b → f slot = slot)
    (hother : ∀ slot ∈ slots, (f slot).claim = some b → slot.claim = some b) :
    (slots.map f).filter (Slot.isClaimedBy b) = slots.filter (Slot.isClaimedBy b) := by
  have hsame : ∀ slot ∈ slots, (Slot.isClaimedBy b ∘ f) slot = Slot.isClaimedBy b slot := by
    intro slot hslot
    rw [Function.comp_apply, Slot.isClaimedBy, Slot.isClaimedBy, Bool.eq_iff_iff, beq_iff_eq,
      beq_iff_eq]
    exact ⟨hother slot hslot, fun hclaim => by rw [hkept slot hslot hclaim, hclaim]⟩
  rw [List.filter_map, List.filter_congr hsame]
  calc (slots.filter (Slot.isClaimedBy b)).map f
      = (slots.filter (Slot.isClaimedBy b)).map id := by
        refine List.map_congr_left fun slot hslot => ?_
        obtain ⟨hmem, hclaim⟩ := List.mem_filter.1 hslot
        exact hkept slot hmem (by simpa [Slot.isClaimedBy] using hclaim)
    _ = slots.filter (Slot.isClaimedBy b) := List.map_id _

/-- Ending another run leaves the claims of a run alone. -/
theorem filter_claimed_of_ne (hne : a ≠ b) {slots : List Slot} {f : Slot → Slot}
    (hfree : ∀ slot, (f slot).claim = none) :
    (slots.map fun slot => if slot.isClaimedBy a then f slot else slot).filter (Slot.isClaimedBy b)
      = slots.filter (Slot.isClaimedBy b) := by
  apply filter_claimed_map
  · intro slot _ hclaim
    refine if_neg ?_
    simpa [Slot.isClaimedBy, hclaim] using hne.symm
  · intro slot _ hclaim
    split at hclaim
    · rw [hfree] at hclaim
      cases hclaim
    · exact hclaim

/-- Changing another run leaves the record of a run alone. -/
theorem find?_setRun_of_ne (hne : a ≠ b) {change : RunRow → RunRow}
    (hid : ∀ r, (change r).id = r.id) :
    (s.setRun a change).runs.find? (·.id == b) = s.runs.find? (·.id == b) := by
  rw [setRun]
  induction s.runs with
  | nil => rfl
  | cons r rest ih =>
    rw [List.map_cons, List.find?_cons, List.find?_cons, ih]
    by_cases hrun : r.id = a
    · simp [hrun, hid, beq_false_of_ne hne]
    · simp [hrun]

/-- Setting or lifting the claim on an output leaves the claims of a run alone that claims it
neither before nor after. -/
theorem Regular.agrees_setClaim (h : s.Regular) {slot : Slot} (hslot : slot ∈ s.slots)
    {claim : Option Int} (hbefore : slot.claim ≠ some b) (hafter : claim ≠ some b) :
    Agrees b s (s.setClaim slot.row.id claim) where
  run_eq := rfl
  slots_eq := by
    apply filter_claimed_map
    · intro slot' hslot' hclaim
      refine if_neg fun hid => hbefore ?_
      have hsame : slot'.row.id = slot.row.id := by simpa [Slot.hasId] using hid
      rwa [← h.slot_eq hslot' hslot hsame]
    · intro slot' _ hclaim
      split at hclaim
      · exact absurd hclaim hafter
      · exact hclaim

/-- A new output is not claimed. -/
theorem Agrees.push {s' : Store} (h : Agrees b s s') (row : Row) : Agrees b s (s'.push row) where
  run_eq := h.run_eq
  slots_eq := by
    rw [Store.push, List.filter_append, h.slots_eq]
    exact List.append_nil _

/-- **Operations on another run** leave what a run sees alone. -/
theorem Effect.agrees (h : s.Regular) (hne : a ≠ b) (heffect : Effect s op receipt next)
    (hrun : op.run? = some a) : Agrees b s next := by
  have hother : some a ≠ some b := fun heq => hne (Option.some.inj heq)
  cases heffect with
  | added | known | begun => cases hrun
  | unanswered => exact ⟨rfl, rfl⟩
  | claimed hopen hpick hread =>
    -- what is claimed was spendable, so no run had a claim on it
    obtain rfl := Option.some.inj hrun
    obtain ⟨slot, hslot, hfree, rfl⟩ := mem_spendable_iff.1 (mem_of_pick hpick)
    refine h.agrees_setClaim hslot ?_ hother
    rw [Slot.claim_of_isSpendable hfree]
    exact (Option.some_ne_none b).symm
  | released hopen hslot hid hheld =>
    -- what is given back was claimed by the run that gives it back
    obtain rfl := Option.some.inj hrun
    subst hid
    refine h.agrees_setClaim hslot ?_ (Option.some_ne_none b).symm
    rw [hheld]
    exact hother
  | @completed run txid change ids next hcheck hopen hinsert =>
    obtain rfl := Option.some.inj hrun
    refine insertAll_keeps (P := Agrees b s) (fun s' o row h' _ _ => h'.push row) ?_ hinsert
    exact ⟨find?_setRun_of_ne hne fun _ => rfl, filter_claimed_of_ne hne fun _ => rfl⟩
  | aborted hopen =>
    obtain rfl := Option.some.inj hrun
    exact ⟨find?_setRun_of_ne hne fun _ => rfl, filter_claimed_of_ne hne fun _ => rfl⟩

/-- What a run claims is what it sees. -/
theorem Agrees.claimed_eq (h : Agrees b s next) : next.claimed b = s.claimed b := by
  rw [claimed, claimed, h.slots_eq]

/-- **Seeing the same**, a run has the same record, the same claims and the same outputs. -/
theorem Agrees.spares (h : Agrees b s next) (hs : s.Regular) (hnext : next.Regular) :
    Spares b s next where
  run_eq := h.run_eq
  getRun_eq := by rw [getRun, getRun, h.run_eq]
  claimed_eq := h.claimed_eq
  allocations_eq := by rw [allocations, allocations, h.claimed_eq]
  rows_eq id hclaim := by
    obtain ⟨slot, hslot, rfl, hheld⟩ := mem_claims_iff.1 hclaim
    have hmem : slot ∈ next.slots := by
      have hmine : slot ∈ s.slots.filter (Slot.isClaimedBy b) :=
        List.mem_filter.2 ⟨hslot, by simpa [Slot.isClaimedBy] using hheld⟩
      rw [← h.slots_eq] at hmine
      exact (List.mem_filter.1 hmine).1
    refine ⟨mem_claims_iff.2 ⟨slot, hmem, rfl, hheld⟩, ?_, ?_⟩
    · rw [hnext.find?_rows hmem, hs.find?_rows hslot]
    · rw [get, get, hnext.find?_slots hmem, hs.find?_slots hslot]

/-- **Operations on no run** append. -/
theorem Effect.appends (heffect : Effect s op receipt next) (hrun : op.run? = none) :
    Appends s next := by
  cases heffect with
  | added =>
    refine ⟨List.prefix_append _ _, List.prefix_refl _, ?_⟩
    rw [claims, push, List.filterMap_append, claims]
    exact List.append_nil _
  | known => exact ⟨List.prefix_refl _, List.prefix_refl _, rfl⟩
  | begun => exact ⟨List.prefix_refl _, List.prefix_append _ _, rfl⟩
  | unanswered | claimed | released | completed | aborted => cases hrun

/-! ## What a run is told -/

/-- Operations that store no outputs change no outpoint. -/
theorem Effect.outpoints_eq (heffect : Effect s op receipt next) (hstores : op.stores = false) :
    next.slots.map Slot.outpoint = s.slots.map Slot.outpoint := by
  have hmap : ∀ f : Slot → Slot, (∀ slot, (f slot).outpoint = slot.outpoint) →
      (s.slots.map f).map Slot.outpoint = s.slots.map Slot.outpoint := by
    intro f hf
    rw [List.map_map]
    exact List.map_congr_left fun slot _ => hf slot
  cases heffect with
  | added | known | completed => cases hstores
  | begun | unanswered => rfl
  | claimed | released | aborted =>
    refine hmap _ fun slot => ?_
    split <;> rfl

/-- Whether a run is open can be told from its record. -/
theorem Agrees.ensureOpen_eq (h : Agrees b s next) : next.ensureOpen b = s.ensureOpen b := by
  rw [ensureOpen, ensureOpen, h.run_eq]

/-- Whether a run claims an output can be told from what it claims. -/
theorem Agrees.any_claimed_eq (h : Agrees b s next) (id : Int) :
    (next.slots.any fun slot => slot.hasId id && slot.isClaimedBy b)
      = s.slots.any fun slot => slot.hasId id && slot.isClaimedBy b := by
  have hfilter : ∀ slots : List Slot, (slots.any fun slot => slot.hasId id && slot.isClaimedBy b)
      = (slots.filter (Slot.isClaimedBy b)).any (Slot.hasId id) := by
    intro slots
    rw [List.any_filter]
    exact congrArg slots.any (funext fun slot => Bool.and_comm _ _)
  rw [hfilter, hfilter, h.slots_eq]

/-- Whether an outpoint is stored can be told from the outpoints. -/
theorem any_hasOutpoint_eq (h : next.slots.map Slot.outpoint = s.slots.map Slot.outpoint)
    (txid vout : Cell) :
    next.slots.any (Slot.hasOutpoint txid vout) = s.slots.any (Slot.hasOutpoint txid vout) := by
  have hpair : ∀ slots : List Slot, slots.any (Slot.hasOutpoint txid vout)
      = (slots.map Slot.outpoint).any fun p => p.1 == txid && p.2 == vout := by
    intro slots
    rw [List.any_map]
    rfl
  rw [hpair, hpair, h]

/-- Where the same outpoints are stored, an output is refused in both stores, or stored in both in
one row. -/
theorem insert_cases (o : NewOutput)
    (h : next.slots.map Slot.outpoint = s.slots.map Slot.outpoint) :
    (∃ fault, s.insert o = .error fault ∧ next.insert o = .error fault) ∨
      ∃ row, s.insert o = .ok (row.id, s.push row) ∧
        next.insert o = .ok (row.id, next.push row) := by
  have hlength : next.slots.length = s.slots.length := by
    simpa using congrArg List.length h
  have hid : next.nextOutputId = s.nextOutputId := by rw [nextOutputId, nextOutputId, hlength]
  simp only [insert, hid]
  cases hrow : o.row s.nextOutputId with
  | error fault => exact .inl ⟨fault, rfl, rfl⟩
  | ok row =>
    simp only [bind, Except.bind, any_hasOutpoint_eq h]
    cases s.slots.any (Slot.hasOutpoint row.txid row.vout) with
    | true => exact .inl ⟨.duplicateOutpoint, rfl, rfl⟩
    | false => exact .inr ⟨row, rfl, rfl⟩

/-- **Storing outputs is answered by outpoints.** The ids that are given out, and what is refused,
depend on the outpoints that are stored and on nothing else. -/
theorem insertAll_answer (outputs : List NewOutput)
    (h : next.slots.map Slot.outpoint = s.slots.map Slot.outpoint) :
    (insertAll outputs next).map Prod.fst = (insertAll outputs s).map Prod.fst := by
  induction outputs generalizing s next with
  | nil => rfl
  | cons o rest ih =>
    rcases insert_cases o h with ⟨fault, hs, hnext⟩ | ⟨row, hs, hnext⟩
    · simp only [insertAll, hs, hnext, bind, Except.bind, Except.map]
    · have hpush : (next.push row).slots.map Slot.outpoint
          = (s.push row).slots.map Slot.outpoint := by simp [push, h]
      simp only [insertAll, hs, hnext]
      exact map_fst_bind (row.id :: ·) id id (ih hpush)

/-- Giving an output back is answered by what a run sees. -/
theorem Agrees.release_eq (h : Agrees b s next) (id : Int) :
    (next.release b id).map Prod.fst = (s.release b id).map Prod.fst := by
  rw [release, release, h.ensureOpen_eq, h.any_claimed_eq]
  cases s.ensureOpen b with
  | error fault => rfl
  | ok =>
    simp only [bind, Except.bind]
    split <;> rfl

/-- Aborting is answered by what a run sees. -/
theorem Agrees.abort_eq (h : Agrees b s next) :
    (next.abort b).map Prod.fst = (s.abort b).map Prod.fst := by
  rw [abort, abort, h.ensureOpen_eq, h.claimed_eq]
  cases s.ensureOpen b with
  | error fault => rfl
  | ok => rfl

/-- Completing is answered by what a run sees and the outpoints that are stored. -/
theorem Agrees.complete_eq (h : Agrees b s next)
    (houtpoints : next.slots.map Slot.outpoint = s.slots.map Slot.outpoint) (txid : Txid)
    (change : List NewOutput) :
    (next.complete b txid change).map Prod.fst = (s.complete b txid change).map Prod.fst := by
  have hspend : ∀ s : Store, (s.spendClaims b txid).slots.map Slot.outpoint
      = s.slots.map Slot.outpoint := by
    intro s
    rw [spendClaims, List.map_map]
    refine List.map_congr_left fun slot _ => ?_
    rw [Function.comp_apply]
    split <;> rfl
  have hsame : (next.spendClaims b txid).slots.map Slot.outpoint
      = (s.spendClaims b txid).slots.map Slot.outpoint := by rw [hspend, hspend, houtpoints]
  have hinsert := insertAll_answer change hsame
  rw [complete, complete, h.ensureOpen_eq, h.claimed_eq]
  cases change.forM NewOutput.check with
  | error fault => rfl
  | ok =>
    cases s.ensureOpen b with
    | error fault => rfl
    | ok => exact map_fst_bind (Settlement.mk · (s.claimed b).length) _ _ hinsert

/-- **What a run is told** when it gives an output back or ends depends on what it sees, and on the
outpoints that are stored. -/
theorem Agrees.perform_eq (h : Agrees b s next)
    (houtpoints : next.slots.map Slot.outpoint = s.slots.map Slot.outpoint)
    (hrun : op.run? = some b) (hasks : op.asks = false) :
    (next.perform op).map Prod.fst = (s.perform op).map Prod.fst := by
  cases op with
  | add | begin => cases hrun
  | allocate => cases hasks
  | release run id =>
    obtain rfl := Option.some.inj hrun
    exact map_fst_map (fun _ => Receipt.released) (h.release_eq id)
  | complete run txid change =>
    obtain rfl := Option.some.inj hrun
    exact map_fst_map Receipt.completed (h.complete_eq houtpoints txid change)
  | abort run =>
    obtain rfl := Option.some.inj hrun
    exact map_fst_map Receipt.aborted h.abort_eq

end

/-- **A run that others do not disturb**: what operations on one run, and on none, do to a store
leaves another run alone. -/
structure Undisturbed (s : Store) (a b : Int) : Prop where
  /-- an operation on the one run, whether it succeeds or not, leaves the other alone -/
  spares : ∀ op : Op, op.run? = some a → Spares b s (s.step op)
  /-- an operation on no run leaves everything alone that there is -/
  appends : ∀ op : Op, op.run? = none → Appends s (s.step op)
  /-- and unless it stored outputs, the other run is told the same before and after the operation on
  the one, whatever it gives back and however it ends -/
  told : ∀ op op' : Op, op.run? = some a → op.stores = false → op'.run? = some b →
    op'.asks = false → ((s.step op).perform op').map Prod.fst = (s.perform op').map Prod.fst

/-- **Runs do not disturb each other**, whatever operations have led to a store and however the
claims on its outputs are distributed over runs. -/
theorem after_undisturbed (history : List Op) {a b : Int} (hne : a ≠ b) :
    Undisturbed (after history) a b := by
  have hregular := regular_after history
  generalize after history = s at hregular
  -- an operation that fails changes nothing, so what it leaves alone is told by its effects
  have hstep : ∀ {op : Op} {P : Store → Prop}, P s →
      (∀ receipt next, Effect s op receipt next → P next) → P (s.step op) := by
    intro op P hs heffect
    rw [step]
    cases hperform : s.perform op with
    | error fault => exact hs
    | ok result => exact heffect _ _ (effect_of_perform hperform)
  constructor
  case spares =>
    intro op hrun
    refine hstep ?_ fun receipt next heffect => ?_
    · exact Agrees.spares ⟨rfl, rfl⟩ hregular hregular
    · exact (heffect.agrees hregular hne hrun).spares hregular (heffect.regular hregular)
  case appends =>
    intro op hrun
    refine hstep ?_ fun receipt next heffect => heffect.appends hrun
    exact ⟨List.prefix_refl _, List.prefix_refl _, rfl⟩
  case told =>
    intro op op' hrun hstores hrun' hasks
    refine hstep (P := fun next => (next.perform op').map Prod.fst = (s.perform op').map Prod.fst)
      rfl fun receipt next heffect => ?_
    exact (heffect.agrees hregular hne hrun).perform_eq (heffect.outpoints_eq hstores) hrun' hasks

/-- A store in which two runs claim outputs in turns. -/
def interleaved : List Op :=
  let txid : Txid := ⟨List.replicate 32 14, rfl⟩
  [.add ⟨txid, 0, 1000, []⟩, .add ⟨txid, 1, 2000, []⟩, .add ⟨txid, 2, 3000, []⟩,
    .add ⟨txid, 3, 4000, []⟩, .begin, .begin, .allocate 1 ⟨1000, none⟩, .allocate 2 ⟨1000, none⟩,
    .allocate 1 ⟨1000, none⟩, .allocate 2 ⟨1000, none⟩]

/-- When the first of two runs aborts, the second still claims what it claimed. -/
theorem after_undisturbed_interleaved :
    (1 : Int) ≠ 2 ∧ (after interleaved).claims = [(1, 1), (2, 2), (3, 1), (4, 2)] ∧
    ((after interleaved).step (.abort 1)).claims = [(2, 2), (4, 2)] ∧
    Undisturbed (after interleaved) 1 2 :=
  ⟨by decide, rfl, rfl, after_undisturbed interleaved (by decide)⟩

end Store

end CoinPurse
