import CoinPurse.Proofs.Accord
import CoinPurse.Proofs.Pool
import CoinPurse.Proofs.Store.Answers
import CoinPurse.Proofs.Terms
import CoinPurse.Wallet

/-!
# Stores refine pools

A run on a store sees the outputs that are spendable and those that it claims itself. What it sees
is a pool (`Store.view`), and the run is a session on this pool: an output is chosen and marked in
one exactly as in the other, and given back in one exactly as in the other (`Mirrors`). Other runs
have no part in it.

So change generation through a store is change generation through a pool made of what is spendable
(`generate_refines`).
-/

namespace CoinPurse

namespace Store

/-- Whether a run sees the output: it is spendable, or the run claims it. -/
def Slot.isSeenBy (run : Int) (slot : Slot) : Bool := slot.isSpendable || slot.isClaimedBy run

/-- The output as an entry of a pool. A claim on it is the mark of the session with this number. -/
def Slot.entry (number : Nat) (slot : Slot) : Entry :=
  ⟨slot.row.candidate, slot.claim.map fun _ => number⟩

/-- What a run sees of a store, as the entries of a pool in which a session stands for the run. -/
def view (run : Int) (number : Nat) (s : Store) : List Entry :=
  (s.slots.filter (Slot.isSeenBy run)).map (Slot.entry number)

section
variable {s : Store} {run : Int} {number : Nat} {slot : Slot}

/-- What no session holds in a view is spendable. -/
theorem available_view (run : Int) (number next : Nat) (s : Store) :
    Pool.available ⟨s.view run number, next⟩ = s.spendable.map Row.candidate := by
  rw [Pool.available, view, spendable, List.filter_map, List.filter_filter, List.map_map,
    List.map_map]
  have hsame : s.slots.filter
      (fun slot => ((·.holder.isNone) ∘ Slot.entry number) slot && slot.isSeenBy run)
      = s.slots.filter Slot.isSpendable := by
    refine List.filter_congr fun slot _ => ?_
    cases hclaim : slot.claim <;>
      simp [Slot.entry, Slot.isSeenBy, Slot.isSpendable, Slot.isClaimedBy, hclaim]
  rw [hsame]
  rfl

/-- An output that the run claims is an entry that the session holds. -/
theorem mem_view (hslot : slot ∈ s.slots) (hclaim : slot.claim = some run) :
    ⟨slot.row.candidate, some number⟩ ∈ s.view run number := by
  refine List.mem_map.2 ⟨slot, List.mem_filter.2 ⟨hslot, ?_⟩, ?_⟩
  · simp [Slot.isSeenBy, Slot.isClaimedBy, hclaim]
  · simp [Slot.entry, hclaim]

/-- A run that claims nothing sees what is spendable, and all of it is free. -/
theorem view_of_claimed_eq_nil (hnone : s.claimed run = []) :
    s.view run number = (s.spendable.map Row.candidate).map fun c => ⟨c, none⟩ := by
  have hsame : s.slots.filter (Slot.isSeenBy run) = s.slots.filter Slot.isSpendable := by
    rw [claimed, List.map_eq_nil_iff, List.filter_eq_nil_iff] at hnone
    refine List.filter_congr fun slot hslot => ?_
    rw [Slot.isSeenBy, Bool.eq_false_iff.2 (hnone slot hslot), Bool.or_false]
  rw [view, hsame, spendable, List.map_map, List.map_map]
  refine List.map_congr_left fun slot hslot => ?_
  have hfree := Slot.claim_of_isSpendable (List.mem_filter.1 hslot).2
  simp only [Function.comp_apply, Slot.entry, hfree, Option.map_none]

/-- Changing a claim marks the entry, provided the run sees the output before and after. -/
theorem view_setClaim {id : Int} {claim : Option Int} (next : Nat)
    (hseen : ∀ slot ∈ s.slots, slot.row.id = id →
      slot.isSeenBy run = true ∧ Slot.isSeenBy run { slot with claim } = true) :
    (s.setClaim id claim).view run number
      = (Pool.mark id (claim.map fun _ => number) ⟨s.view run number, next⟩).entries := by
  have hsame : s.slots.filter
      (Slot.isSeenBy run ∘ fun slot => if slot.hasId id then { slot with claim } else slot)
      = s.slots.filter (Slot.isSeenBy run) := by
    refine List.filter_congr fun slot hslot => ?_
    simp only [Function.comp_apply]
    split
    · rename_i hid
      obtain ⟨hbefore, hafter⟩ := hseen slot hslot (by simpa [Slot.hasId] using hid)
      rw [hbefore, hafter]
    · rfl
  rw [view, setClaim, List.filter_map, hsame, Pool.mark, view, List.map_map, List.map_map]
  refine List.map_congr_left fun slot _ => ?_
  change Slot.entry number (if slot.row.id == id then _ else slot)
    = if slot.row.id == id then _ else _
  split <;> rfl

/-- A run that claims a free output claims it beside what it claimed. -/
theorem Regular.claimed_claim (h : s.Regular) (hslot : slot ∈ s.slots)
    (hfree : slot.isSpendable = true) :
    ((s.setClaim slot.row.id (some run)).claimed run).Perm (slot.row :: s.claimed run) := by
  have hnot : slot.isClaimedBy run = false := by
    rw [Slot.isClaimedBy, Slot.claim_of_isSpendable hfree]
    rfl
  have hjoins := perm_filter_of_joins (Slot.isClaimedBy run)
    (fun slot => { slot with claim := some run }) h.nodup_slot_ids hslot hnot
    (beq_self_eq_true (some run))
  exact hjoins.map (·.row)

/-- A run that gives back an output claims the others still. -/
theorem Regular.claimed_unclaim (h : s.Regular) (hslot : slot ∈ s.slots)
    (hclaim : slot.claim = some run) :
    (s.claimed run).Perm (slot.row :: (s.setClaim slot.row.id none).claimed run) := by
  have hmine : slot.isClaimedBy run = true := by
    rw [Slot.isClaimedBy, hclaim]
    exact beq_self_eq_true (some run)
  have hleaves := perm_filter_of_leaves (Slot.isClaimedBy run)
    (fun slot => { slot with claim := none }) h.nodup_slot_ids hslot hmine rfl
  exact hleaves.map (·.row)

end

end Store

open Store

/-- An operation on a store that nobody broke, which succeeds. -/
theorem Vault.update_eq_ok {α : Type} {v : Vault} {act : Store → Except Fault (α × Store)}
    {answer : α} {next : Store} (hv : v.broken = false) (hact : act v.store = .ok (answer, next)) :
    v.update act = (.ok answer, { v with store := next }) := by
  rw [update, hv, hact]
  rfl

/-- A session on a pool stands for a run on a store that holds these candidates, the latest claim
first. -/
structure Mirrors (run : Int) (held : List Candidate) (v : Vault) (h : Holding) : Prop where
  /-- the store can be used -/
  unbroken : v.broken = false
  /-- it is as operations leave it -/
  regular : v.store.Regular
  /-- its rows hold outputs -/
  written : v.store.Written
  /-- the run is open -/
  isOpen : RunRow.opened run ∈ v.store.runs
  /-- the pool is what the run sees -/
  entries : h.pool.entries = v.store.view run h.session.number
  /-- the session lists what it holds in the order of the claims -/
  session : h.session.held = held.reverse
  /-- the run claims as much -/
  claimed : ((v.store.claimed run).map Row.candidate).Perm held

namespace Mirrors

variable {run : Int} {held : List Candidate} {v : Vault} {h : Holding}

/-- What is available to the session is spendable. -/
theorem available_eq (hm : Mirrors run held v h) :
    h.pool.available = v.store.spendable.map Row.candidate := by
  rw [← available_view run h.session.number h.pool.nextSession, ← hm.entries]

/-- Claiming a free output in the store is holding its candidate in the pool. -/
theorem hold (hm : Mirrors run held v h) {slot : Slot} (hslot : slot ∈ v.store.slots)
    (hfree : slot.isSpendable = true) :
    Mirrors run (slot.row.candidate :: held)
      { v with store := v.store.setClaim slot.row.id (some run) }
      { pool := h.pool.mark slot.row.id (some h.session.number)
        session := { h.session with held := h.session.held ++ [slot.row.candidate] } } where
  unbroken := hm.unbroken
  regular := hm.regular.claim hm.isOpen (mem_spendable_iff.2 ⟨slot, hslot, hfree, rfl⟩)
  written := hm.written.setClaim _ _
  isOpen := hm.isOpen
  entries := by
    rw [view_setClaim h.pool.nextSession, ← hm.entries]
    · rfl
    · intro slot' hslot' hid
      obtain rfl := hm.regular.slot_eq hslot' hslot hid
      exact ⟨by simp [Slot.isSeenBy, hfree], by simp [Slot.isSeenBy, Slot.isClaimedBy]⟩
  session := by rw [hm.session, List.reverse_cons]
  claimed := ((hm.regular.claimed_claim hslot hfree).map Row.candidate).trans
    (hm.claimed.cons _)

/-- Giving back an output in the store is freeing its candidate in the pool. -/
theorem free {slot : Slot} (hm : Mirrors run (slot.row.candidate :: held) v h)
    (hslot : slot ∈ v.store.slots) (hclaim : slot.claim = some run) :
    Mirrors run held { v with store := v.store.setClaim slot.row.id none }
      { pool := h.pool.mark slot.row.id none
        session := { h.session with held := held.reverse } } where
  unbroken := hm.unbroken
  regular := hm.regular.setClaim fun slot hslot _ => (hm.regular.slots slot hslot).unclaim
  written := hm.written.setClaim _ _
  isOpen := hm.isOpen
  entries := by
    rw [view_setClaim h.pool.nextSession, ← hm.entries]
    · rfl
    · intro slot' hslot' hid
      obtain rfl := hm.regular.slot_eq hslot' hslot hid
      refine ⟨by simp [Slot.isSeenBy, Slot.isClaimedBy, hclaim], ?_⟩
      -- an output that is claimed is not spent, so it is spendable without the claim
      cases hm.regular.slots slot' hslot' with
      | free => cases hclaim
      | claimed hspent => simp [Slot.isSeenBy, Slot.isSpendable, hspent]
      | spent => cases hclaim
  session := rfl
  claimed := by
    have hperm := (hm.regular.claimed_unclaim hslot hclaim).map Row.candidate
    exact (hperm.symm.trans hm.claimed).cons_inv

/-- **A claim in the store is a claim in the pool.** -/
theorem claim (hm : Mirrors run held v h) (ask : Ask) : ∃ answer v' h',
    (Vault.allocator run).claim ask v = (.ok answer, v') ∧
    Holding.allocator.claim ask h = (.ok answer, h') ∧
    Mirrors run (answer.toList ++ held) v' h' := by
  have hallocate := hm.regular.allocate_eq hm.written hm.isOpen ask
  rw [← hm.available_eq] at hallocate
  cases hchoose : Candidate.choose h.pool.available ask with
  | none =>
    rw [hchoose] at hallocate
    refine ⟨none, v, h, Vault.update_eq_ok hm.unbroken hallocate, ?_, hm⟩
    simp only [Holding.allocator, Holding.claim, hchoose]
  | some c =>
    rw [hchoose] at hallocate
    have hmem := (Candidate.choose_cases hchoose).1
    rw [hm.available_eq] at hmem
    obtain ⟨row, hrow, rfl⟩ := List.mem_map.1 hmem
    obtain ⟨slot, hslot, hfree, rfl⟩ := mem_spendable_iff.1 hrow
    refine ⟨some slot.row.candidate, _, _, Vault.update_eq_ok hm.unbroken hallocate, ?_,
      hm.hold hslot hfree⟩
    simp only [Holding.allocator, Holding.claim, hchoose]
    rfl

/-- What the session holds is told apart by its ids. -/
theorem nodup_ids (hm : Mirrors run held v h) : (held.map (·.id)).Nodup := by
  have hids : ((v.store.claimed run).map Row.candidate).map (·.id)
      = (v.store.slots.filter (Slot.isClaimedBy run)).map (·.row.id) := by
    rw [Store.claimed, List.map_map, List.map_map]
    rfl
  refine (hm.claimed.map (·.id)).nodup_iff.1 ?_
  rw [hids]
  exact (List.filter_sublist.map _).nodup hm.regular.nodup_slot_ids

/-- **A release in the store is a release in the pool.** -/
theorem release {c : Candidate} (hm : Mirrors run (c :: held) v h) : ∃ v' h',
    (Vault.allocator run).release c.id v = (.ok (), v') ∧
    Holding.allocator.release c.id h = (.ok (), h') ∧ Mirrors run held v' h' := by
  obtain ⟨row, hrow, rfl⟩ := List.mem_map.1 (hm.claimed.mem_iff.2 (List.mem_cons_self ..))
  obtain ⟨slot, hslot, hclaim, rfl⟩ := mem_claimed_iff.1 hrow
  refine ⟨_, _, Vault.update_eq_ok hm.unbroken (hm.regular.release_eq hm.isOpen hslot hclaim), ?_,
    hm.free hslot hclaim⟩
  have hlisted : h.session.held.any (·.id == slot.row.candidate.id) = true := by
    rw [hm.session, List.any_eq_true]
    exact ⟨slot.row.candidate, by simp, by simp⟩
  have hmarked : h.pool.isHeldBy h.session.number slot.row.candidate.id = true := by
    rw [Pool.isHeldBy, List.any_eq_true]
    refine ⟨_, hm.entries ▸ mem_view hslot hclaim, by simp⟩
  -- the session lists the candidate last, and no other with its id
  have hlast : h.session.held.eraseP (·.id == slot.row.candidate.id) = held.reverse := by
    have hnew := (List.nodup_cons.1 hm.nodup_ids).1
    rw [hm.session, List.reverse_cons, List.eraseP_append_right]
    · simp
    · intro d hd hid
      refine hnew (List.mem_map.2 ⟨d, List.mem_reverse.1 hd, by simpa using hid⟩)
  have hrelease : h.release slot.row.candidate.id = (.ok (),
      { pool := h.pool.mark slot.row.id none
        session := { h.session with held := held.reverse } }) := by
    rw [Holding.release, hlisted, hmarked, hlast]
    rfl
  exact hrelease

end Mirrors

/-- A run on a store and a session on a pool answer alike, as long as the session mirrors the
run. -/
theorem allocator_alike (run : Int) :
    (Vault.allocator run).Alike Holding.allocator (Mirrors run) where
  claim ask _ _ _ hm := hm.claim ask
  release _ _ _ _ hm := hm.release

/-- At the start, a new session on a pool of what is spendable mirrors an open run that claims
nothing. -/
theorem mirrors_openSession {s : Store} {run : Int} (hs : s.Regular) (hwritten : s.Written)
    (hopen : RunRow.opened run ∈ s.runs) (hnone : s.claimed run = []) {outputs : List Output}
    (houtputs : outputs.map Output.candidate = s.spendable.map Row.candidate) :
    Mirrors run [] ⟨s, false⟩ (Pool.ofList (outputs.map Output.candidate)).openSession where
  unbroken := rfl
  regular := hs
  written := hwritten
  isOpen := hopen
  entries := by
    have hids : ((s.spendable.map Row.candidate).map (·.id)).Nodup := by
      rw [spendable, List.map_map, List.map_map]
      exact (List.filter_sublist.map _).nodup hs.nodup_slot_ids
    rw [view_of_claimed_eq_nil hnone, ← Pool.entries_ofList hids, houtputs]
    rfl
  session := rfl
  claimed := by rw [hnone]; exact .nil

/-- What two runs report in which a session on a pool stands for a run on a store. -/
structure Report.Refines (run : Int) (r : Report Vault AccessFault)
    (r' : Report Holding NotHeld) : Prop where
  /-- the outcome is the same, and so is everything that happened -/
  same : r.Same r'
  /-- in the end the run claims what the session holds -/
  held : ∃ cs, r.source.store.allocations run = .ok cs ∧ cs.Perm r'.source.session.held
  /-- and what is spendable in the store is available in the pool -/
  available : ∃ outputs, r.source.store.list = .ok outputs ∧
    outputs.map Output.candidate = r'.source.pool.available

/-- **Stores refine pools.** In a store that operations led to, an open run that claims nothing yet
generates change like a new session on a pool of what is spendable, if its random values are given.
-/
theorem generate_refines (history : List Op) (run : Int) (r : Run) (entropy entropy' : Nat → Float)
    (cap : Nat) (t : Terms) (hrun : (after history).getRun run = .ok (some r))
    (hopen : r.status = .opened) (hfree : (after history).allocations run = .ok [])
    (hvalues : Draws.isReplay t.randomValues = true) :
    ∃ outputs, (after history).list = .ok outputs ∧
      (generate (Vault.allocator run) entropy cap t ⟨after history, false⟩).Refines run
        (generate Holding.allocator entropy' cap t
          (Pool.ofList (outputs.map Output.candidate)).openSession) := by
  have hregular := regular_after history
  have hwritten := written_after history
  obtain ⟨outputs, hlist, houtputs⟩ := hregular.exists_list_eq_ok hwritten
  refine ⟨outputs, hlist, ?_⟩
  have hmember := hregular.mem_of_getRun hrun hopen
  have hnone : (after history).claimed run = [] := by
    rw [hwritten.allocations_eq] at hfree
    exact List.map_eq_nil_iff.1 (Except.ok.inj hfree)
  obtain ⟨hsame, held, hm⟩ := (allocator_alike run).generate (t := t) cap
    (Draws.ofValues_of_isReplay hvalues entropy entropy')
    (mirrors_openSession hregular hwritten hmember hnone houtputs)
  refine ⟨hsame, ⟨_, hm.written.allocations_eq run, ?_⟩, ?_⟩
  · rw [hm.session]
    exact hm.claimed.trans held.reverse_perm.symm
  · obtain ⟨outputs', hlist', houtputs'⟩ := hm.regular.exists_list_eq_ok hm.written
    exact ⟨outputs', hlist', houtputs'.trans hm.available_eq.symm⟩

/-- A store with three outputs, the largest of which another run claims. -/
def oneClaimed : List Op :=
  let txid : Txid := ⟨List.replicate 32 8, rfl⟩
  [.add ⟨txid, 0, 5000, []⟩, .add ⟨txid, 1, 3000, []⟩, .add ⟨txid, 2, 2000, []⟩, .begin,
    .allocate 1 ⟨4000, none⟩, .begin]

/-- The terms of a payment whose change outputs should be worth more than a store can hold, so that
what is asked for exceeds it too. -/
def Terms.aboveSigned : Terms :=
  { Terms.payment 100 2500 with
    initialSatoshis := Word.maxSigned64 + 1
    netCount := some 1
    randomValues := some [0.5] }

/-- A run that claims the two outputs left, starves, gives them back and claims them again. -/
theorem generate_refines_oneClaimed :
    (after oneClaimed).getRun 2 = .ok (some ⟨2, .opened, none⟩) ∧
    (after oneClaimed).allocations 1 = .ok [⟨1, 5000⟩] ∧ (after oneClaimed).allocations 2 = .ok [] ∧
    Draws.isReplay Terms.aboveSigned.randomValues = true ∧
    (generate (Vault.allocator 2) (fun _ => 0) 10 .aboveSigned ⟨after oneClaimed, false⟩).outcome
      = .ok ⟨[⟨2, 3000⟩, ⟨3, 2000⟩], [⟨2267, 25⟩, ⟨192, 25⟩], 408, 41, 100⟩ ∧
    ∃ outputs, (after oneClaimed).list = .ok outputs ∧
      (generate (Vault.allocator 2) (fun _ => 0) 10 .aboveSigned
        ⟨after oneClaimed, false⟩).Refines 2
        (generate Holding.allocator (fun _ => 1) 10 .aboveSigned
          (Pool.ofList (outputs.map Output.candidate)).openSession) :=
  ⟨rfl, rfl, rfl, rfl, by set_option maxRecDepth 8000 in rfl,
    generate_refines oneClaimed 2 ⟨2, .opened, none⟩ (fun _ => 0) (fun _ => 1) 10 .aboveSigned
      rfl rfl rfl rfl⟩

end CoinPurse
