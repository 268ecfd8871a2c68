import CoinPurse.Proofs.Sessions
import CoinPurse.Proofs.Terms

/-!
# What a run leaves in a pool

A run claims candidates and gives them back again, in several passes perhaps, through a session
that may hold others from before. In the end it holds the inputs of its plan, or nothing of its
own. Everything else is where it was: the entries of the pool and the list of the session are the
same, in the same order, up to what was gained (`generate_gains`).

A release looks for an id in the list of the session. It finds the latest claim of the run and not
an older one, because what the run claims was free at its start, and what the session held then was
not.
-/

namespace CoinPurse

namespace Entry

/-- Marks the entry as held by a session if its candidate is one of these. -/
def hold (number : Nat) (cs : List Candidate) (e : Entry) : Entry :=
  if e.candidate ∈ cs then { e with holder := some number } else e

/-- Marking an entry leaves its candidate the same. -/
@[simp] theorem candidate_hold (number : Nat) (cs : List Candidate) (e : Entry) :
    (e.hold number cs).candidate = e.candidate := by
  rw [hold]
  split <;> rfl

/-- An entry may be marked for each candidate in turn. -/
theorem hold_concat (number : Nat) (cs : List Candidate) (c : Candidate) (e : Entry) :
    e.hold number (cs ++ [c])
      = if e.candidate = c then { e with holder := some number } else e.hold number cs := by
  by_cases hsame : e.candidate = c
  · simp [hold, hsame]
  · simp [hold, hsame]

end Entry

namespace Pool

variable {p : Pool} {c : Candidate} {cs : List Candidate} {number : Nat}

/-- Marks these candidates as held by a session. -/
def hold (number : Nat) (cs : List Candidate) (p : Pool) : Pool :=
  { p with entries := p.entries.map (·.hold number cs) }

/-- Marking no candidates leaves a pool as it is. -/
@[simp] theorem hold_nil (number : Nat) (p : Pool) : p.hold number [] = p := by
  simp [hold, Entry.hold]

/-- What is free after some candidates are held was free before, and is none of them. -/
theorem mem_of_mem_hold (hfree : ⟨c, none⟩ ∈ (p.hold number cs).entries) :
    ⟨c, none⟩ ∈ p.entries ∧ c ∉ cs := by
  obtain ⟨e, he, heq⟩ := List.mem_map.1 hfree
  rw [Entry.hold] at heq
  split at heq
  · cases heq
  · subst heq
    exact ⟨he, ‹_›⟩

/-- In a pool that has a candidate, its id stands for it. -/
theorem Distinct.id_beq_iff (hp : p.Distinct) {e : Entry} (he : e ∈ p.entries)
    (hc : ⟨c, none⟩ ∈ p.entries) : (e.candidate.id == c.id) = true ↔ e.candidate = c := by
  rw [beq_iff_eq]
  refine ⟨fun hid => ?_, congrArg Candidate.id⟩
  exact hp.eq_of_id_eq (List.mem_map_of_mem he) (List.mem_map_of_mem hc) hid

/-- Marking a free candidate holds it along with the others. -/
theorem mark_hold (hp : p.Distinct) (hc : ⟨c, none⟩ ∈ p.entries) (number : Nat)
    (cs : List Candidate) :
    (p.hold number cs).mark c.id (some number) = p.hold number (cs ++ [c]) := by
  simp only [mark, hold, List.map_map]
  congr 1
  refine List.map_congr_left fun e he => ?_
  simp only [Function.comp_apply, Entry.candidate_hold, hp.id_beq_iff he hc]
  rw [Entry.hold_concat]

/-- Freeing a candidate that was marked last leaves the others held. -/
theorem mark_none_hold (hp : p.Distinct) (hc : ⟨c, none⟩ ∈ p.entries) (hnew : c ∉ cs)
    (number : Nat) : (p.hold number (cs ++ [c])).mark c.id none = p.hold number cs := by
  simp only [mark, hold, List.map_map]
  congr 1
  refine List.map_congr_left fun e he => ?_
  simp only [Function.comp_apply, Entry.candidate_hold, hp.id_beq_iff he hc]
  rw [Entry.hold_concat]
  split
  · obtain rfl : e = ⟨c, none⟩ := hp.eq_of_candidate_eq he hc (congrArg Candidate.id ‹_›)
    simp [Entry.hold, hnew]
  · rfl

end Pool

namespace Holding

variable {h h' h'' : Holding} {c : Candidate} {cs : List Candidate}

/-- Nothing has changed but that the session has gained these candidates, in this order. -/
structure Gains (h : Holding) (cs : List Candidate) (h' : Holding) : Prop where
  /-- they were free -/
  free : ∀ c ∈ cs, ⟨c, none⟩ ∈ h.pool.entries
  /-- no candidate is gained twice -/
  nodup : cs.Nodup
  /-- their entries are marked with the session, and the pool is as it was otherwise -/
  pool_eq : h'.pool = h.pool.hold h.session.number cs
  /-- the session lists them after what it held before -/
  session_eq : h'.session = ⟨h.session.number, h.session.held ++ cs⟩

/-- At first a session has gained nothing. -/
theorem Gains.refl (h : Holding) : h.Gains [] h where
  free _ hc := nomatch hc
  nodup := List.nodup_nil
  pool_eq := (Pool.hold_nil _ _).symm
  session_eq := by rw [List.append_nil]

/-- A session that has gained nothing has not changed. -/
theorem Gains.eq_of_nil (hgains : h.Gains [] h') : h' = h := by
  obtain ⟨pool, session⟩ := h'
  obtain rfl : pool = h.pool := by simpa using hgains.pool_eq
  obtain rfl : session = h.session := by simpa using hgains.session_eq
  rfl

/-- **A claim is a gain.** -/
theorem Gains.claim {ask : Ask} (hp : h.pool.Distinct) (hgains : h.Gains cs h')
    (hclaim : h'.claim ask = (some c, h'')) : h.Gains (cs ++ [c]) h'' := by
  rw [Holding.claim] at hclaim
  cases hchoose : Candidate.choose h'.pool.available ask with
  | none =>
    rw [hchoose] at hclaim
    cases hclaim
  | some d =>
    rw [hchoose] at hclaim
    obtain ⟨hd, rfl⟩ := Prod.mk.inj hclaim
    obtain rfl := Option.some.inj hd
    have hfree := Pool.mem_entries_of_available (Candidate.choose_cases hchoose).1
    rw [hgains.pool_eq] at hfree
    obtain ⟨hfree, hnew⟩ := Pool.mem_of_mem_hold hfree
    constructor
    case free =>
      intro e he
      rcases List.mem_append.1 he with he | he
      · exact hgains.free e he
      · rwa [List.mem_singleton.1 he]
    case nodup =>
      refine List.nodup_append'.2 ⟨hgains.nodup, List.nodup_singleton _, ?_⟩
      rwa [List.disjoint_singleton]
    case pool_eq => rw [hgains.pool_eq, hgains.session_eq, Pool.mark_hold hp hfree]
    case session_eq => simp only [hgains.session_eq, List.append_assoc]

/-- **Giving back the latest gain undoes it.** Nothing else in the list of the session has its id:
not what was held before, which was not free, and not what was gained before. -/
theorem Gains.release (hstep : h.InStep) (hgains : h.Gains (cs ++ [c]) h')
    (hrelease : h'.release c.id = (.ok (), h'')) : h.Gains cs h'' := by
  have hfree : ⟨c, none⟩ ∈ h.pool.entries := hgains.free c (by simp)
  have hcs : ∀ d ∈ cs, ⟨d, none⟩ ∈ h.pool.entries :=
    fun d hd => hgains.free d (List.mem_append_left _ hd)
  obtain ⟨hnodup, -, hnew⟩ := List.nodup_append'.1 hgains.nodup
  rw [List.disjoint_singleton] at hnew
  have hbefore : ∀ d ∈ h.session.held ++ cs, ¬ (d.id == c.id) = true := by
    intro d hd hid
    rw [beq_iff_eq] at hid
    rcases List.mem_append.1 hd with hd | hd
    · have hmarked := Pool.mem_heldBy_iff.1 (hstep.held_perm.subset hd)
      cases hstep.distinct.eq_of_candidate_eq hmarked hfree hid
    · cases hstep.distinct.eq_of_candidate_eq (hcs d hd) hfree hid
      exact hnew hd
  rw [Holding.release] at hrelease
  split at hrelease
  · obtain ⟨-, rfl⟩ := Prod.mk.inj hrelease
    constructor
    case free => exact hcs
    case nodup => exact hnodup
    case pool_eq => rw [hgains.pool_eq, Pool.mark_none_hold hstep.distinct hfree hnew]
    case session_eq =>
      simp only [hgains.session_eq]
      rw [← List.append_assoc, List.eraseP_append_right _ hbefore,
        List.eraseP_cons_of_pos (by simp), List.append_nil]
  · cases hrelease

/-- **A session gains what the run claims**, and loses what it gives back. -/
theorem InStep.tracks (hstep : h.InStep) :
    allocator.Tracks fun held h' => h.Gains held.reverse h' where
  claim ask held source answer next hgains hreply := by
    have hclaim := claim_of_allocator hreply
    cases answer with
    | none =>
      obtain ⟨-, rfl⟩ := claim_eq_none hclaim
      exact hgains
    | some c =>
      rw [Option.toList_some, List.singleton_append, List.reverse_cons]
      exact hgains.claim hstep.distinct hclaim
  release c held source next hgains hrelease := by
    rw [List.reverse_cons] at hgains
    exact hgains.release hstep hrelease

end Holding

/-- **A run leaves no trace, or its inputs.** Whatever has happened on a pool, and whatever a
session holds already, a run through this session that fails for want of funds leaves everything as
it was, to the order of the lists. A run that succeeds leaves the session with the inputs of its
plan as well, and all else as it was. -/
theorem generate_gains (cs : List Candidate) (history : List Pool.Step) (name : String)
    (h : Holding) (entropy : Nat → Float) (cap : Nat) (t : Terms)
    (hname : ((Floor.ofList cs).after history).holding? name = some h) :
    (∀ required shortfall, (generate Holding.allocator entropy cap t h).outcome
        = .error (.insufficientFunds required shortfall) →
      (generate Holding.allocator entropy cap t h).source = h) ∧
    ∀ p, (generate Holding.allocator entropy cap t h).outcome = .ok p →
      h.Gains p.inputs (generate Holding.allocator entropy cap t h).source := by
  have htracks := ((Floor.regular_after cs history).inStep hname).tracks
  constructor
  · intro required shortfall hshort
    exact (htracks.generate_short (.refl h) hshort).eq_of_nil
  · intro p hok
    have hgains := htracks.generate (.refl h) hok
    rwa [List.reverse_reverse] at hgains

/-- A session that holds a candidate already and finds two available, where another session holds
the fourth. -/
def Holding.withOlderClaim : Holding :=
  ⟨⟨[⟨⟨1, 300⟩, none⟩, ⟨⟨2, 5000⟩, some 0⟩, ⟨⟨3, 700⟩, some 1⟩, ⟨⟨4, 400⟩, none⟩], 2⟩,
    ⟨1, [⟨3, 700⟩]⟩⟩

/-- A payment that starves with two change outputs, with one and with none, and a smaller one that
starves once and is paid then. -/
theorem generate_gains_withOlderClaim :
    ((Floor.ofList [⟨1, 300⟩, ⟨2, 5000⟩, ⟨3, 700⟩, ⟨4, 400⟩]).after
      [.openSession "other", .claim "other" ⟨2000, none⟩, .openSession "run",
        .claim "run" ⟨500, none⟩]).holding? "run" = some .withOlderClaim ∧
    (generate Holding.allocator (fun _ => 0) 20
      { Terms.payment 100 1000 with netCount := some 2 } .withOlderClaim).outcome
        = .error (.insufficientFunds 1034 334) ∧
    (generate Holding.allocator (fun _ => 0) 20
      { Terms.payment 100 1000 with netCount := some 2 } .withOlderClaim).source = .withOlderClaim ∧
    (generate Holding.allocator (fun _ => 0) 20 (.payment 100 300) .withOlderClaim).outcome
      = .ok ⟨[⟨4, 400⟩, ⟨1, 300⟩], [⟨362, 25⟩], 374, 38, 100⟩ ∧
    Holding.withOlderClaim.Gains [⟨4, 400⟩, ⟨1, 300⟩]
      (generate Holding.allocator (fun _ => 0) 20 (.payment 100 300) .withOlderClaim).source := by
  have hname : ((Floor.ofList [⟨1, 300⟩, ⟨2, 5000⟩, ⟨3, 700⟩, ⟨4, 400⟩]).after
      [.openSession "other", .claim "other" ⟨2000, none⟩, .openSession "run",
        .claim "run" ⟨500, none⟩]).holding? "run" = some .withOlderClaim := by decide
  have hshort : (generate Holding.allocator (fun _ => 0) 20
      { Terms.payment 100 1000 with netCount := some 2 } .withOlderClaim).outcome
        = .error (.insufficientFunds 1034 334) := by
    set_option maxRecDepth 8000 in rfl
  have hok : (generate Holding.allocator (fun _ => 0) 20 (.payment 100 300) .withOlderClaim).outcome
      = .ok ⟨[⟨4, 400⟩, ⟨1, 300⟩], [⟨362, 25⟩], 374, 38, 100⟩ := by
    set_option maxRecDepth 8000 in rfl
  exact ⟨hname, hshort, (generate_gains _ _ _ _ _ _ _ hname).1 _ _ hshort, hok,
    (generate_gains _ _ _ _ _ _ _ hname).2 _ hok⟩

end CoinPurse
