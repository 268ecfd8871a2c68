import CoinPurse.Proofs.Discipline
import CoinPurse.Proofs.Split

/-!
# A run can give back what it claims

What a run has claimed is known in three places: the draft lists it, the session lists it, and the
pool marks it. A session gives a candidate back only if its own list and the marks agree that it
holds it. They do for every claim of a run (`Holding.Backs`), through all its passes: a claim enters
both, a release takes the candidate from both, and neither touches what is known of another one.

So a session never refuses a run anything. A run on a pool ends with a plan, for want of funds, or
because it has used up its rounds (`Ends.outcome_cases`).
-/

namespace CoinPurse

namespace Pool

variable {p : Pool} {e : Entry} {id : Int} {holder : Option Nat}

/-- Marking an id leaves the entries with other ids alone. -/
theorem mem_mark_of_ne (he : e ∈ p.entries) (hne : e.candidate.id ≠ id) :
    e ∈ (p.mark id holder).entries := by
  refine List.mem_map.2 ⟨e, he, ?_⟩
  rw [if_neg]
  simpa using hne

/-- Marking the id of a candidate marks its entry. -/
theorem mem_mark_self (he : e ∈ p.entries) :
    ⟨e.candidate, holder⟩ ∈ (p.mark e.candidate.id holder).entries := by
  refine List.mem_map.2 ⟨e, he, ?_⟩
  rw [if_pos (beq_self_eq_true _)]

/-- What is available has an entry that is free. -/
theorem mem_entries_of_available {c : Candidate} (hc : c ∈ p.available) :
    ⟨c, none⟩ ∈ p.entries := by
  obtain ⟨⟨d, free⟩, he, rfl⟩ := List.mem_map.1 hc
  obtain ⟨he, hfree⟩ := List.mem_filter.1 he
  obtain rfl := Option.isNone_iff_eq_none.1 hfree
  exact he

/-- A candidate has one entry only. -/
theorem Distinct.eq_of_candidate_eq (hp : p.Distinct) {e' : Entry} (he : e ∈ p.entries)
    (he' : e' ∈ p.entries) (hid : e.candidate.id = e'.candidate.id) : e = e' :=
  List.inj_on_of_nodup_map hp.nodup_ids he he' hid

end Pool

/-- The session holds each of these candidates, by its own list and by the marks in the pool. -/
structure Holding.Backs (h : Holding) (cs : List Candidate) : Prop where
  /-- no candidate is listed twice -/
  nodup : (cs.map (·.id)).Nodup
  /-- the session lists them -/
  listed : cs ⊆ h.session.held
  /-- the pool has them marked with the session -/
  marked : ∀ c ∈ cs, ⟨c, some h.session.number⟩ ∈ h.pool.entries

namespace Holding

variable {h h' : Holding} {cs : List Candidate} {c : Candidate} {ask : Ask}

/-- A session holds nothing in particular. -/
theorem backs_nil (h : Holding) : h.Backs [] where
  nodup := List.nodup_nil
  listed := List.nil_subset _
  marked _ hc := nomatch hc

/-- **A claim is backed**, and so are those before it: what is chosen was free, so it is none of
them. -/
theorem Backs.claim (hp : h.pool.Distinct) (hbacks : h.Backs cs)
    (hclaim : h.claim ask = (some c, h')) : h'.Backs (c :: cs) := by
  obtain ⟨hchoose, -, -⟩ := claim_eq_some hp hclaim
  have hfree : ⟨c, none⟩ ∈ h.pool.entries :=
    Pool.mem_entries_of_available (Candidate.choose_cases hchoose).1
  have hother : ∀ d ∈ cs, d.id ≠ c.id := by
    intro d hd hid
    have hsame := hp.eq_of_candidate_eq (hbacks.marked d hd) hfree hid
    cases hsame
  rw [Holding.claim, hchoose] at hclaim
  obtain ⟨-, rfl⟩ := Prod.mk.inj hclaim
  constructor
  · rw [List.map_cons, List.nodup_cons]
    refine ⟨fun hmem => ?_, hbacks.nodup⟩
    obtain ⟨d, hd, hid⟩ := List.mem_map.1 hmem
    exact hother d hd hid
  · rw [List.cons_subset]
    exact ⟨List.mem_append_right _ (List.mem_singleton_self c),
      List.subset_append_of_subset_left _ hbacks.listed⟩
  · intro d hd
    rcases List.mem_cons.1 hd with rfl | hd
    · exact Pool.mem_mark_self hfree
    · exact Pool.mem_mark_of_ne (hbacks.marked d hd) (hother d hd)

/-- **A backed claim can be given back**, and the others stay backed. -/
theorem Backs.release (hbacks : h.Backs (c :: cs)) :
    ∃ h', h.release c.id = (.ok (), h') ∧ h'.Backs cs := by
  obtain ⟨hfresh, hnodup⟩ := List.nodup_cons.1 hbacks.nodup
  have hother : ∀ d ∈ cs, d.id ≠ c.id :=
    fun d hd hid => hfresh (List.mem_map.2 ⟨d, hd, hid⟩)
  have hlisted : h.session.held.any (·.id == c.id) = true :=
    List.any_eq_true.2 ⟨c, hbacks.listed (List.mem_cons_self ..), beq_self_eq_true _⟩
  have hmarked : h.pool.isHeldBy h.session.number c.id = true :=
    List.any_eq_true.2 ⟨_, hbacks.marked c (List.mem_cons_self ..), by simp⟩
  refine ⟨_, by rw [Holding.release, hlisted, hmarked, Bool.and_true, if_pos rfl], ?_⟩
  constructor
  · exact hnodup
  · intro d hd
    have hheld := hbacks.listed (List.mem_cons_of_mem c hd)
    exact (List.mem_eraseP_of_neg (by simpa using hother d hd)).2 hheld
  · exact fun d hd =>
      Pool.mem_mark_of_ne (hbacks.marked d (List.mem_cons_of_mem c hd)) (hother d hd)

/-- All backed claims can be given back, one after another. -/
theorem Backs.giveBack (hbacks : h.Backs cs) (history : List (Event NotHeld)) :
    (Progress.giveBack allocator cs h history).1 = none := by
  induction cs generalizing h history with
  | nil => rfl
  | cons c rest ih =>
    obtain ⟨h', hrelease, hrest⟩ := hbacks.release
    have hreply : allocator.release c.id h = (.ok (), h') := hrelease
    rw [Progress.giveBack, hreply]
    exact ih hrest _

end Holding

/-- The session holds all that the run claims. -/
def Progress.Backed (s : Progress Holding NotHeld) : Prop := s.source.Backs s.draft.claimed.items

section
variable {s s' : Progress Holding NotHeld} {t : Terms}

/-- A run whose claims are backed can release them. -/
theorem Progress.Backed.releaseAll {fault : Option NotHeld} (h : s.Backed)
    (hback : s.releaseAll Holding.allocator = (fault, s')) : fault = none := by
  have hnone := Holding.Backs.giveBack h s.trace
  rwa [(Progress.giveBack_of_releaseAll hback).1] at hnone

/-- A run whose claims are backed says so when it runs out of funds. Nothing has failed, and no
further request was made. -/
theorem Progress.Backed.failShort (h : s.Backed) (htidy : Tidy s.trace s.draft.claimed.items)
    (shortfall : Nat) :
    (s.failShort Holding.allocator t shortfall).outcome
        = .error (.insufficientFunds (s.draft.required t) shortfall) ∧
      (∀ e ∈ (s.failShort Holding.allocator t shortfall).trace, e.failed = false) ∧
      (s.failShort Holding.allocator t shortfall).trace.countP Event.isAsk
        = s.trace.countP Event.isAsk := by
  rcases failShort_cases Holding.allocator t s shortfall with ⟨s', hback, heq⟩ | ⟨e, s', hback, -⟩
  · obtain ⟨-, hswept, hcount⟩ := releaseAll_tidy Holding.allocator htidy hback
    rw [heq]
    refine ⟨rfl, fun e he => (hswept rfl).unfailed e (List.mem_reverse.1 he), ?_⟩
    rw [Progress.fail, List.countP_reverse, hcount]
  · cases h.releaseAll hback

end

variable {cs : List Candidate} {cap : Nat} {g g' : Stage Holding NotHeld} {t : Terms}

/-- Every turn leaves the claims backed. -/
theorem Turn.backed (hsplits : g.Splits cs) (h : g.run.Backed)
    (hturn : Turn Holding.allocator t g g') : g'.run.Backed := by
  cases hturn with
  | @claim growing rounds s c source hshort hreply =>
    rw [Progress.Backed, Progress.items_claimed]
    exact Holding.Backs.claim hsplits.distinct h (Holding.claim_of_allocator hreply)
  | @starve growing rounds s s' source hshort hchange hreply hback => exact Holding.backs_nil _

/-- A run on a pool whose claims are in order everywhere: in the pool, in its history and with its
session. -/
structure Stage.Served (cs : List Candidate) (cap : Nat) (g : Stage Holding NotHeld) : Prop where
  /-- the candidates are divided into those claimed and those available -/
  splits : g.Splits cs
  /-- the history is orderly -/
  tidy : g.Tidy cap
  /-- the session holds the claims -/
  backed : g.run.Backed

/-- Every turn leaves them in order. -/
theorem Turn.served (h : g.Served cs cap) (hturn : Turn Holding.allocator t g g') :
    g'.Served cs cap :=
  ⟨hturn.splits h.splits, hturn.tidy h.tidy, hturn.backed h.splits h.backed⟩

/-- At the start of a run on a pool all is in order. -/
theorem served_start (t : Terms) (cap : Nat) {h : Holding} (hp : h.pool.Distinct) :
    Stage.Served h.pool.available cap ⟨true, cap, .start t h⟩ where
  splits := splits_start t cap hp
  tidy := tidy_start t cap h
  backed := by
    rw [Progress.Backed, Progress.start, Draft.claimed_seed]
    exact h.backs_nil

/-- **Runs on a pool.** Where a run ends its claims are in order, and what it starts with is kept if
every turn keeps it while the pool is divided. -/
theorem generate_served {P : Stage Holding NotHeld → Prop} (entropy : Nat → Float) {h : Holding}
    (hp : h.pool.Distinct) (hcheck : t.check = .ok ())
    (hstep : ∀ g g', g.Splits h.pool.available → P g → Turn Holding.allocator t g g' → P g')
    (hstart : P ⟨true, cap, .start t h⟩) :
    ∃ g, g.Served h.pool.available cap ∧ P g ∧
      Ends Holding.allocator entropy t cap g (generate Holding.allocator entropy cap t h) := by
  obtain ⟨g, hturns, hends⟩ := generate_ends Holding.allocator entropy t cap h hcheck
  obtain ⟨hserved, hkept⟩ : g.Served h.pool.available cap ∧ P g :=
    hturns.keeps (P := fun g => g.Served h.pool.available cap ∧ P g)
      (fun g g' hg hturn => ⟨hturn.served hg.1, hstep g g' hg.1.splits hg.2 hturn⟩)
      ⟨served_start t cap hp, hstart⟩
  exact ⟨g, hserved, hkept, hends⟩

/-- A request that finds nothing leaves claims that can be given back. -/
theorem Stage.Served.not_stuck {growing : Bool} {rounds : Nat} {s s' : Progress Holding NotHeld}
    {source : Holding} {e : NotHeld} (h : Stage.Served cs cap ⟨growing, rounds, s⟩)
    (hreply : Holding.allocator.claim (s.draft.ask t) s.source = (.ok none, source)) :
    (s.answered t (.ok none) source).releaseAll Holding.allocator ≠ (some e, s') := by
  obtain ⟨rfl, -⟩ := h.splits.perm_of_claim_none hreply
  intro hback
  have hnone := Progress.Backed.releaseAll (s := s.answered t (.ok none) s.source) h.backed hback
  cases hnone

/-- How a run on a pool ends that stops with so many of its rounds left. -/
structure Report.Smooth (cap rounds : Nat) (r : Report Holding NotHeld) : Prop where
  /-- it has a plan, or too little money, or no rounds left -/
  outcome_cases : (∃ p, r.outcome = .ok p) ∨
    (∃ required shortfall, r.outcome = .error (.insufficientFunds required shortfall)) ∨
    (rounds = 0 ∧ r.outcome = .error (.roundLimit cap))
  /-- the session has refused it nothing -/
  unfailed : ∀ e ∈ r.trace, e.failed = false
  /-- it has made a request for each round that is gone, and at most one more -/
  asks_le : r.trace.countP Event.isAsk + rounds ≤ cap + 1

/-- **How runs on a pool end**: with a plan, for want of funds, or with their rounds used up. -/
theorem Ends.smooth {entropy : Nat → Float} {r : Report Holding NotHeld} (hg : g.Served cs cap)
    (hends : Ends Holding.allocator entropy t cap g r) : r.Smooth cap g.rounds := by
  have hasks := hg.tidy.asks_eq
  cases hends with
  | settled hcovered hchange hfinish =>
    refine ⟨.inl ⟨_, rfl⟩, fun e he => hg.tidy.history.unfailed e (List.mem_reverse.1 he), ?_⟩
    rw [List.countP_reverse]
    exact Nat.le_succ_of_le (Nat.le_of_eq hasks)
  | surplus hover hchange =>
    obtain ⟨houtcome, hunfailed, hcount⟩ :=
      hg.backed.failShort hg.tidy.history t.firstSatoshis (t := t)
    refine ⟨.inr (.inl ⟨_, _, houtcome⟩), hunfailed, ?_⟩
    rw [hcount]
    exact Nat.le_succ_of_le (Nat.le_of_eq hasks)
  | @short growing rounds s source hshort hchange hreply =>
    obtain ⟨rfl, -⟩ := hg.splits.perm_of_claim_none hreply
    obtain ⟨htidy, hcount'⟩ := hg.tidy.answered_none t s.source
    obtain ⟨houtcome, hunfailed, hcount⟩ :=
      Progress.Backed.failShort (s := s.answered t (.ok none) s.source) (t := t) hg.backed htidy
        (Draft.deficit (s.draft.excess t))
    refine ⟨.inr (.inl ⟨_, _, houtcome⟩), hunfailed, ?_⟩
    rw [hcount]
    exact Nat.le_of_eq (congrArg (· + 1) hcount')
  | exhausted hshort =>
    refine ⟨.inr (.inr ⟨rfl, rfl⟩), fun e he => hg.tidy.history.unfailed e (List.mem_reverse.1 he),
      ?_⟩
    rw [Progress.fail, List.countP_reverse]
    exact Nat.le_succ_of_le (Nat.le_of_eq hasks)
  | refused hshort hreply => exact absurd hreply Holding.allocator_claim_ne_error
  | stuck hshort hchange hreply hback => exact absurd hback (hg.not_stuck hreply)

/-- A run on a pool that ends at the round limit has used up its rounds. -/
theorem Report.Smooth.rounds_eq_zero {rounds n : Nat} {r : Report Holding NotHeld}
    (h : r.Smooth cap rounds) (hlimit : r.outcome = .error (.roundLimit n)) : rounds = 0 := by
  rcases h.outcome_cases with ⟨p, hok⟩ | ⟨required, shortfall, hshort⟩ | ⟨hzero, -⟩
  · rw [hlimit] at hok
    cases hok
  · rw [hlimit] at hshort
    cases hshort
  · exact hzero

end CoinPurse
