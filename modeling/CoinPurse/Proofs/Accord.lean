import CoinPurse.Generation
import CoinPurse.Proofs.Draft
import CoinPurse.Proofs.Turns
import Mathlib.Data.List.Forall2

/-!
# Runs through allocators that answer alike

A run sees nothing of a pool but the answers of its allocator. Two allocators *answer alike* if
their states can be related in such a way that either gives the answers of the other, no answer is a
failure, and every answer leads to related states again (`Allocator.Alike`). What is related may
depend on what the run holds.

Runs through two such allocators ask the same, claim the same and give back the same, and they end
in the same way (`Allocator.Alike.generate`). The proof goes through the parts of a run in the order
in which they are built from one another.
-/

namespace CoinPurse

variable {σ σ' ε ε' : Type}

/-- One event in two runs. Neither allocator fails in it. -/
inductive Event.Same : Event ε → Event ε' → Prop where
  /-- both runs ask the same and are given the same -/
  | asked (ask : Ask) (answer : Option Candidate) :
      Same (.asked ask (.ok answer)) (.asked ask (.ok answer))
  /-- both runs give back the same -/
  | returned (id : Int) : Same (.returned id (.ok ())) (.returned id (.ok ()))
  /-- both runs starve -/
  | starved (left : Nat) : Same (.starved left) (.starved left)

/-- One reason for two passes to end, which is not that an allocator fails. -/
inductive Halt.Same : Halt ε → Halt ε' → Prop where
  /-- neither draft is short any more -/
  | covered : Same .covered .covered
  /-- neither pool has anything left -/
  | dry : Same .dry .dry
  /-- the rounds of both are used up -/
  | exhausted : Same .exhausted .exhausted

/-- One outcome of two runs: the same plan, or the same failure, which is not that of an
allocator. -/
inductive Outcome.Same : Except (Failure ε) Plan → Except (Failure ε') Plan → Prop where
  | plan (p : Plan) : Same (.ok p) (.ok p)
  | insufficientFunds (required shortfall : Nat) :
      Same (.error (.insufficientFunds required shortfall))
        (.error (.insufficientFunds required shortfall))
  | roundLimit (cap : Nat) : Same (.error (.roundLimit cap)) (.error (.roundLimit cap))
  | negativeFee (fee : Int) : Same (.error (.negativeFee fee)) (.error (.negativeFee fee))
  | unsound (problems : List Problem) :
      Same (.error (.unsound problems)) (.error (.unsound problems))
  | invalidTerms (fault : TermsFault) :
      Same (.error (.invalidTerms fault)) (.error (.invalidTerms fault))

/-- Two reports that differ in the state of the allocator at most. -/
structure Report.Same (r : Report σ ε) (r' : Report σ' ε') : Prop where
  /-- the plan, or the reason why there is none, is the same -/
  outcome : Outcome.Same r.outcome r'.outcome
  /-- the same random values were used -/
  drawn : r.drawn = r'.drawn
  /-- the same happened, in the same order -/
  trace : List.Forall₂ Event.Same r.trace r'.trace

/-- Allocators whose related states give the same answers. States are related given what the run
holds, the latest claim first. -/
structure Allocator.Alike (a : Allocator σ ε) (b : Allocator σ' ε')
    (R : List Candidate → σ → σ' → Prop) : Prop where
  /-- a request is given the same answer by both -/
  claim : ∀ ask held source source', R held source source' → ∃ answer next next',
    a.claim ask source = (.ok answer, next) ∧ b.claim ask source' = (.ok answer, next') ∧
      R (answer.toList ++ held) next next'
  /-- both take back the latest claim -/
  release : ∀ c held source source', R (c :: held) source source' → ∃ next next',
    a.release c.id source = (.ok (), next) ∧ b.release c.id source' = (.ok (), next') ∧
      R held next next'

section
variable (R : List Candidate → σ → σ' → Prop)

/-- Two runs that are at the same point. -/
structure Progress.Alike (s : Progress σ ε) (s' : Progress σ' ε') : Prop where
  /-- they have the same draft -/
  draft : s.draft = s'.draft
  /-- the states of the allocators are related -/
  source : R s.draft.claimed.items s.source s'.source
  /-- the same has happened -/
  trace : List.Forall₂ Event.Same s.trace s'.trace

/-- Two passes that ended at the same point. -/
structure Pass.Alike (p : Pass σ ε) (p' : Pass σ' ε') : Prop where
  /-- they ended for the same reason -/
  halt : p.halt.Same p'.halt
  /-- the same number of rounds is left -/
  rounds : p.rounds = p'.rounds
  /-- the runs are at the same point -/
  progress : p.progress.Alike R p'.progress

/-- Two reports of runs that ended at the same point. -/
structure Report.Alike (r : Report σ ε) (r' : Report σ' ε') : Prop where
  /-- they tell the same -/
  same : r.Same r'
  /-- the states of the allocators are related, given what is held at the end -/
  source : ∃ held, R held r.source r'.source

end

/-- A draft settles in the same way for every allocator. -/
theorem Draft.settle_same (t : Terms) (d : Draft) (amounts : List Nat) :
    Outcome.Same (d.settle (ε := ε) t amounts) (d.settle (ε := ε') t amounts) := by
  simp only [settle]
  split
  · exact .negativeFee _
  · split
    · exact .plan _
    · exact .unsound _

namespace Progress.Alike

variable {R : List Candidate → σ → σ' → Prop} {s : Progress σ ε} {s' : Progress σ' ε'}

/-- Runs at the same point that hold nothing starve alike. -/
theorem starve (hs : s.Alike R s') (hempty : s.draft.claimed = .empty) :
    s.starve.Alike R s'.starve := by
  have hsource := hs.source
  rw [hempty] at hsource
  refine ⟨?_, hsource, ?_⟩
  · simp only [Progress.starve, hs.draft]
  · simp only [Progress.starve, hs.draft]
    exact hs.trace.cons (.starved _)

/-- Runs that fail alike at the same point report the same. -/
theorem fail (hs : s.Alike R s') {failure : Failure ε} {failure' : Failure ε'}
    (hsame : Outcome.Same (.error failure) (.error failure')) :
    (s.fail failure).Alike R (s'.fail failure') where
  same := ⟨hsame, rfl, List.rel_reverse hs.trace⟩
  source := ⟨_, hs.source⟩

/-- Runs that hand out the excess at the same point, with the same draws, report the same. -/
theorem handOut (hs : s.Alike R s') (t : Terms) (draws : Draws) :
    (s.handOut t draws).Alike R (s'.handOut t draws) := by
  simp only [Progress.handOut, ← hs.draft]
  exact ⟨⟨s.draft.settle_same t _, rfl, List.rel_reverse hs.trace⟩, _, hs.source⟩

end Progress.Alike

namespace Allocator.Alike

variable {a : Allocator σ ε} {b : Allocator σ' ε'} {R : List Candidate → σ → σ' → Prop}
  {t : Terms} {s : Progress σ ε} {s' : Progress σ' ε'} (h : a.Alike b R)
include h

/-- Two allocators that answer alike both take back everything. -/
theorem giveBack {held : List Candidate} {source : σ} {source' : σ'} {trace : List (Event ε)}
    {trace' : List (Event ε')} (hsource : R held source source')
    (htrace : List.Forall₂ Event.Same trace trace') : ∃ next next' later later',
      Progress.giveBack a held source trace = (none, next, later) ∧
      Progress.giveBack b held source' trace' = (none, next', later') ∧
      R [] next next' ∧ List.Forall₂ Event.Same later later' := by
  induction held generalizing source source' trace trace' with
  | nil => exact ⟨source, source', trace, trace', rfl, rfl, hsource, htrace⟩
  | cons c held ih =>
    obtain ⟨next, next', ha, hb, hnext⟩ := h.release c held source source' hsource
    simp only [Progress.giveBack, ha, hb]
    exact ih hnext (htrace.cons (.returned c.id))

/-- Runs at the same point both release everything. -/
theorem releaseAll (hs : s.Alike R s') : ∃ r r', s.releaseAll a = (none, r) ∧
    s'.releaseAll b = (none, r') ∧ r.Alike R r' ∧ r.draft.claimed = .empty := by
  obtain ⟨next, next', later, later', ha, hb, hnext, hlater⟩ := h.giveBack hs.source hs.trace
  rw [Progress.releaseAll, Progress.releaseAll, ← hs.draft, ha, hb]
  exact ⟨_, _, rfl, rfl, ⟨rfl, hnext, hlater⟩, rfl⟩

/-- Runs at the same point make the same request, and it finds the same. -/
theorem request (hs : s.Alike R s') : ∃ answer source source',
    s.request a t = (.ok answer, s.answered t (.ok answer) source) ∧
    s'.request b t = (.ok answer, s'.answered t (.ok answer) source') ∧
    R (answer.toList ++ s.draft.claimed.items) source source' ∧
    List.Forall₂ Event.Same (s.answered t (.ok answer) source).trace
      (s'.answered t (.ok answer) source').trace := by
  obtain ⟨answer, source, source', ha, hb, hsource⟩ :=
    h.claim (s.draft.ask t) _ s.source s'.source hs.source
  rw [hs.draft] at hb
  refine ⟨answer, source, source', Progress.request_eq ha, Progress.request_eq hb, hsource, ?_⟩
  simp only [Progress.answered, hs.draft]
  exact hs.trace.cons (.asked _ answer)

/-- Passes from the same point end at the same point. -/
theorem claimPass (growing : Bool) (rounds : Nat) (hs : s.Alike R s') :
    (claimPass a t growing rounds s).Alike R (claimPass b t growing rounds s') := by
  induction rounds generalizing s s' with
  | zero =>
    rw [CoinPurse.claimPass, CoinPurse.claimPass, ← hs.draft]
    split
    · exact ⟨.covered, rfl, hs⟩
    · exact ⟨.exhausted, rfl, hs⟩
  | succ rounds ih =>
    rw [CoinPurse.claimPass, CoinPurse.claimPass, ← hs.draft]
    split
    · exact ⟨.covered, rfl, hs⟩
    · obtain ⟨answer, source, source', ha, hb, hsource, htrace⟩ := h.request (t := t) hs
      rw [ha, hb]
      cases answer with
      | none => exact ⟨.dry, rfl, hs.draft, hsource, htrace⟩
      | some c =>
        refine ih ⟨?_, ?_, htrace⟩
        · simp only [Progress.answered, hs.draft]
        · simp only [Progress.answered, Draft.claimed_accept]
          exact hsource

/-- After passes that end at the same point all further passes end at the same point. -/
theorem backtrack (n : Nat) {p : Pass σ ε} {p' : Pass σ' ε'} (hp : p.Alike R p') :
    (backtrack a t n p).Alike R (backtrack b t n p') := by
  induction n generalizing p p' with
  | zero => exact hp
  | succ n ih =>
    obtain ⟨halt, rounds, s⟩ := p
    obtain ⟨halt', rounds', s'⟩ := p'
    obtain ⟨hhalt, rfl, hs⟩ := hp
    cases hhalt with
    | covered => exact ⟨.covered, rfl, hs⟩
    | exhausted => exact ⟨.exhausted, rfl, hs⟩
    | dry =>
      obtain ⟨r, r', ha, hb, hr, hempty⟩ := h.releaseAll hs
      simp only [CoinPurse.backtrack, ha, hb]
      exact ih (h.claimPass false rounds (hr.starve hempty))

/-- Funding from the same point ends at the same point. -/
theorem fund (rounds : Nat) (hs : s.Alike R s') :
    (fund a t rounds s).Alike R (fund b t rounds s') := by
  have hfirst := h.claimPass (t := t) true rounds hs
  rw [CoinPurse.fund, CoinPurse.fund, ← hfirst.progress.draft]
  exact h.backtrack _ hfirst

/-- Runs that run short at the same point report the same. -/
theorem failShort (shortfall : Nat) (hs : s.Alike R s') :
    (s.failShort a t shortfall).Alike R (s'.failShort b t shortfall) := by
  obtain ⟨r, r', ha, hb, hr, -⟩ := h.releaseAll hs
  simp only [Progress.failShort, ha, hb, ← hs.draft]
  exact hr.fail (.insufficientFunds _ shortfall)

/-- Runs at the same point are both ready to hand out their excess, or both end with the same
report. -/
theorem ready (hs : s.Alike R s') :
    (s.ready a t = .ok s ∧ s'.ready b t = .ok s') ∨
      ∃ r r', s.ready a t = .error r ∧ s'.ready b t = .error r' ∧ r.Alike R r' := by
  simp only [Progress.ready, ← hs.draft]
  split
  · exact .inr ⟨_, _, rfl, rfl, h.failShort _ hs⟩
  · split
    · exact .inr ⟨_, _, rfl, rfl, h.failShort _ hs⟩
    · exact .inl ⟨rfl, rfl⟩

/-- **Runs through allocators that answer alike are the same run**, if they draw the same random
values. -/
theorem generate {entropy entropy' : Nat → Float} (cap : Nat) {source : σ} {source' : σ'}
    (hdraws : Draws.ofValues entropy t.randomValues = .ofValues entropy' t.randomValues)
    (hsource : R [] source source') :
    (generate a entropy cap t source).Alike R (generate b entropy' cap t source') := by
  rw [CoinPurse.generate, CoinPurse.generate, CoinPurse.ready, CoinPurse.ready]
  cases hcheck : t.check with
  | error fault => exact ⟨⟨.invalidTerms fault, rfl, .nil⟩, _, hsource⟩
  | ok _ =>
    have hstart : (Progress.start t source : Progress σ ε).Alike R
        (.start t source' : Progress σ' ε') := by
      refine ⟨rfl, ?_, .nil⟩
      simp only [Progress.start, Draft.claimed_seed]
      exact hsource
    have hpass := h.fund (t := t) cap hstart
    simp only
    generalize CoinPurse.fund a t cap (.start t source) = p at hpass ⊢
    generalize CoinPurse.fund b t cap (.start t source') = p' at hpass ⊢
    obtain ⟨halt, rounds, s⟩ := p
    obtain ⟨halt', rounds', s'⟩ := p'
    obtain ⟨hhalt, -, hs⟩ := hpass
    cases hhalt with
    | covered | dry =>
      simp only
      rcases h.ready (t := t) hs with ⟨ha, hb⟩ | ⟨r, r', ha, hb, hr⟩
      · rw [ha, hb, ← hdraws]
        exact hs.handOut t _
      · rw [ha, hb]
        exact hr
    | exhausted => exact hs.fail (.roundLimit cap)

end Allocator.Alike

end CoinPurse
