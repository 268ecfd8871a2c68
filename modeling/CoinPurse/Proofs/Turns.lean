import CoinPurse.Funding
import CoinPurse.Proofs.Draft
import Mathlib.Logic.Relation

/-!
# Funding as one loop

Funding is written as passes within passes. What it does can be told more simply, as a loop of
*turns*: while the draft is short and rounds are left, the allocator is asked, and either a
candidate is claimed or the pass starves. `fund_turns` says that funding is such a loop: it takes
some turns, and then stops in one of five ways (`Stops`).

So whatever every turn keeps is true when funding stops (`Turns.keeps`), and nobody has to look into
the passes again.
-/

namespace CoinPurse

/-- A run between two requests: whether it is in its first pass, and the rounds it has left. -/
structure Stage (σ ε : Type) where
  /-- whether claims may still add change outputs -/
  growing : Bool
  /-- the rounds that are left -/
  rounds : Nat
  /-- the run -/
  run : Progress σ ε

variable {σ ε : Type}

namespace Progress

/-- The run after a request was answered, with nothing made of the answer yet. -/
def answered (t : Terms) (s : Progress σ ε) (reply : Except ε (Option Candidate)) (source : σ) :
    Progress σ ε :=
  { s with source, trace := .asked (s.draft.ask t) reply :: s.trace }

/-- The run after a candidate was claimed. -/
def claimed (t : Terms) (growing : Bool) (s : Progress σ ε) (c : Candidate) (source : σ) :
    Progress σ ε :=
  { s.answered t (.ok (some c)) source with draft := s.draft.accept t growing c }

/-- The candidate is its latest claim. -/
theorem items_claimed (t : Terms) (growing : Bool) (s : Progress σ ε) (c : Candidate)
    (source : σ) :
    (s.claimed t growing c source).draft.claimed.items = c :: s.draft.claimed.items := by
  rw [claimed, Draft.claimed_accept, Tally.items_push]

/-- A run that has claimed a candidate has one claim more. -/
theorem size_claimed (t : Terms) (growing : Bool) (s : Progress σ ε) (c : Candidate)
    (source : σ) :
    (s.claimed t growing c source).draft.claimed.size = s.draft.claimed.size + 1 := by
  rw [Tally.size_eq, items_claimed, List.length_cons, ← Tally.size_eq]

/-- A request puts its answer down. -/
theorem request_eq {a : Allocator σ ε} {t : Terms} {s : Progress σ ε}
    {reply : Except ε (Option Candidate)} {source : σ}
    (h : a.claim (s.draft.ask t) s.source = (reply, source)) :
    s.request a t = (reply, s.answered t reply source) := by
  simp only [request, h, answered]

/-- Releasing every claim gives them back, the latest first, and leaves the draft without claims. -/
theorem giveBack_of_releaseAll {a : Allocator σ ε} {s s' : Progress σ ε} {fault : Option ε}
    (h : s.releaseAll a = (fault, s')) :
    giveBack a s.draft.claimed.items s.source s.trace = (fault, s'.source, s'.trace) ∧
      s'.draft = { s.draft with claimed := .empty } := by
  rw [releaseAll] at h
  rcases hgive : giveBack a s.draft.claimed.items s.source s.trace with ⟨fault', source, trace⟩
  rw [hgive] at h
  obtain ⟨rfl, rfl⟩ := Prod.mk.inj h
  exact ⟨rfl, rfl⟩

/-- Giving back claims forgets nothing that has happened. -/
theorem subset_giveBack (a : Allocator σ ε) (held : List Candidate) (source : σ)
    (trace : List (Event ε)) : trace ⊆ (giveBack a held source trace).2.2 := by
  induction held generalizing source trace with
  | nil => exact List.Subset.refl trace
  | cons c rest ih =>
    rw [giveBack]
    rcases a.release c.id source with ⟨e | ⟨⟩, source'⟩
    · exact List.subset_cons_self _ trace
    · exact List.Subset.trans (List.subset_cons_self _ trace) (ih source' _)

/-- Releasing every claim forgets nothing that has happened. -/
theorem subset_of_releaseAll {a : Allocator σ ε} {s s' : Progress σ ε} {fault : Option ε}
    (h : s.releaseAll a = (fault, s')) : s.trace ⊆ s'.trace := by
  have hkept := subset_giveBack a s.draft.claimed.items s.source s.trace
  rwa [(giveBack_of_releaseAll h).1] at hkept

end Progress

/-- **One turn** of a run: the draft is short, a round is left, and the allocator does not fail. -/
inductive Turn (a : Allocator σ ε) (t : Terms) : Stage σ ε → Stage σ ε → Prop where
  /-- a candidate is claimed -/
  | claim {growing : Bool} {rounds : Nat} {s : Progress σ ε} {c : Candidate} {source : σ}
      (hshort : s.draft.excess t < 0)
      (hreply : a.claim (s.draft.ask t) s.source = (.ok (some c), source)) :
      Turn a t ⟨growing, rounds + 1, s⟩ ⟨growing, rounds, s.claimed t growing c source⟩
  /-- the pool has nothing left: every claim is given back, and a change output is dropped -/
  | starve {growing : Bool} {rounds : Nat} {s s' : Progress σ ε} {source : σ}
      (hshort : s.draft.excess t < 0) (hchange : s.draft.change.size ≠ 0)
      (hreply : a.claim (s.draft.ask t) s.source = (.ok none, source))
      (hback : (s.answered t (.ok none) source).releaseAll a = (none, s')) :
      Turn a t ⟨growing, rounds + 1, s⟩ ⟨false, rounds, s'.starve⟩

/-- Any number of turns. -/
abbrev Turns (a : Allocator σ ε) (t : Terms) : Stage σ ε → Stage σ ε → Prop :=
  Relation.ReflTransGen (Turn a t)

/-- How funding stops. -/
inductive Stops (a : Allocator σ ε) (t : Terms) : Stage σ ε → Pass σ ε → Prop where
  /-- the draft is not short any more -/
  | covered {growing : Bool} {rounds : Nat} {s : Progress σ ε} (hcovered : 0 ≤ s.draft.excess t) :
      Stops a t ⟨growing, rounds, s⟩ ⟨.covered, rounds, s⟩
  /-- the rounds are used up -/
  | exhausted {growing : Bool} {s : Progress σ ε} (hshort : s.draft.excess t < 0) :
      Stops a t ⟨growing, 0, s⟩ ⟨.exhausted, 0, s⟩
  /-- the pool has nothing left, and there is no change output to drop -/
  | dry {growing : Bool} {rounds : Nat} {s : Progress σ ε} {source : σ}
      (hshort : s.draft.excess t < 0) (hchange : s.draft.change.size = 0)
      (hreply : a.claim (s.draft.ask t) s.source = (.ok none, source)) :
      Stops a t ⟨growing, rounds + 1, s⟩ ⟨.dry, rounds, s.answered t (.ok none) source⟩
  /-- the allocator failed to answer a request -/
  | refused {growing : Bool} {rounds : Nat} {s : Progress σ ε} {source : σ} {e : ε}
      (hshort : s.draft.excess t < 0)
      (hreply : a.claim (s.draft.ask t) s.source = (.error e, source)) :
      Stops a t ⟨growing, rounds + 1, s⟩ ⟨.refused e, rounds, s.answered t (.error e) source⟩
  /-- the allocator failed to take a claim back -/
  | stuck {growing : Bool} {rounds : Nat} {s s' : Progress σ ε} {source : σ} {e : ε}
      (hshort : s.draft.excess t < 0) (hchange : s.draft.change.size ≠ 0)
      (hreply : a.claim (s.draft.ask t) s.source = (.ok none, source))
      (hback : (s.answered t (.ok none) source).releaseAll a = (some e, s')) :
      Stops a t ⟨growing, rounds + 1, s⟩ ⟨.refused e, rounds, s'⟩

/-- A pass has run dry with change outputs left, so that another one follows. -/
inductive Starves (a : Allocator σ ε) (t : Terms) : Stage σ ε → Pass σ ε → Prop where
  | mk {growing : Bool} {rounds : Nat} {s : Progress σ ε} {source : σ}
      (hshort : s.draft.excess t < 0) (hchange : s.draft.change.size ≠ 0)
      (hreply : a.claim (s.draft.ask t) s.source = (.ok none, source)) :
      Starves a t ⟨growing, rounds + 1, s⟩ ⟨.dry, rounds, s.answered t (.ok none) source⟩

/-- What holds at the start and is kept by every turn holds after any number of them. -/
theorem Turns.keeps {a : Allocator σ ε} {t : Terms} {P : Stage σ ε → Prop} {g g' : Stage σ ε}
    (hturns : Turns a t g g') (hstep : ∀ g g', P g → Turn a t g g' → P g') (h : P g) : P g' := by
  induction hturns with
  | refl => exact h
  | tail _ hturn ih => exact hstep _ _ ih hturn

section
variable (a : Allocator σ ε) (t : Terms)

/-- A pass takes turns, and then stops or starves. -/
theorem claimPass_turns (growing : Bool) (rounds : Nat) (s : Progress σ ε) :
    ∃ g, Turns a t ⟨growing, rounds, s⟩ g ∧
      (Stops a t g (claimPass a t growing rounds s) ∨
        Starves a t g (claimPass a t growing rounds s)) := by
  -- by the rounds that are left: a claim is one turn, and the pass goes on from where it leads
  induction rounds generalizing s with
  | zero =>
    refine ⟨_, .refl, .inl ?_⟩
    rw [claimPass]
    split
    · exact .covered ‹_›
    · exact .exhausted (by omega)
  | succ rounds ih =>
    rw [claimPass]
    split
    · exact ⟨_, .refl, .inl (.covered ‹_›)⟩
    · have hshort : s.draft.excess t < 0 := by omega
      rcases hreply : a.claim (s.draft.ask t) s.source with ⟨reply, source⟩
      rw [Progress.request_eq hreply]
      rcases reply with e | _ | c
      · exact ⟨_, .refl, .inl (.refused hshort hreply)⟩
      · by_cases hchange : s.draft.change.size = 0
        · exact ⟨_, .refl, .inl (.dry hshort hchange hreply)⟩
        · exact ⟨_, .refl, .inr (.mk hshort hchange hreply)⟩
      · obtain ⟨g, hturns, hends⟩ := ih (s.claimed t growing c source)
        exact ⟨g, .head (.claim hshort hreply) hturns, hends⟩

/-- Passes after the first leave the change outputs alone. -/
theorem change_claimPass_false (rounds : Nat) (s : Progress σ ε) :
    (claimPass a t false rounds s).progress.draft.change = s.draft.change := by
  induction rounds generalizing s with
  | zero => unfold claimPass; split <;> rfl
  | succ rounds ih =>
    rw [claimPass]
    split
    · rfl
    · rcases hreply : a.claim (s.draft.ask t) s.source with ⟨reply, source⟩
      rw [Progress.request_eq hreply]
      rcases reply with e | _ | c
      · rfl
      · rfl
      · exact ih _

/-- A starved pass leaves the next all change outputs but the latest. -/
theorem items_starve {s s' : Progress σ ε} {fault : Option ε} (h : s.releaseAll a = (fault, s')) :
    s'.starve.draft.change.items = s.draft.change.items.tail := by
  obtain ⟨-, hdraft⟩ := Progress.giveBack_of_releaseAll h
  simp only [Progress.starve, hdraft, Draft.retreat, Tally.items_pop]

/-- A starved pass leaves the next one change output fewer. -/
theorem change_starve {s s' : Progress σ ε} {fault : Option ε} (h : s.releaseAll a = (fault, s')) :
    s'.starve.draft.change.size = s.draft.change.size - 1 := by
  rw [Tally.size_eq, items_starve a h, List.length_tail, ← Tally.size_eq]

/-- Passes after one that has ended take turns, and then funding stops. -/
theorem backtrack_turns (n : Nat) (g : Stage σ ε) (p : Pass σ ε)
    (hn : p.progress.draft.change.size = n) (hends : Stops a t g p ∨ Starves a t g p) :
    ∃ g', Turns a t g g' ∧ Stops a t g' (backtrack a t n p) := by
  -- by the change outputs that are left: a starved pass drops one, and the next adds none
  induction n generalizing g p with
  | zero =>
    rcases hends with hstops | hstarves
    · exact ⟨g, .refl, hstops⟩
    · rcases hstarves with ⟨-, hchange, -⟩
      exact absurd hn hchange
  | succ n ih =>
    rcases hends with hstops | hstarves
    · refine ⟨g, .refl, ?_⟩
      cases hstops with
      | covered hcovered => exact .covered hcovered
      | exhausted hshort => exact .exhausted hshort
      | dry _ hchange _ => exact absurd (hn.symm.trans hchange) (Nat.succ_ne_zero n)
      | refused hshort hreply => exact .refused hshort hreply
      | stuck hshort hchange hreply hback => exact .stuck hshort hchange hreply hback
    · rcases hstarves with @⟨growing, rounds, s, source, hshort, hchange, hreply⟩
      rw [backtrack]
      rcases hback : (s.answered t (.ok none) source).releaseAll a with ⟨_ | e, s'⟩
      · have hsize : s'.starve.draft.change.size = n := by
          rw [change_starve a hback]
          exact Nat.sub_eq_of_eq_add hn
        obtain ⟨g₁, hturns₁, hends₁⟩ := claimPass_turns a t false rounds s'.starve
        have hn₁ : (claimPass a t false rounds s'.starve).progress.draft.change.size = n := by
          rw [change_claimPass_false, hsize]
        obtain ⟨g₂, hturns₂, hstops₂⟩ := ih g₁ _ hn₁ hends₁
        exact ⟨g₂, .head (.starve hshort hchange hreply hback) (hturns₁.trans hturns₂), by
          simpa only [hback] using hstops₂⟩
      · exact ⟨_, .refl, by simpa only [hback] using Stops.stuck hshort hchange hreply hback⟩

/-- **Funding is a loop of turns**, after which it stops. -/
theorem fund_turns (rounds : Nat) (s : Progress σ ε) :
    ∃ g, Turns a t ⟨true, rounds, s⟩ g ∧ Stops a t g (fund a t rounds s) := by
  obtain ⟨g, hturns, hends⟩ := claimPass_turns a t true rounds s
  obtain ⟨g', hturns', hstops⟩ := backtrack_turns a t _ g _ rfl hends
  exact ⟨g', hturns.trans hturns', hstops⟩

end

/-- What no answer of an allocator breaks. -/
structure Allocator.Keeps (a : Allocator σ ε) (P : σ → Prop) : Prop where
  /-- an answer to a request does not -/
  claim : ∀ ask source, P source → P (a.claim ask source).2
  /-- nor does one to a release -/
  release : ∀ id source, P source → P (a.release id source).2

namespace Allocator.Keeps

variable {a : Allocator σ ε} {t : Terms} {P : σ → Prop} (h : a.Keeps P)
include h

/-- What an allocator keeps is true of the state it answers a request with. -/
theorem of_claim {ask : Ask} {source source' : σ} {reply : Except ε (Option Candidate)}
    (hsource : P source) (hreply : a.claim ask source = (reply, source')) : P source' := by
  obtain rfl : (a.claim ask source).2 = source' := by rw [hreply]
  exact h.claim ask source hsource

/-- Giving back a list of claims does not break what an allocator keeps. -/
theorem giveBack (held : List Candidate) {source : σ} (trace : List (Event ε))
    (hsource : P source) : P (Progress.giveBack a held source trace).2.1 := by
  induction held generalizing source trace with
  | nil => exact hsource
  | cons c rest ih =>
    have hnext := h.release c.id source hsource
    rw [Progress.giveBack]
    rcases hreply : a.release c.id source with ⟨e | ⟨⟩, source'⟩
    · rw [hreply] at hnext
      exact hnext
    · rw [hreply] at hnext
      exact ih _ hnext

/-- Giving back every claim of a run does not break what an allocator keeps. -/
theorem releaseAll {s s' : Progress σ ε} {fault : Option ε} (hsource : P s.source)
    (hback : s.releaseAll a = (fault, s')) : P s'.source := by
  have hswept := h.giveBack s.draft.claimed.items s.trace hsource
  rwa [(Progress.giveBack_of_releaseAll hback).1] at hswept

/-- No turn breaks what an allocator keeps. -/
theorem turn {g g' : Stage σ ε} (hsource : P g.run.source) (hturn : Turn a t g g') :
    P g'.run.source := by
  cases hturn with
  | claim hshort hreply => exact h.of_claim hsource hreply
  | @starve _ _ s s' source hshort hchange hreply hback =>
    have hswept : P s'.source :=
      h.releaseAll (s := s.answered t (.ok none) source) (h.of_claim hsource hreply) hback
    exact hswept

end Allocator.Keeps

/-- What an allocator keeps true of its state and of what the run holds, the latest claim first, as
long as it does not fail. -/
structure Allocator.Tracks (a : Allocator σ ε) (R : List Candidate → σ → Prop) : Prop where
  /-- what a request is answered with is held -/
  claim : ∀ ask held source answer next, R held source →
    a.claim ask source = (.ok answer, next) → R (answer.toList ++ held) next
  /-- what is taken back is not, if it was the latest claim -/
  release : ∀ c held source next, R (c :: held) source →
    a.release c.id source = (.ok (), next) → R held next

namespace Allocator.Tracks

variable {a : Allocator σ ε} {t : Terms} {R : List Candidate → σ → Prop} (h : a.Tracks R)
include h

/-- After everything is given back nothing is held. -/
theorem giveBack {held : List Candidate} {source next : σ} {trace later : List (Event ε)}
    (hsource : R held source)
    (hback : Progress.giveBack a held source trace = (none, next, later)) : R [] next := by
  induction held generalizing source trace with
  | nil =>
    obtain ⟨-, hnext⟩ := Prod.mk.inj hback
    obtain ⟨rfl, -⟩ := Prod.mk.inj hnext
    exact hsource
  | cons c rest ih =>
    rw [Progress.giveBack] at hback
    rcases hreply : a.release c.id source with ⟨e | ⟨⟩, source'⟩
    · rw [hreply] at hback
      cases hback
    · rw [hreply] at hback
      exact ih (h.release c rest source source' hsource hreply) hback

/-- A turn keeps track of what the draft claims. -/
theorem turn {g g' : Stage σ ε} (hsource : R g.run.draft.claimed.items g.run.source)
    (hturn : Turn a t g g') : R g'.run.draft.claimed.items g'.run.source := by
  cases hturn with
  | @claim growing rounds s c source hshort hreply =>
    rw [Progress.items_claimed]
    exact h.claim _ _ _ _ _ hsource hreply
  | starve hshort hchange hreply hback =>
    obtain ⟨hgive, -⟩ := Progress.giveBack_of_releaseAll hback
    exact h.giveBack (h.claim _ _ _ _ _ hsource hreply) hgive

end Allocator.Tracks

end CoinPurse
