import CoinPurse.Allocator
import CoinPurse.Draft

/-!
# Funding a draft

A draft that is short is funded in *passes*. A pass claims candidates one after another until the
draft is covered, the pool has nothing left, or something stops it. The first pass may add change
outputs as it goes. If the pool runs dry while the draft still has change outputs, every claim is
released, the last output is dropped and a further pass begins, which adds none.

Each pass spends *rounds*: one for every request made of the allocator. They are counted over all
passes, and a run that needs more than its share is stopped. Within a pass the recursion is on the
rounds that are left, from pass to pass on the change outputs that are left.

Everything that happens is put down in a trace, the last event first.
-/

namespace CoinPurse

/-- What happens in a run: an allocator is asked and answers, a claim is released, or the pool turns
out too small for the change outputs and one of them is dropped. -/
inductive Event (ε : Type) where
  /-- a candidate was asked for -/
  | asked (ask : Ask) (reply : Except ε (Option Candidate))
  /-- a claim was given back, or refused -/
  | returned (id : Int) (reply : Except ε Unit)
  /-- a pass starved; so many change outputs are left for the next -/
  | starved (left : Nat)

/-- A run under way: its draft, the allocator's state, and what has happened, last first. -/
structure Progress (σ ε : Type) where
  /-- the transaction as it stands -/
  draft : Draft
  /-- the state of the allocator -/
  source : σ
  /-- what has happened, last first -/
  trace : List (Event ε)

/-- Why a pass came to an end. -/
inductive Halt (ε : Type) where
  /-- the draft is not short any more -/
  | covered
  /-- the pool has nothing left and the draft is short -/
  | dry
  /-- the rounds are used up -/
  | exhausted
  /-- the allocator failed -/
  | refused (cause : ε)

/-- A pass that has ended. -/
structure Pass (σ ε : Type) where
  /-- why it ended -/
  halt : Halt ε
  /-- the rounds that are left -/
  rounds : Nat
  /-- the run at its end -/
  progress : Progress σ ε

section
variable {σ ε : Type}

namespace Progress

/-- Asks for a candidate; the trace grows by the request and its answer. -/
def request (a : Allocator σ ε) (t : Terms) (s : Progress σ ε) :
    Except ε (Option Candidate) × Progress σ ε :=
  let ask := s.draft.ask t
  let (reply, source) := a.claim ask s.source
  (reply, { s with source, trace := .asked ask reply :: s.trace })

/-- Gives back the listed claims in this order, up to the first that is refused. -/
def giveBack (a : Allocator σ ε) :
    List Candidate → σ → List (Event ε) → Option ε × σ × List (Event ε)
  | [], source, trace => (none, source, trace)
  | c :: rest, source, trace =>
    match a.release c.id source with
    | (.error e, source) => (some e, source, .returned c.id (.error e) :: trace)
    | (.ok (), source) => giveBack a rest source (.returned c.id (.ok ()) :: trace)

/-- Gives back every claim of the draft, the most recent first. -/
def releaseAll (a : Allocator σ ε) (s : Progress σ ε) : Option ε × Progress σ ε :=
  let (fault, source, trace) := giveBack a s.draft.claimed.items s.source s.trace
  (fault, { draft := { s.draft with claimed := .empty }, source, trace })

/-- Drops the last change output and puts it down that the pass starved. -/
def starve (s : Progress σ ε) : Progress σ ε :=
  let draft := s.draft.retreat
  { s with draft, trace := .starved draft.change.size :: s.trace }

end Progress

/-- One pass: claims candidates until the draft is covered or no more can be had. -/
def claimPass (a : Allocator σ ε) (t : Terms) (growing : Bool) :
    Nat → Progress σ ε → Pass σ ε
  | 0, s => if 0 ≤ s.draft.excess t then ⟨.covered, 0, s⟩ else ⟨.exhausted, 0, s⟩
  | rounds + 1, s =>
    if 0 ≤ s.draft.excess t then ⟨.covered, rounds + 1, s⟩
    else
      match s.request a t with
      | (.error e, s) => ⟨.refused e, rounds, s⟩
      | (.ok none, s) => ⟨.dry, rounds, s⟩
      | (.ok (some c), s) =>
        claimPass a t growing rounds { s with draft := s.draft.accept t growing c }

/-- Further passes after one that ran dry, with one change output fewer each time. The number is
that of the change outputs left. -/
def backtrack (a : Allocator σ ε) (t : Terms) : Nat → Pass σ ε → Pass σ ε
  | 0, p => p
  | n + 1, p =>
    match p.halt with
    | .dry =>
      match p.progress.releaseAll a with
      | (some e, s) => ⟨.refused e, p.rounds, s⟩
      | (none, s) => backtrack a t n (claimPass a t false p.rounds s.starve)
    | _ => p

/-- Funds a draft: a pass that may add change outputs, then as many further passes as it takes. It
ends covered, or dry with no change output left, unless something stopped it. -/
def fund (a : Allocator σ ε) (t : Terms) (rounds : Nat) (s : Progress σ ε) : Pass σ ε :=
  let first := claimPass a t true rounds s
  backtrack a t first.progress.draft.change.size first

end

end CoinPurse
