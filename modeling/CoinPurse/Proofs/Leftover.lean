import CoinPurse.Proofs.Generation
import CoinPurse.Proofs.Handout
import CoinPurse.Proofs.Pressure

/-!
# What is handed out is a word

Whether a draft is funded is worked out in whole numbers of any size, but its excess is handed out
in words: every turn of the distribution reads what is left as one (`Draft.left`). An excess beyond
a word would lose its upper part there, and once nothing but that part was left, turns would hand
out nothing for ever.

That never happens (`generate_leavesWords`), and not because totals are small: what a draft claims
may be worth any number of words together. But a run claims only while its draft is short
(`Turns.claimedInNeed`), so the latest claim alone lifts the excess above zero, and no claim lifts
it by more than it is worth. A draft without claims has an excess only from the fixed inputs, and
these are worth no more than a signed word.

All this is about what is left. The amount of a change output is a number of any size here, and a
turn may lift it beyond a word. It does not if the change and the excess are a word together
(`Draft.LeavesWords.amount_le`).
-/

namespace CoinPurse

open Relation (ReflTransGen)
open Handout

variable {σ ε : Type}

namespace Draft

/-- Every turn in which the excess of a draft is handed out finds a word to hand out. -/
structure LeavesWords (t : Terms) (d : Draft) : Prop where
  /-- the draft is not short -/
  covered : 0 ≤ d.excess t
  /-- its excess is a word -/
  word : d.excess t < Word.size64
  /-- and nothing, if there is no change output to take it -/
  unplaced : d.change.size = 0 → d.excess t = 0
  /-- so whenever a turn reads what is left as a word, it reads all of it -/
  left_eq : ∀ h, ReflTransGen (Deal t) ⟨d, 0⟩ h → (h.draft.left t : Int) = h.draft.excess t
  /-- no turn hands out nothing, and none more than is left -/
  gives : ∀ h next, ReflTransGen (Deal t) ⟨d, 0⟩ h → Deal t h next →
    ∃ part, Gives t h.draft next.draft part
  /-- and turns do not go on for ever -/
  terminates : Acc (fun next h => Deal t h next) ⟨d, 0⟩
  /-- the distribution that runs takes such turns, whatever is drawn -/
  finish : ∀ draws, ∃ n, (d.finish t draws).2.taken = draws.taken + n ∧
    ReflTransGen (Deal t) ⟨d, 0⟩ ⟨d.withAmounts (d.finish t draws).1, n⟩

/-- A draft that was short before its latest claim, if it has any. -/
def ClaimedInNeed (t : Terms) (d : Draft) : Prop :=
  d.claimed = .empty ∨
    ∃ (before : Draft) (growing : Bool) (c : Candidate), before.excess t < 0 ∧
      d = before.accept t growing c

variable {t : Terms} {d : Draft}

/-- **What a claim lifts.** Accepting a candidate raises the excess by no more than it is worth,
whether a change output comes with it or not. -/
theorem excess_accept_le {growing : Bool} {c : Candidate}
    (hfee : t.feeModel.exact ((d.accept t growing c).size t) ≤ Word.max64) :
    (d.accept t growing c).excess t ≤ d.excess t + c.satoshis := by
  obtain ⟨parts, heq, hinputs⟩ := exists_accept_eq_extend t d growing c
  rw [heq] at hfee ⊢
  have hraised := excess_extend_le (.input c :: parts) hfee
  have hbrought : Part.brought parts = 0 := by rw [Part.brought, hinputs]; rfl
  rw [Part.brought_input, Part.taken_input, hbrought] at hraised
  omega

/-- **The excess is a word**, whatever has been claimed before the latest claim. -/
theorem ClaimedInNeed.excess_lt (h : d.ClaimedInNeed t)
    (hinputs : t.inputTotal ≤ Word.maxSigned64)
    (hwords : ∀ c ∈ d.claimed.items, c.satoshis ≤ Word.max64)
    (hfee : t.feeModel.exact (d.size t) ≤ Word.max64) : d.excess t < Word.size64 := by
  have hsigned : Word.maxSigned64 < Word.size64 := by decide
  have hunsigned : Word.max64 < Word.size64 := by decide
  rcases h with hnone | ⟨before, growing, c, hshort, rfl⟩
  · have hclaimed : d.claimed.total = 0 := by rw [hnone]; rfl
    rw [excess_eq, hclaimed]
    omega
  · have hraised := excess_accept_le hfee
    have hword : c.satoshis ≤ Word.max64 := by
      refine hwords c ?_
      rw [claimed_accept, Tally.items_push]
      exact List.mem_cons_self
    omega

/-- An excess that is a word is one in every turn in which it is handed out. -/
theorem excess_lt_of_turns {h : Handout} (hturns : ReflTransGen (Deal t) ⟨d, 0⟩ h)
    (hcovered : 0 ≤ d.excess t) (hword : d.excess t < Word.size64) :
    h.draft.excess t < Word.size64 :=
  Int.lt_of_le_of_lt (enriches_of_turns hturns hcovered hword).excess_le hword

/-- Without change outputs there is nothing to do. -/
theorem finish_of_no_change (t : Terms) (draws : Draws) (hchange : d.change.size = 0) :
    d.finish t draws = (d.change.toList, draws) := by
  have hnil : d.change.toList = [] :=
    List.length_eq_zero_iff.1 (d.change.length_toList.trans hchange)
  rw [finish, hnil]
  rfl

/-- A draft that is not short hands out words, if its excess is a word and has a place to go. -/
theorem leavesWords (hcovered : 0 ≤ d.excess t) (hword : d.excess t < Word.size64)
    (hunplaced : d.change.size = 0 → d.excess t = 0) : d.LeavesWords t where
  covered := hcovered
  word := hword
  unplaced := hunplaced
  left_eq h hturns := by
    have hleft := left_eq (excess_lt_of_turns hturns hcovered hword)
    rw [hleft]
    exact Int.toNat_of_nonneg (enriches_of_turns hturns hcovered hword).covered
  gives h next hturns hturn := Deal.gives hturn (excess_lt_of_turns hturns hcovered hword)
  terminates := acc_turn hword
  finish draws := by
    by_cases hchange : d.change.size = 0
    · rw [finish_of_no_change t draws hchange, withAmounts_toList]
      exact ⟨0, rfl, .refl⟩
    · exact turns_finish draws hcovered hword hchange

/-- No turn lifts a change output beyond what the change and the excess were worth together. -/
theorem LeavesWords.amount_le (hd : d.LeavesWords t) {h : Handout} {satoshis : Nat}
    (hturns : ReflTransGen (Deal t) ⟨d, 0⟩ h) (hmem : satoshis ∈ h.draft.change.toList) :
    (satoshis : Int) ≤ d.change.total + d.excess t := by
  have henriches := enriches_of_turns hturns hd.covered hd.word
  have htotal := henriches.total_eq
  have hcovered := henriches.covered
  have hamount := le_totalOf_of_mem hmem
  rw [totalOf_change] at hamount
  omega

end Draft

/-- **Claims are made in need**: whatever turns a run has taken, its draft was short before the
latest claim it holds. -/
theorem Turns.claimedInNeed {a : Allocator σ ε} {cap : Nat} {t : Terms} {source : σ}
    {g : Stage σ ε} (hturns : Turns a t ⟨true, cap, .start t source⟩ g) :
    g.run.draft.ClaimedInNeed t := by
  refine hturns.keeps (P := fun g => g.run.draft.ClaimedInNeed t) (fun g g' _ hturn => ?_)
    (.inl (Draft.claimed_seed t))
  cases hturn with
  | claim hshort hreply => exact .inr ⟨_, _, _, hshort, rfl⟩
  | starve => exact .inl rfl

/-- **What is handed out is a word.** Whatever the terms, the cap on the rounds and the answers of
the allocator: if a run gets to the point where the excess of its draft is handed out, and what this
draft claims and the exact fee of its size are words, then the excess is a word, and so is what
every turn finds left. Whatever is drawn, the run then succeeds with the plan of this draft. -/
theorem generate_leavesWords (a : Allocator σ ε) (cap : Nat) (t : Terms) (source : σ)
    (s : Progress σ ε) (hready : ready a cap t source = .ok s)
    (hwords : ∀ c ∈ s.draft.claimed.items, c.satoshis ≤ Word.max64)
    (hfee : t.feeModel.exact (s.draft.size t) ≤ Word.max64) :
    s.draft.LeavesWords t ∧ ∀ entropy,
      generate a entropy cap t source = s.settled t (.ofValues entropy t.randomValues) := by
  obtain ⟨hcheck, hcovered, hchange, g, hturns, rfl⟩ := turns_of_ready a t cap hready
  have hinputs : t.inputTotal ≤ Word.maxSigned64 := (t.check_eq_ok_iff.1 hcheck).inputTotal_le
  have hword := hturns.claimedInNeed.excess_lt hinputs hwords hfee
  refine ⟨Draft.leavesWords hcovered hword hchange, fun entropy => ?_⟩
  rw [generate, hready, ← handOut_eq_settled _ hcovered hchange]

/-- The terms of a payment of a signed word, with two change outputs more than inputs. -/
def Terms.largestPayment : Terms := { Terms.payment 1 Word.maxSigned64 with netCount := some 2 }

/-- An allocator that has five satoshis at first, and then two claims worth more than a word. -/
def Allocator.largestClaims : List Allocator.Reply :=
  [.ok (some ⟨1, 5⟩), .ok none, .ok (some ⟨2, Word.maxSigned64⟩), .ok (some ⟨3, Word.max64⟩)]

/-- A draft with these two claims, and one change output. -/
def Draft.largestClaims : Draft :=
  ⟨.ofList [⟨3, Word.max64⟩, ⟨2, Word.maxSigned64⟩], .ofList [285]⟩

/-- The first pass starves, and the second ends with the largest claim that there can be. What is
left of it is all but a word, which goes to the change output that is left. -/
theorem generate_leavesWords_largestClaims :
    ∃ s, ready (Allocator.prepared none) 9 .largestPayment Allocator.largestClaims = .ok s ∧
      s.draft = .largestClaims ∧ (∀ c ∈ s.draft.claimed.items, c.satoshis ≤ Word.max64) ∧
      Terms.largestPayment.feeModel.exact (s.draft.size .largestPayment) ≤ Word.max64 ∧
      Word.size64 < s.draft.claimed.total ∧
      s.draft.excess .largestPayment = 18446744073709551329 ∧
      s.draft.LeavesWords .largestPayment ∧
      (generate (Allocator.prepared none) (fun _ => 0) 9 .largestPayment
        Allocator.largestClaims).outcome
        = .ok ⟨[⟨2, Word.maxSigned64⟩, ⟨3, Word.max64⟩], [⟨18446744073709551614, 25⟩],
            374, 1, 1⟩ := by
  obtain ⟨s, hready, hdraft⟩ :
      ∃ s, ready (Allocator.prepared none) 9 .largestPayment Allocator.largestClaims = .ok s ∧
        s.draft = .largestClaims := ⟨_, rfl, rfl⟩
  have hwords : ∀ c ∈ s.draft.claimed.items, c.satoshis ≤ Word.max64 := by
    rw [hdraft]
    decide
  have hfee : Terms.largestPayment.feeModel.exact (s.draft.size .largestPayment) ≤ Word.max64 := by
    rw [hdraft]
    decide
  obtain ⟨hleaves, hgenerate⟩ := generate_leavesWords (Allocator.prepared none) 9 .largestPayment
    Allocator.largestClaims s hready hwords hfee
  refine ⟨s, hready, hdraft, hwords, hfee, ?_, ?_, hleaves, ?_⟩
  · rw [hdraft]
    decide
  · rw [hdraft]
    decide
  · rw [hgenerate, Progress.settled, hdraft]
    rfl

end CoinPurse
