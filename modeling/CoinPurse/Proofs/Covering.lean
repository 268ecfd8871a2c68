import CoinPurse.Generation
import CoinPurse.Proofs.Request
import CoinPurse.Proofs.Terms
import CoinPurse.Proofs.Turns

/-!
# One covering candidate ends a pass

What a draft needs is worked out before it is known whether a change output goes with the next
input. The target is this need, cut down to a word (`Draft.target_eq_clamp`). If it is not cut down,
then any candidate that reaches it is enough, with the change output or without: the draft is not
short any more, and the pass ends without another request (`claimPass_ends`). And while neither a
net count nor an output stands in the way of a transaction without change, a candidate worth exactly
the target leaves nothing at all.

A pass that adds a first change output sets aside two initial amounts for it. So this takes a first
amount of no more than that.
-/

namespace CoinPurse

namespace Draft

/-- What a request would ask for if it did not have to be a word: what the draft lacks with one more
input, and where a change output goes with that input, what it lacks with both and two initial
amounts. -/
def need (t : Terms) (d : Draft) : Int :=
  if d.wantsBalance t then max 0 (-d.excessWith t 1 1) + 2 * t.initialSatoshis
  else max 0 (-d.excessWith t 1 0)

variable {t : Terms} {d : Draft} {c : Candidate}

/-- **The target is the need**, cut down to a word. -/
theorem target_eq_clamp : (d.ask t).target = Word.clamp (d.need t) := by
  simp only [ask, need, deficit, Word.add, Word.mul, Word.clamp]
  split
  · split <;> omega
  · split <;> omega

/-- A need that is a word is not cut down. -/
theorem target_eq_need (hneed : d.need t ≤ Word.max64) : ((d.ask t).target : Int) = d.need t := by
  have hpos : 0 ≤ d.need t := by
    rw [need]
    split <;> omega
  rw [target_eq_clamp, Word.clamp]
  omega

/-- A candidate that reaches the target of a draft that wants a change output leaves enough for
it. -/
theorem nextAmount_le_of_target_le (hamounts : t.firstSatoshis ≤ 2 * t.initialSatoshis)
    (hneed : d.need t ≤ Word.max64) (hwants : d.wantsBalance t = true)
    (hreaches : (d.ask t).target ≤ c.satoshis) :
    (d.nextAmount t : Int) ≤ d.excessWith t 1 1 + c.satoshis := by
  have htarget := target_eq_need hneed
  have hnext : d.nextAmount t ≤ 2 * t.initialSatoshis := by
    rw [nextAmount]
    split <;> omega
  rw [need, if_pos hwants] at htarget
  omega

/-- While a draft has a change output and wants no more, accepting a candidate is claiming it. -/
theorem accept_eq_claim_of_change (hwants : d.wantsBalance t = false) (hchange : d.change.size ≠ 0)
    (growing : Bool) : d.accept t growing c = d.claim c := by
  rcases accept_cases t d growing c with ⟨heq, -⟩ | ⟨-, -, hadds | hadds, -⟩
  · exact heq
  · simp [hwants] at hadds
  · exact absurd hadds hchange

/-- **Reaching the target is enough**, whether a change output is added or not. -/
theorem excess_accept_of_target_le
    (hfits : t.FeeFits (d.claimed.size + 1) (d.change.size + 1))
    (hamounts : t.firstSatoshis ≤ 2 * t.initialSatoshis) (hneed : d.need t ≤ Word.max64)
    (hrequest : d.wantsBalance t = true ∨ d.change.size ≠ 0)
    (hreaches : (d.ask t).target ≤ c.satoshis) (growing : Bool) :
    0 ≤ (d.accept t growing c).excess t := by
  cases hwants : d.wantsBalance t with
  | true =>
    apply excess_accept_nonneg hfits
    exact nextAmount_le_of_target_le hamounts hneed hwants hreaches
  | false =>
    have hchange : d.change.size ≠ 0 := by simpa [hwants] using hrequest
    have htarget := target_eq_need hneed
    rw [need, hwants] at htarget
    rw [accept_eq_claim_of_change hwants hchange, excess_claim]
    simp at htarget
    omega

/-- Without a net count and without change outputs, the target is named as the exact amount, too. -/
theorem exact_eq_target (hcount : t.netCount = none) (hchange : d.change.size = 0) :
    (d.ask t).exact = some (d.ask t).target := by
  simp [ask, wantsBalance, hcount, hchange]

/-- A claim that leaves nothing in excess comes without a change output. -/
theorem accept_eq_claim_of_excess (hnone : (d.claim c).excess t ≤ 0) (growing : Bool) :
    d.accept t growing c = d.claim c := by
  rcases accept_cases t d growing c with ⟨heq, -⟩ | ⟨-, hover, -, -⟩
  · exact heq
  · exact absurd hnone (Int.not_le.2 hover)

/-- **An exact fit leaves nothing**, so that no change output is added. -/
theorem accept_of_exact (hfits : t.FeeFits (d.claimed.size + 1) d.change.size)
    (hshort : d.excess t < 0) (hneed : d.need t ≤ Word.max64) (hcount : t.netCount = none)
    (hworth : c.satoshis = (d.ask t).target) (growing : Bool) :
    d.accept t growing c = d.claim c ∧ (d.claim c).excess t = 0 := by
  have hless : d.excessWith t 1 0 ≤ d.excess t :=
    excessWith_le_excessWith hfits (Nat.zero_le 1) (Nat.le_refl 0)
  have htarget := target_eq_need hneed
  have hzero : (d.claim c).excess t = 0 := by
    rw [need, wantsBalance, hcount] at htarget
    rw [excess_claim, hworth]
    simp at htarget
    omega
  exact ⟨accept_eq_claim_of_excess (Int.le_of_eq hzero) growing, hzero⟩

end Draft

section
variable {σ ε : Type} {a : Allocator σ ε} {t : Terms} {growing : Bool} {rounds : Nat}
variable {s : Progress σ ε} {c : Candidate} {source : σ}

/-- A draft that is not short takes no turn in a pass. -/
theorem claimPass_of_nonneg (hcovered : 0 ≤ s.draft.excess t) :
    claimPass a t growing rounds s = ⟨.covered, rounds, s⟩ := by
  cases rounds <;> simp [claimPass, hcovered]

/-- A claim is one turn of a pass. -/
theorem claimPass_of_claim (hshort : s.draft.excess t < 0)
    (hreply : a.claim (s.draft.ask t) s.source = (.ok (some c), source)) :
    claimPass a t growing (rounds + 1) s
      = claimPass a t growing rounds (s.claimed t growing c source) := by
  rw [claimPass, if_neg (Int.not_le.2 hshort), Progress.request_eq hreply]
  rfl

variable (a t growing rounds s c source) in
/-- A pass, with so many rounds left after its next request, that ends with the claim of a
candidate. -/
structure Progress.CoveredBy : Prop where
  /-- the draft is not short any more, with the change output that the claim may have come with -/
  covered : 0 ≤ (s.claimed t growing c source).draft.excess t
  /-- so the pass ends there -/
  pass_eq : claimPass a t growing (rounds + 1) s
    = ⟨.covered, rounds, s.claimed t growing c source⟩
  /-- and the candidate is the last thing it has asked for -/
  trace_eq : (claimPass a t growing (rounds + 1) s).progress.trace
    = .asked (s.draft.ask t) (.ok (some c)) :: s.trace

/-- A pass ends with the claim that covers its draft. -/
theorem Progress.coveredBy_of_nonneg (hshort : s.draft.excess t < 0)
    (hreply : a.claim (s.draft.ask t) s.source = (.ok (some c), source))
    (hcovered : 0 ≤ (s.draft.accept t growing c).excess t) :
    s.CoveredBy a t growing rounds c source := by
  have hpass : claimPass a t growing (rounds + 1) s
      = ⟨.covered, rounds, s.claimed t growing c source⟩ := by
    rw [claimPass_of_claim hshort hreply]
    exact claimPass_of_nonneg hcovered
  refine ⟨hcovered, hpass, ?_⟩
  rw [hpass]
  rfl

end

/-- **One covering candidate ends a pass.** Take any run whose draft is short, in its first pass or
a later one, and suppose that the fee is a word and the target is not cut down to one. If a change
output goes with the next input or there is one already, then a candidate worth at least the target
covers the draft, and nothing more is asked for in this pass. If there is neither a net count nor a
change output, then the target is the exact amount, and a candidate worth just that leaves nothing
in excess. -/
theorem claimPass_ends {σ ε : Type} (a : Allocator σ ε) (t : Terms) (growing : Bool) (rounds : Nat)
    (s : Progress σ ε) (c : Candidate) (source : σ) (hshort : s.draft.excess t < 0)
    (hfits : t.FeeFits (s.draft.claimed.size + 1) (s.draft.change.size + 1))
    (hneed : s.draft.need t ≤ Word.max64)
    (hreply : a.claim (s.draft.ask t) s.source = (.ok (some c), source)) :
    (t.firstSatoshis ≤ 2 * t.initialSatoshis →
      s.draft.wantsBalance t = true ∨ s.draft.change.size ≠ 0 →
      (s.draft.ask t).target ≤ c.satoshis → s.CoveredBy a t growing rounds c source) ∧
    (t.netCount = none → s.draft.change.size = 0 →
      (s.draft.ask t).exact = some (s.draft.ask t).target ∧
      (c.satoshis = (s.draft.ask t).target → s.CoveredBy a t growing rounds c source ∧
        (s.claimed t growing c source).draft.excess t = 0 ∧
        (s.claimed t growing c source).draft.change.size = 0)) := by
  constructor
  · intro hamounts hrequest hreaches
    apply Progress.coveredBy_of_nonneg hshort hreply
    exact Draft.excess_accept_of_target_le hfits hamounts hneed hrequest hreaches growing
  · intro hcount hchange
    refine ⟨Draft.exact_eq_target hcount hchange, fun hworth => ?_⟩
    obtain ⟨heq, hzero⟩ := Draft.accept_of_exact (hfits.anti (Nat.le_refl _) (Nat.le_succ _)) hshort
      hneed hcount hworth growing
    rw [← heq] at hzero
    refine ⟨Progress.coveredBy_of_nonneg hshort hreply (Int.le_of_eq hzero.symm), hzero, ?_⟩
    change (s.draft.accept t growing c).change.size = 0
    rw [heq]
    exact hchange

/-- The terms of a payment that asks for a change output with its first input, of all that is set
aside for it. -/
def Terms.largeFirst : Terms :=
  { Terms.payment 100 1000 with netCount := some 0, firstSatoshis := 2000 }

/-- A run at its start whose allocator offers a single candidate, over and over. -/
def Progress.offered (t : Terms) (c : Candidate) : Progress (List Allocator.Reply) String :=
  .start t [.ok (some c)]

/-- A candidate that just reaches the target pays for a change output of two initial amounts to the
satoshi. Without net count, one that is an exact fit leaves nothing. -/
theorem claimPass_ends_onTarget :
    (Draft.seed .largeFirst).excess .largeFirst < 0 ∧ Terms.largeFirst.FeeFits 1 1 ∧
    (Draft.seed .largeFirst).need .largeFirst ≤ Word.max64 ∧
    Terms.largeFirst.firstSatoshis ≤ 2 * Terms.largeFirst.initialSatoshis ∧
    (Draft.seed .largeFirst).wantsBalance .largeFirst = true ∧
    ((Draft.seed .largeFirst).ask .largeFirst).target = 3023 ∧
    (Progress.offered .largeFirst ⟨1, 3023⟩).CoveredBy (.prepared none) .largeFirst true 0 ⟨1, 3023⟩
      (Progress.offered .largeFirst ⟨1, 3023⟩).source ∧
    (Draft.seed (.payment 100 1000)).excess (.payment 100 1000) < 0 ∧
    (Terms.payment 100 1000).FeeFits 1 1 ∧ (Terms.payment 100 1000).netCount = none ∧
    (Draft.seed (.payment 100 1000)).need (.payment 100 1000) ≤ Word.max64 ∧
    (Draft.seed (.payment 100 1000)).change.size = 0 ∧
    ((Draft.seed (.payment 100 1000)).ask (.payment 100 1000)).exact = some 1020 ∧
    ((Progress.offered (.payment 100 1000) ⟨1, 1020⟩).claimed (.payment 100 1000) true ⟨1, 1020⟩
      (Progress.offered (.payment 100 1000) ⟨1, 1020⟩).source).draft.excess (.payment 100 1000)
        = 0 := by
  have hcovered := (claimPass_ends (.prepared none) .largeFirst true 0
    (.offered .largeFirst ⟨1, 3023⟩) ⟨1, 3023⟩ _ (by decide) (by decide) (by decide) rfl).1
    (by decide) (.inl rfl) (by decide)
  have hexact := (claimPass_ends (.prepared none) (.payment 100 1000) true 0
    (.offered (.payment 100 1000) ⟨1, 1020⟩) ⟨1, 1020⟩ _ (by decide) (by decide) (by decide) rfl).2
    rfl rfl
  exact ⟨by decide, by decide, by decide, by decide, rfl, rfl, hcovered, by decide, by decide, rfl,
    by decide, rfl, rfl, (hexact.2 rfl).2.1⟩

end CoinPurse
