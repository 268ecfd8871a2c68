import CoinPurse.Proofs.NetCount
import CoinPurse.Proofs.Shortage
import Mathlib.Order.Bounds.Defs

/-!
# No run claims more than it needs

A run that succeeds without change has claimed as few candidates as any selection that pays for the
transaction without change. The same goes for every pass after a starved one: its change outputs are
given, and when it ends covered it has claimed as few candidates as any selection that pays for them
(`generate_fewest`).

A greedy choice is not always the smallest, and what is asked for may even be raised for a change
output that is never made. What carries the proof is that a draft left short was left so by the
largest candidate there is (`Draft.le_of_claim_short_of_words`). So while a pass is short it holds
the largest candidates, and of selections of one size these leave most (`Stage.Frugal`). Only the
last claim may be of another candidate, and by then no selection of fewer would do.
-/

namespace CoinPurse

namespace Terms

/-- Candidates cover change outputs with these amounts if they pay for the fixed outputs, for the
change outputs, and for the fee of the transaction that makes them. -/
def Covers (t : Terms) (amounts : List Nat) (es : List Candidate) : Prop :=
  t.outputTotal + totalOf amounts + t.dueFor es.length amounts.length
    ≤ t.inputTotal + totalOf (es.map (·.satoshis))

/-- A number is the fewest for change outputs with these amounts if it is the least number of
candidates that cover them. -/
def Fewest (t : Terms) (cs : List Candidate) (amounts : List Nat) (n : Nat) : Prop :=
  IsLeast {k | ∃ es : List Candidate, es.Subperm cs ∧ t.Covers amounts es ∧ es.length = k} n

/-- Candidates pay if they leave nothing short. -/
theorem covers_iff {t : Terms} {amounts : List Nat} {es : List Candidate} :
    t.Covers amounts es ↔ 0 ≤ t.surplus amounts es := by
  rw [Covers, surplus, costFor]
  omega

end Terms

/-- A pass in which no claim has come with a change output: every pass after the first, and the
first as long as it has none. -/
def Stage.Plain {σ ε : Type} (g : Stage σ ε) : Prop :=
  g.growing = false ∨ g.run.draft.change.size = 0

/-- A pass that claims the largest candidates first, and no more of them than it needs. -/
structure Stage.Frugal (t : Terms) (cs : List Candidate) (g : Stage Holding NotHeld) : Prop where
  /-- as long as it is short, some amount divides what it claims from what is available -/
  largest : g.run.draft.excess t < 0 →
    ∃ m, (∀ c ∈ g.run.draft.claimed.items, m ≤ c.satoshis) ∧
      ∀ c ∈ g.run.source.pool.available, c.satoshis ≤ m
  /-- no smaller selection of the candidates pays for its change outputs -/
  fewest : ∀ es : List Candidate, es.Subperm cs → es.length < g.run.draft.claimed.size →
    t.surplus g.run.draft.change.items es < 0

section
variable {t : Terms} {cs : List Candidate} {g g' : Stage Holding NotHeld}

/-- A pass without claims has claimed none too many. -/
theorem Stage.frugal_of_unclaimed (h : g.run.draft.claimed = .empty) : g.Frugal t cs where
  largest _ := h ▸ exists_dividing_nil _
  fewest es _ hlength := by
    rw [h] at hlength
    exact absurd hlength (Nat.not_lt_zero _)

/-- While a pass is short, no selection of as few candidates pays for its change outputs. -/
theorem Stage.Frugal.surplus_neg (h : g.Frugal t cs) (hsplits : g.Splits cs)
    (hshort : g.run.draft.excess t < 0) {es : List Candidate} (hsub : es.Subperm cs)
    (hlength : es.length ≤ g.run.draft.claimed.size) :
    t.surplus g.run.draft.change.items es < 0 := by
  rcases Nat.lt_or_eq_of_le hlength with hless | hsame
  · exact h.fewest es hsub hless
  · -- of selections of this size the largest candidates leave most, and they leave too little
    obtain ⟨m, hclaimed, havailable⟩ := h.largest hshort
    have hmost := t.surplus_le_of_subperm g.run.draft.change.items hclaimed havailable
      (hsplits.perm.subperm_left.2 hsub) (by rw [hsame, g.run.draft.claimed.size_eq])
    rw [← Draft.excess_eq_surplus] at hmost
    exact Int.lt_of_le_of_lt hmost hshort

/-- In a plain pass, accepting a candidate is claiming it. -/
theorem Draft.accept_eq_claim_of_plain {d : Draft} {growing : Bool} {c : Candidate}
    (h : growing = false ∨ (d.accept t growing c).change.size = 0) :
    d.accept t growing c = d.claim c ∧ (growing = false ∨ d.change.size = 0) := by
  rcases h with rfl | h
  · exact ⟨rfl, .inl rfl⟩
  · obtain ⟨heq, hchange⟩ := Draft.accept_eq_claim h
    exact ⟨heq, .inr hchange⟩

/-- **Every turn keeps a plain pass frugal**, as long as the costs fit a word. -/
theorem Turn.frugal (hwords : ∀ c ∈ cs, c.satoshis ≤ Word.max64) (hsplits : g.Splits cs)
    (h : g.Plain → t.Fits cs.length (g.run.draft.change.size + 1) → g.Frugal t cs)
    (hturn : Turn Holding.allocator t g g') (hplain : g'.Plain)
    (hfits : t.Fits cs.length (g'.run.draft.change.size + 1)) : g'.Frugal t cs := by
  cases hturn with
  | @claim growing rounds s c source hshort hreply =>
    obtain ⟨hchoose, hc, havailable, hroom⟩ := hsplits.of_claim_some hreply
    obtain ⟨heq, hplain⟩ := Draft.accept_eq_claim_of_plain hplain
    simp only [Progress.claimed, heq] at hfits
    have hfrugal := h hplain hfits
    constructor
    · intro hshort'
      simp only [Progress.claimed, heq] at hshort' ⊢
      -- the draft is still short, so no other candidate is worth more than the one claimed
      have hlargest := Draft.le_of_claim_short_of_words (hfits.anti hroom (Nat.le_refl _))
        (fun x hx => hwords x (hsplits.perm.subset (List.mem_append_right _ hx))) hchoose hshort'
      exact ⟨c.satoshis, forall_le_cons_of_dividing (hfrugal.largest hshort) hc,
        fun x hx => hlargest x (havailable hx)⟩
    · intro es hsub hlength
      rw [Progress.size_claimed] at hlength
      simp only [Progress.claimed, heq]
      exact hfrugal.surplus_neg hsplits hshort hsub (Nat.le_of_lt_succ hlength)
  | starve hshort hchange hreply hback =>
    -- the next pass begins without claims
    exact Stage.frugal_of_unclaimed rfl

/-- A frugal pass that is not short has claimed the least number of candidates. -/
theorem Stage.Frugal.fewest_of_covered (h : g.Frugal t cs) (hsplits : g.Splits cs)
    (hcovered : 0 ≤ g.run.draft.excess t) :
    t.Fewest cs g.run.draft.change.items g.run.draft.claimed.size := by
  rw [Draft.excess_eq_surplus] at hcovered
  refine ⟨⟨g.run.draft.claimed.items, ?_, Terms.covers_iff.2 hcovered,
    g.run.draft.claimed.size_eq.symm⟩, ?_⟩
  · exact hsplits.perm.subperm_left.1 (List.sublist_append_left _ _).subperm
  · rintro _ ⟨es, hsub, hcovers, rfl⟩
    by_contra hless
    have hneg := h.fewest es hsub (Nat.lt_of_not_le hless)
    exact absurd (Terms.covers_iff.1 hcovers) (Int.not_le.2 hneg)

end

/-- A run that has not seen a pass starve, unless it is past its first. -/
def Stage.Fresh {σ ε : Type} (g : Stage σ ε) : Prop :=
  g.growing = true → ∀ left, Event.starved left ∉ g.run.trace

/-- Every turn keeps a pass fresh. -/
theorem Turn.fresh {σ ε : Type} {a : Allocator σ ε} {t : Terms} {g g' : Stage σ ε} (h : g.Fresh)
    (hturn : Turn a t g g') : g'.Fresh := by
  intro hgrowing left hmem
  cases hturn with
  | claim hshort hreply =>
    rcases List.mem_cons.1 hmem with heq | hmem
    · cases heq
    · exact h hgrowing left hmem
  | starve => cases hgrowing

/-- Funding that ends covered ends with a draft that is not short. -/
theorem Stops.of_covered {σ ε : Type} {a : Allocator σ ε} {t : Terms} {g : Stage σ ε}
    {p : Pass σ ε} (h : Stops a t g p) (hhalt : p.halt = .covered) :
    p.progress = g.run ∧ 0 ≤ g.run.draft.excess t := by
  cases h with
  | covered hcovered => exact ⟨rfl, hcovered⟩
  | exhausted => cases hhalt
  | dry => cases hhalt
  | refused => cases hhalt
  | stuck => cases hhalt

/-- From the start of a run, every plain pass is frugal. -/
theorem Turns.frugal {t : Terms} {cap : Nat} {h : Holding} {g : Stage Holding NotHeld}
    (hp : h.pool.Distinct) (hwords : ∀ c ∈ h.pool.available, c.satoshis ≤ Word.max64)
    (hturns : Turns Holding.allocator t ⟨true, cap, .start t h⟩ g) :
    g.Splits h.pool.available ∧ (g.Plain →
      t.Fits h.pool.available.length (g.run.draft.change.size + 1) →
        g.Frugal t h.pool.available) :=
  hturns.keeps
    (P := fun g => g.Splits h.pool.available ∧ (g.Plain →
      t.Fits h.pool.available.length (g.run.draft.change.size + 1) →
        g.Frugal t h.pool.available))
    (fun _ _ hg hturn => ⟨hturn.splits hg.1, hturn.frugal hwords hg.1 hg.2⟩)
    ⟨splits_start t cap hp, fun _ _ => Stage.frugal_of_unclaimed (Draft.claimed_seed t)⟩

/-- **No more inputs than are needed.** On any pool in use, a run that succeeds without change has
claimed the least number of candidates that pay for a transaction without change. And in whichever
pass after a starved one funding ends covered, it has claimed the least number of candidates that
pay for the change outputs of this pass. -/
theorem generate_fewest (cs : List Candidate) (history : List Pool.Step) (name : String)
    (h : Holding) (entropy : Nat → Float) (cap : Nat) (t : Terms)
    (hname : ((Floor.ofList cs).after history).holding? name = some h)
    (hwords : ∀ c ∈ h.pool.available, c.satoshis ≤ Word.max64) :
    (∀ p, (generate Holding.allocator entropy cap t h).outcome = .ok p → p.outputs = [] →
      t.Fits h.pool.available.length 1 → t.Fewest h.pool.available [] p.inputs.length) ∧
    ∀ pass left, fund Holding.allocator t cap (.start t h) = pass → pass.halt = .covered →
      Event.starved left ∈ pass.progress.trace →
      t.Fits h.pool.available.length (pass.progress.draft.change.size + 1) →
        t.Fewest h.pool.available pass.progress.draft.change.items
          pass.progress.draft.claimed.size := by
  have hp : h.pool.Distinct := Floor.distinct_of_holding? hname
  constructor
  · intro p hok hnone hfits
    obtain ⟨-, g, amounts, draws, hturns, hcovered, -, hfinish, heq⟩ := generate_ok hok
    obtain ⟨hsplits, hfrugal⟩ := Turns.frugal hp hwords hturns
    rw [heq] at hok
    obtain rfl := Except.ok.inj hok
    have hchange : g.run.draft.change.size = 0 := by
      rw [← Draft.length_finish (t := t) (.ofValues entropy t.randomValues), hfinish,
        ← Draft.length_outputs_plan (t := t) amounts, hnone]
      rfl
    have hfewest := (hfrugal (.inr hchange) (by rwa [hchange])).fewest_of_covered hsplits hcovered
    rwa [Draft.length_inputs_plan, ← Tally.items_eq_nil_iff.2 hchange]
  · rintro _ left rfl hhalt hstarved hfits
    obtain ⟨g, hturns, hstops⟩ := fund_turns Holding.allocator t cap (.start t h)
    obtain ⟨hsame, hcovered⟩ := hstops.of_covered hhalt
    obtain ⟨hsplits, hfrugal⟩ := Turns.frugal hp hwords hturns
    have hfresh : g.Fresh :=
      hturns.keeps (fun _ _ hg hturn => hturn.fresh hg) fun _ _ hmem => nomatch hmem
    rw [hsame] at hstarved hfits ⊢
    have hplain : g.Plain :=
      .inl (Bool.eq_false_iff.2 fun hgrowing => hfresh hgrowing left hstarved)
    exact (hfrugal hplain hfits).fewest_of_covered hsplits hcovered

/-- A session that finds just enough for a payment without change, and a candidate that costs more
than half of what it brings. -/
def Holding.exactPair : Holding :=
  ⟨⟨[⟨⟨1, 234⟩, none⟩, ⟨⟨2, 800⟩, none⟩, ⟨⟨3, 25⟩, none⟩], 1⟩, ⟨0, []⟩⟩

/-- A payment that needs two inputs without change, and one that needs three for three change
outputs after its first pass has starved. -/
theorem generate_fewest_exactPair :
    ((Floor.ofList [⟨1, 234⟩, ⟨2, 800⟩, ⟨3, 25⟩]).after [.openSession "run"]).holding? "run"
      = some .exactPair ∧
    (generate Holding.allocator (fun _ => 0) 20 .oneMore .exactPair).outcome
      = .ok ⟨[⟨2, 800⟩, ⟨1, 234⟩], [], 340, 34, 100⟩ ∧
    Terms.oneMore.Fits 3 1 ∧ Terms.oneMore.Fewest [⟨1, 234⟩, ⟨2, 800⟩, ⟨3, 25⟩] [] 2 ∧
    ((Floor.ofList [⟨1, 200⟩, ⟨2, 1700⟩, ⟨3, 100⟩]).after [.openSession "run"]).holding? "run"
      = some .ofThree ∧
    Event.starved 3
      ∈ (fund Holding.allocator .oneMore 20 (.start .oneMore .ofThree)).progress.trace ∧
    Terms.oneMore.Fits 3 4 ∧
    Terms.oneMore.Fewest [⟨1, 200⟩, ⟨2, 1700⟩, ⟨3, 100⟩] [182, 392, 285] 3 := by
  have hok : (generate Holding.allocator (fun _ => 0) 20 .oneMore .exactPair).outcome
      = .ok ⟨[⟨2, 800⟩, ⟨1, 234⟩], [], 340, 34, 100⟩ := by
    set_option maxRecDepth 8000 in rfl
  have hstarved : Event.starved 3
      ∈ (fund Holding.allocator .oneMore 20 (.start .oneMore .ofThree)).progress.trace :=
    List.mem_of_getElem? (i := 3) (by set_option maxRecDepth 8000 in rfl)
  refine ⟨by decide, hok, by decide, ?_, by decide, hstarved, by decide, ?_⟩
  · exact (generate_fewest [⟨1, 234⟩, ⟨2, 800⟩, ⟨3, 25⟩] [.openSession "run"] "run" .exactPair
      (fun _ => 0) 20 .oneMore (by decide) (by decide)).1 _ hok rfl (by decide)
  · exact (generate_fewest [⟨1, 200⟩, ⟨2, 1700⟩, ⟨3, 100⟩] [.openSession "run"] "run" .ofThree
      (fun _ => 0) 20 .oneMore (by decide) (by decide)).2 _ 3 rfl
      (by set_option maxRecDepth 8000 in rfl) hstarved (by decide)

end CoinPurse
