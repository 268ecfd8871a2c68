import CoinPurse.Proofs.Floor
import CoinPurse.Proofs.Margin
import CoinPurse.Proofs.Request
import CoinPurse.Proofs.Split
import CoinPurse.Proofs.Terms

/-!
# No false shortage

A run on a pool that reports a want of funds is right (`generate_shortage`). Either no selection of
the candidates pays for the transaction; or some selection pays more than it costs without change,
and the run has found no change output that could take the rest.

Every input adds to the fee, so this is not a matter of what the pool is worth altogether. What
carries the proof is that a run without change outputs claims the largest candidates first, and no
more of them than any selection would need (`Stage.Thrifty`). It starts over whenever a pass
starves, and each claim keeps it up.
-/

namespace CoinPurse

/-- A run that has no change outputs has claimed the largest candidates, and could not have done
with fewer. -/
structure Stage.Thrifty (t : Terms) (cs : List Candidate) (g : Stage Holding NotHeld) : Prop where
  /-- as long as the run is short, some amount divides what it claims from what is available -/
  largest : g.run.draft.change.size = 0 → g.run.draft.excess t < 0 →
    ∃ m, (∀ c ∈ g.run.draft.claimed.items, m ≤ c.satoshis) ∧
      ∀ c ∈ g.run.source.pool.available, c.satoshis ≤ m
  /-- no smaller selection of the candidates would pay for the transaction -/
  fewest : g.run.draft.change.size = 0 → ∀ es : List Candidate, es.Subperm cs →
    es.length < g.run.draft.claimed.size → t.margin es < 0

section
variable {t : Terms} {cs : List Candidate} {g g' : Stage Holding NotHeld}

/-- A run without claims has claimed none too many. -/
theorem Stage.thrifty_of_unclaimed (h : g.run.draft.claimed = .empty) : g.Thrifty t cs where
  largest _ _ := h ▸ exists_dividing_nil _
  fewest _ es _ hlength := by
    rw [h] at hlength
    exact absurd hlength (Nat.not_lt_zero _)

/-- A short run without change outputs claims as much as any selection of as many candidates. -/
theorem Stage.Thrifty.margin_le (h : g.Thrifty t cs) (hsplits : g.Splits cs)
    (hchange : g.run.draft.change.size = 0) (hshort : g.run.draft.excess t < 0)
    {es : List Candidate} (hsub : es.Subperm cs) (hlength : es.length = g.run.draft.claimed.size) :
    t.margin es ≤ g.run.draft.excess t := by
  obtain ⟨m, hclaimed, havailable⟩ := h.largest hchange hshort
  rw [Draft.excess_eq_margin hchange]
  exact t.margin_le_of_subperm hclaimed havailable (hsplits.perm.subperm_left.2 hsub)
    (by rw [hlength, g.run.draft.claimed.size_eq])

/-- Without change outputs before and after it, accepting a candidate is claiming it. -/
theorem Draft.accept_eq_claim {d : Draft} {growing : Bool} {c : Candidate}
    (h : (d.accept t growing c).change.size = 0) :
    d.accept t growing c = d.claim c ∧ d.change.size = 0 := by
  rcases accept_cases t d growing c with ⟨heq, -⟩ | ⟨-, -, -, heq⟩
  · rw [heq] at h
    exact ⟨heq, h⟩
  · rw [heq] at h
    exact absurd h (Nat.succ_ne_zero _)

/-- Every turn keeps a run thrifty. -/
theorem Turn.thrifty (hfits : t.Fits cs.length 1) (hsplits : g.Splits cs) (h : g.Thrifty t cs)
    (hturn : Turn Holding.allocator t g g') : g'.Thrifty t cs := by
  cases hturn with
  | @claim growing rounds s c source hshort hreply =>
    obtain ⟨hchoose, hc, havailable, hroom⟩ := hsplits.of_claim_some hreply
    constructor
    · intro hchange hshort'
      obtain ⟨heq, hchange⟩ := Draft.accept_eq_claim hchange
      simp only [Progress.claimed, heq] at hshort' ⊢
      -- the draft is still short, so no other candidate is worth more than the one claimed
      have hfits' : t.Fits (s.draft.claimed.size + 1) (s.draft.change.size + 1) := by
        rw [hchange]
        exact hfits.anti hroom (Nat.le_refl 1)
      have hword : s.draft.change.total + t.costFor (s.draft.claimed.size + 1) s.draft.change.size
          ≤ Word.max64 := by
        rw [Draft.total_change_eq_zero hchange, Nat.zero_add]
        exact (hfits'.anti (Nat.le_refl _) (Nat.le_succ _)).costFor_le
      have hlargest := Draft.le_of_claim_short hfits' hword hchoose hshort'
      exact ⟨c.satoshis, forall_le_cons_of_dividing (h.largest hchange hshort) hc,
        fun x hx => hlargest x (havailable hx)⟩
    · intro hchange es hsub hlength
      obtain ⟨heq, hchange⟩ := Draft.accept_eq_claim hchange
      simp only [Progress.claimed, heq] at hlength
      rcases Nat.lt_succ_iff_lt_or_eq.1 hlength with hless | hsame
      · exact h.fewest hchange es hsub hless
      · exact Int.lt_of_le_of_lt (h.margin_le hsplits hchange hshort hsub hsame) hshort
  | starve hshort hchange hreply hback =>
    -- the next pass begins without claims
    exact Stage.thrifty_of_unclaimed rfl

/-- If a run without change outputs has claimed every candidate and is short, no selection of them
would pay for the transaction. -/
theorem Stage.Thrifty.margin_neg (h : g.Thrifty t cs) (hsplits : g.Splits cs)
    (hchange : g.run.draft.change.size = 0) (hshort : g.run.draft.excess t < 0)
    (hall : g.run.draft.claimed.items.Perm cs) {es : List Candidate} (hsub : es.Subperm cs) :
    t.margin es < 0 := by
  have hsize : g.run.draft.claimed.size = cs.length := by
    rw [g.run.draft.claimed.size_eq, hall.length_eq]
  rcases Nat.lt_or_eq_of_le hsub.length_le with hless | hsame
  · exact h.fewest hchange es hsub (by rwa [hsize])
  · exact Int.lt_of_le_of_lt (h.margin_le hsplits hchange hshort hsub (hsame.trans hsize.symm))
      hshort

/-- What a draft without change outputs requires, as long as it fits a word. -/
theorem Draft.required_eq {d : Draft} (hchange : d.change.size = 0)
    (hfits : t.Fits d.claimed.size 0) : d.required t = t.costFor d.claimed.size 0 := by
  have hcost : (t.outputTotal : Int) + d.dueWith t 0 0 = (t.costFor d.claimed.size 0 : Nat) := by
    rw [dueWith_eq, hchange, Terms.costFor, Nat.add_zero, Nat.add_zero]
    omega
  rw [required, hcost]
  exact Word.clamp_of_le hfits.costFor_le

end

/-- **No false shortage.** On any pool in use, a run that reports a want of funds found that no
selection of the candidates available pays for the transaction, and says what they lack together; or
else some selection leaves an excess without change, and the run says what a change output lacks. -/
theorem generate_shortage (cs : List Candidate) (history : List Pool.Step) (name : String)
    (h : Holding) (entropy : Nat → Float) (cap : Nat) (t : Terms) (required shortfall : Nat)
    (hname : ((Floor.ofList cs).after history).holding? name = some h)
    (hfits : t.Fits h.pool.available.length 1)
    (hshort : (generate Holding.allocator entropy cap t h).outcome
      = .error (.insufficientFunds required shortfall)) :
    (required = t.costFor h.pool.available.length 0 ∧
      (shortfall : Int) = (required : Int) - t.inputTotal
        - totalOf (h.pool.available.map (·.satoshis)) ∧
      ∀ es : List Candidate, es.Subperm h.pool.available →
        t.inputTotal + totalOf (es.map (·.satoshis)) < t.costFor es.length 0) ∨
    (shortfall = t.firstSatoshis ∧ ∃ es : List Candidate, es.Subperm h.pool.available ∧
      required = t.costFor es.length 0 ∧
      t.costFor es.length 0 < t.inputTotal + totalOf (es.map (·.satoshis))) := by
  have hp : h.pool.Distinct := by
    rw [Floor.pool_of_holding? hname]
    exact Floor.distinct_after cs history
  obtain ⟨-, g, hturns, hchange, rfl, hends⟩ := generate_insufficient hshort
  obtain ⟨hsplits, hthrifty⟩ : g.Splits h.pool.available ∧ g.Thrifty t h.pool.available :=
    hturns.keeps (P := fun g => g.Splits h.pool.available ∧ g.Thrifty t h.pool.available)
      (fun _ _ hg hturn => ⟨hturn.splits hg.1, hturn.thrifty hfits hg.1 hg.2⟩)
      ⟨splits_start t cap hp, Stage.thrifty_of_unclaimed (Draft.claimed_seed t)⟩
  have hsize : g.run.draft.claimed.size ≤ h.pool.available.length := by
    rw [← hsplits.size_le]
    exact Nat.le_add_right _ _
  have hfits' : t.Fits g.run.draft.claimed.size 0 := hfits.anti hsize (Nat.zero_le 1)
  rw [Draft.required_eq hchange hfits']
  rcases hends with ⟨hover, rfl⟩ | ⟨hneg, rfl, source, hreply⟩
  · refine .inr ⟨rfl, g.run.draft.claimed.items, ?_, ?_, ?_⟩
    · exact hsplits.perm.subperm_left.1 (List.sublist_append_left _ _).subperm
    · rw [g.run.draft.claimed.size_eq]
    · rw [Draft.excess_eq_margin hchange, Terms.margin] at hover
      omega
  · obtain ⟨-, hall⟩ := hsplits.perm_of_claim_none hreply
    have hlength : g.run.draft.claimed.size = h.pool.available.length := by
      rw [g.run.draft.claimed.size_eq, hall.length_eq]
    refine .inl ⟨by rw [hlength], ?_, fun es hsub => ?_⟩
    · have hmargin : g.run.draft.excess t = t.margin h.pool.available := by
        rw [Draft.excess_eq_margin hchange, t.margin_perm hall]
      have hword := hfits'.costFor_le
      rw [hmargin, Terms.margin] at hneg ⊢
      rw [hlength] at hword ⊢
      rw [Draft.deficit_eq (by omega) (by omega)]
      omega
    · have hmargin := hthrifty.margin_neg hsplits hchange hneg hall hsub
      rw [Terms.margin] at hmargin
      omega

/-- A session that finds two candidates available, and a large one held by another session. -/
def Holding.twoOfThree : Holding :=
  ⟨⟨[⟨⟨1, 300⟩, none⟩, ⟨⟨2, 5000⟩, some 0⟩, ⟨⟨3, 400⟩, none⟩], 2⟩, ⟨1, []⟩⟩

/-- A payment that the two candidates available cannot make. -/
theorem generate_shortage_twoOfThree :
    ((Floor.ofList [⟨1, 300⟩, ⟨2, 5000⟩, ⟨3, 400⟩]).after
      [.openSession "other", .claim "other" ⟨2000, none⟩, .openSession "run"]).holding? "run"
        = some .twoOfThree ∧
    (Terms.payment 100 1000).Fits 2 1 ∧
    (generate Holding.allocator (fun _ => 0) 9 (.payment 100 1000) .twoOfThree).outcome
      = .error (.insufficientFunds 1034 334) ∧
    (1034 = (Terms.payment 100 1000).costFor 2 0 ∧ (334 : Int) = 1034 - 0 - 700 ∧
      ∀ es : List Candidate, es.Subperm [⟨1, 300⟩, ⟨3, 400⟩] →
        0 + totalOf (es.map (·.satoshis)) < (Terms.payment 100 1000).costFor es.length 0) := by
  have hshort : (generate Holding.allocator (fun _ => 0) 9 (.payment 100 1000) .twoOfThree).outcome
      = .error (.insufficientFunds 1034 334) := by
    set_option maxRecDepth 4000 in rfl
  refine ⟨by decide, by decide, hshort, ?_⟩
  rcases generate_shortage [⟨1, 300⟩, ⟨2, 5000⟩, ⟨3, 400⟩]
    [.openSession "other", .claim "other" ⟨2000, none⟩, .openSession "run"] "run" .twoOfThree
    (fun _ => 0) 9 (.payment 100 1000) 1034 334 (by decide) (by decide) hshort with h | ⟨h, -⟩
  · exact h
  · exact absurd h (by decide)

end CoinPurse
