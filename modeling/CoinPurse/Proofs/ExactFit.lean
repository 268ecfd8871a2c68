import CoinPurse.Proofs.Covering
import CoinPurse.Proofs.Replay
import CoinPurse.Proofs.Sufficiency

/-!
# One change output at most, and none if it can be helped

A run without a net count makes a change output only where it has none: at its start, if the fixed
inputs pay more than the fee, or with a claim that leaves an excess. A pass that starves drops the
output and the next adds none. So every turn leaves the draft modest (`Turn.modest`), and there is
never more than one change output.

Such a run asks for an exact amount first. If its first claim leaves nothing, then the first pass
ends there, no further pass begins and nothing is drawn (`generate_of_exact`). On a pool this is
what happens as soon as some candidate is worth what the transaction lacks with one input and no
change output, since an exact fit is preferred to everything else
(`Candidate.exists_choose_of_exact`).
-/

namespace CoinPurse

namespace Draft

variable {t : Terms} {d : Draft}

/-- Retreating leaves a draft modest: what is dropped is not replaced. -/
theorem Modest.retreat (h : d.Modest t) : d.retreat.Modest t := by
  have hchange : d.retreat.change.items = [] := by
    rw [Draft.retreat, Tally.items_pop, ← List.length_eq_zero_iff, List.length_tail,
      ← d.change.size_eq]
    have := h.size_le
    omega
  have hempty := Tally.items_eq_nil_iff.1 hchange
  constructor
  · omega
  · rw [total_change_eq_zero hempty]
    exact Nat.zero_le _

/-- Without a net count, a run that starts short starts with nothing. -/
theorem seed_eq_blank (hcount : t.netCount = none) (hshort : blank.excess t < 0) :
    seed t = blank := by
  rcases seed_cases hcount with ⟨hover, -⟩ | ⟨-, heq⟩
  · omega
  · exact heq

end Draft

section
variable {σ ε : Type} {a : Allocator σ ε} {t : Terms} {g g' : Stage σ ε}

/-- **A turn never makes a second change output**, unless a net count asks for it. -/
theorem Turn.modest (hcount : t.netCount = none) (h : g.run.draft.Modest t)
    (hturn : Turn a t g g') : g'.run.draft.Modest t := by
  cases hturn with
  | claim hshort hreply => exact h.accept hcount _ _
  | @starve _ _ s s' source hshort hchange hreply hback =>
    obtain ⟨-, hdraft⟩ := Progress.giveBack_of_releaseAll hback
    have hdrop : s'.starve.draft = s.draft.retreat := by
      rw [Progress.starve, hdraft]
      rfl
    change s'.starve.draft.Modest t
    rw [hdrop]
    exact h.retreat

/-- Without a net count, a plan has one change output at most. -/
theorem length_outputs_le_one {entropy : Nat → Float} {cap : Nat} {source : σ} {p : Plan}
    (hcount : t.netCount = none) (hok : (generate a entropy cap t source).outcome = .ok p) :
    p.outputs.length ≤ 1 := by
  obtain ⟨-, g, amounts, draws, hturns, -, -, hfinish, hreport⟩ := generate_ok hok
  rw [hreport] at hok
  obtain rfl := Except.ok.inj hok
  have hmodest : g.run.draft.Modest t :=
    hturns.keeps (fun _ _ hg hturn => hturn.modest hcount hg) (Draft.modest_seed hcount)
  calc (g.run.draft.plan t amounts (g.run.draft.dueWith t 0 0)).outputs.length
      = amounts.length := Draft.length_outputs_plan _ _
    _ = g.run.draft.change.size := Draft.length_of_finish hfinish
    _ ≤ 1 := hmodest.size_le

/-- If the first pass covers the draft, no other follows. -/
theorem fund_of_covered {rounds : Nat} {s : Progress σ ε}
    (hcovered : (claimPass a t true rounds s).halt = .covered) :
    fund a t rounds s = claimPass a t true rounds s := by
  rw [fund]
  generalize claimPass a t true rounds s = p at hcovered ⊢
  cases hsize : p.progress.draft.change.size with
  | zero => rfl
  | succ n => rw [backtrack, hcovered]

/-- The plan that claims a single candidate and makes no change. -/
def Plan.single (t : Terms) (c : Candidate) : Plan where
  inputs := [c]
  outputs := []
  size := t.sizeFor 1 0
  fee := t.dueFor 1 0
  rate := t.feeModel.rate

/-- A run at the point where a single candidate is claimed, and nothing else was asked for. -/
def Progress.single (t : Terms) (c : Candidate) (source : σ) : Progress σ ε :=
  ⟨Draft.blank.claim c, source, [.asked (Draft.blank.ask t) (.ok (some c))]⟩

/-- A run that has claimed a single candidate settles to the plan of that candidate, and nothing is
drawn for it. -/
theorem settled_single (t : Terms) (c : Candidate) (source : σ) (stream : Nat → Float) :
    (Progress.single t c source : Progress σ ε).settled t ⟨stream, 0⟩
      = ⟨.ok (.single t c), [], source, [.asked (Draft.blank.ask t) (.ok (some c))]⟩ := by
  have hplan : ∀ fee, (Draft.blank.claim c).plan t [] fee
      = ⟨[c], [], (Draft.blank.claim c).sizeWith t 0 0, fee, t.feeModel.rate⟩ := fun _ => rfl
  have hfinish : (Draft.blank.claim c).finish t ⟨stream, 0⟩ = ([], ⟨stream, 0⟩) := rfl
  rw [Progress.settled, Progress.single, hfinish, hplan, Draft.dueWith_eq, Draft.sizeWith_eq]
  rfl

/-- **A run whose first claim is an exact fit** is done with it. -/
theorem generate_of_exact {entropy : Nat → Float} {cap : Nat} {source source' : σ} {c : Candidate}
    (hcheck : t.check = .ok ()) (hcount : t.netCount = none)
    (hshort : Draft.blank.excess t < 0) (hfit : (Draft.blank.claim c).excess t = 0)
    (hreply : a.claim (Draft.blank.ask t) source = (.ok (some c), source')) :
    generate a entropy (cap + 1) t source
      = ⟨.ok (.single t c), [], source', [.asked (Draft.blank.ask t) (.ok (some c))]⟩ := by
  have haccept : Draft.blank.accept t true c = Draft.blank.claim c :=
    Draft.accept_eq_claim_of_excess (Int.le_of_eq hfit) true
  have hstart : (Progress.start t source : Progress σ ε) = ⟨.blank, source, []⟩ := by
    rw [Progress.start, Draft.seed_eq_blank hcount hshort]
  have hclaimed : (⟨.blank, source, []⟩ : Progress σ ε).claimed t true c source'
      = .single t c source' := by
    rw [Progress.claimed, haccept]
    rfl
  have hends : (⟨.blank, source, []⟩ : Progress σ ε).CoveredBy a t true cap c source' :=
    Progress.coveredBy_of_nonneg hshort hreply (haccept ▸ Int.le_of_eq hfit.symm)
  have hpass := hends.pass_eq
  rw [hclaimed, ← hstart] at hpass
  have hfund : fund a t (cap + 1) (.start t source) = ⟨.covered, cap, .single t c source'⟩ := by
    rw [fund_of_covered (by rw [hpass]), hpass]
  obtain ⟨stream, hstream⟩ := Draws.exists_ofValues entropy t.randomValues
  simp only [generate, ready, hcheck, hfund, hstream]
  rcases ready_cases a t (Progress.single t c source' : Progress σ ε) with
    ⟨hless, -⟩ | ⟨hover, -⟩ | ⟨hcovered, hchange, hready⟩
  · exact absurd hfit (Int.ne_of_lt hless)
  · exact absurd hfit (Int.ne_of_gt hover)
  · rw [hready, ← settled_single t c source' stream]
    exact handOut_eq_settled _ hcovered hchange

end

/-- On a pool, where some candidate is worth what the transaction lacks with one input, the first of
that worth is what a run is given that starts with nothing. -/
theorem exists_claim_of_exact {t : Terms} {h : Holding} {x : Candidate}
    (hcount : t.netCount = none) (hx : x ∈ h.pool.available) (hword : x.satoshis ≤ Word.max64)
    (hfit : t.inputTotal + x.satoshis = t.costFor 1 0) :
    ∃ c ∈ h.pool.available, c.satoshis = x.satoshis ∧
      (∀ y ∈ h.pool.available, y.satoshis = x.satoshis → c.id ≤ y.id) ∧
      (Draft.blank.claim c).excess t = 0 ∧
      Holding.allocator.claim (Draft.blank.ask t) h
        = (.ok (some c), (h.claim (Draft.blank.ask t)).2) := by
  have hlacks : Draft.blank.excessWith t 1 0 = -(x.satoshis : Int) := by
    have hempty : Draft.blank.excessWith t 1 0 = (t.inputTotal : Int) + 0 - 0 - t.costFor 1 0 :=
      Draft.excessWith_eq t .blank 1 0
    omega
  have hneed : Draft.blank.need t = x.satoshis := by
    rw [Draft.need, Draft.wantsBalance_eq_false hcount, hlacks]
    simp
  have htarget := Draft.target_eq_need (hneed ▸ Int.ofNat_le.2 hword)
  have hexact : (Draft.blank.ask t).exact = some x.satoshis := by
    rw [Draft.exact_eq_target hcount rfl, Int.ofNat_inj.1 (htarget.trans hneed)]
  obtain ⟨c, hc, hworth, hleast, hchoose⟩ := Candidate.exists_choose_of_exact hexact hx rfl
  refine ⟨c, hc, hworth, hleast, ?_, ?_⟩
  · rw [Draft.excess_claim, hlacks, hworth]
    omega
  · simp only [Holding.allocator, Holding.claim, hchoose]

/-- **One change output at most, and none if it can be helped.** Take terms without a net count.
With any allocator, a run that succeeds makes one change output at most. On any pool, if the fixed
inputs fall short and some available candidate is worth exactly what the transaction lacks with one
more input and no change output, then a run with at least one round claims such a candidate, the one
with the lowest id, and is done: it makes no change output, asks for nothing else and draws nothing,
whatever else there is in the pool. -/
theorem generate_single (t : Terms) (hcount : t.netCount = none) :
    (∀ (σ ε : Type) (a : Allocator σ ε) (entropy : Nat → Float) (cap : Nat) (source : σ) (p : Plan),
      (generate a entropy cap t source).outcome = .ok p → p.outputs.length ≤ 1) ∧
    ∀ (h : Holding) (entropy : Nat → Float) (cap : Nat) (x : Candidate),
      t.check = .ok () → 1 ≤ cap → t.inputTotal < t.outputTotal + t.dueFor 0 0 →
      x ∈ h.pool.available → x.satoshis ≤ Word.max64 →
      t.inputTotal + x.satoshis = t.outputTotal + t.dueFor 1 0 →
      ∃ c ∈ h.pool.available, c.satoshis = x.satoshis ∧
        (∀ y ∈ h.pool.available, y.satoshis = x.satoshis → c.id ≤ y.id) ∧
        generate Holding.allocator entropy cap t h
          = ⟨.ok (.single t c), [], (h.claim (Draft.blank.ask t)).2,
              [.asked (Draft.blank.ask t) (.ok (some c))]⟩ := by
  constructor
  · intro σ ε a entropy cap source p hok
    exact length_outputs_le_one hcount hok
  · intro h entropy cap x hcheck hcap hshort hx hword hfit
    obtain ⟨c, hc, hworth, hleast, hpays, hreply⟩ := exists_claim_of_exact hcount hx hword hfit
    refine ⟨c, hc, hworth, hleast, ?_⟩
    have hlacks : Draft.blank.excess t < 0 := by
      have hempty : Draft.blank.excess t = (t.inputTotal : Int) + 0 - 0 - t.costFor 0 0 :=
        Draft.excess_eq t .blank
      rw [hempty, Terms.costFor]
      omega
    obtain ⟨rounds, rfl⟩ := Nat.exists_eq_add_of_le' hcap
    exact generate_of_exact hcheck hcount hlacks hpays hreply

/-- A session that finds two exact fits for a small payment available, the later one first, among
candidates that are worth more; a third is held by another session. -/
def Holding.twoExact : Holding :=
  ⟨⟨[⟨⟨9, 1020⟩, none⟩, ⟨⟨3, 1021⟩, none⟩, ⟨⟨2, 1020⟩, some 0⟩, ⟨⟨6, 1020⟩, none⟩,
    ⟨⟨4, 90000⟩, none⟩], 2⟩, ⟨1, []⟩⟩

/-- Of two candidates that fit exactly the one with the lower id is claimed, and that is all. Where
nothing fits exactly, there may be a change output, but no second one. -/
theorem generate_single_twoExact :
    (Terms.payment 100 1000).netCount = none ∧ (Terms.payment 100 1000).check = .ok () ∧
    0 < 1000 + (Terms.payment 100 1000).dueFor 0 0 ∧
    0 + 1020 = 1000 + (Terms.payment 100 1000).dueFor 1 0 ∧
    generate Holding.allocator (fun _ => 0) 1 (.payment 100 1000) .twoExact
      = ⟨.ok (.single (.payment 100 1000) ⟨6, 1020⟩), [],
          (Holding.twoExact.claim ⟨1020, some 1020⟩).2,
          [.asked ⟨1020, some 1020⟩ (.ok (some ⟨6, 1020⟩))]⟩ ∧
    ∃ p, (generate Holding.allocator (fun _ => 0) 3 (.payment 100 1000) .threeOfFour).outcome
        = .ok p ∧
      p.outputs ≠ [] ∧ p.outputs.length ≤ 1 := by
  obtain ⟨c, hc, hworth, hleast, hreport⟩ := (generate_single (.payment 100 1000) rfl).2 .twoExact
    (fun _ => 0) 1 ⟨9, 1020⟩ rfl (by decide) (by decide) (by decide) (by decide) (by decide)
  obtain rfl : c = ⟨6, 1020⟩ := by
    have hfirst := hleast ⟨6, 1020⟩ (by decide) rfl
    have hfits : c ∈ [(⟨9, 1020⟩ : Candidate), ⟨3, 1021⟩, ⟨6, 1020⟩, ⟨4, 90000⟩] := hc
    simp only [List.mem_cons, List.not_mem_nil, or_false] at hfits
    rcases hfits with rfl | rfl | rfl | rfl
    · cases hfirst
    · cases hworth
    · rfl
    · cases hworth
  refine ⟨rfl, rfl, by decide, by decide, hreport, _, rfl, List.cons_ne_nil _ _, ?_⟩
  exact (generate_single (.payment 100 1000) rfl).1 _ _ Holding.allocator (fun _ => 0) 3
    .threeOfFour _ rfl

end CoinPurse
