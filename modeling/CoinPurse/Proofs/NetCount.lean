import CoinPurse.Proofs.Floor
import CoinPurse.Proofs.Margin
import CoinPurse.Proofs.Request
import CoinPurse.Proofs.Split
import CoinPurse.Proofs.Terms

/-!
# The net count is kept

A run that is given a net count makes as many more change outputs than it claims inputs, and never
more of them, however many passes starve (`generate_netCount_le`).

In the first pass this is plain, since no claim adds more than one change output. But a pass that
starves gives back all its claims and keeps all its change outputs but one. What carries the proof
is that these outputs are `Terms.Demanding`: with so few inputs that the net count would be too
high, no selection of candidates pays for them. The first pass has seen to that, since it claims the
largest candidates first and is short each time it goes on (`Stage.Paced`), and dropping outputs
does not change it.
-/

namespace CoinPurse

namespace Terms

variable (t : Terms) {cs ds es : List Candidate} {amounts : List Nat} {x wanted : Nat}

/-- What candidates leave when they are claimed for a transaction with these amounts as change. -/
def surplus (amounts : List Nat) (es : List Candidate) : Int :=
  (t.inputTotal : Int) + totalOf (es.map (·.satoshis)) - totalOf amounts
    - t.costFor es.length amounts.length

/-- Candidates that are worth at least `m`, while the others are worth at most `m`, leave no less
than any selection of as many. -/
theorem surplus_le_of_subperm {m : Nat} (amounts : List Nat) (hcs : ∀ c ∈ cs, m ≤ c.satoshis)
    (hds : ∀ d ∈ ds, d.satoshis ≤ m) (hsub : es.Subperm (cs ++ ds))
    (hlength : es.length = cs.length) : t.surplus amounts es ≤ t.surplus amounts cs := by
  have hmargin := t.margin_le_of_subperm hcs hds hsub hlength
  simp only [margin, surplus, hlength] at hmargin ⊢
  omega

/-- One more change output never leaves more. -/
theorem surplus_cons_le (hfits : t.Fits es.length (amounts.length + 1)) :
    t.surplus (x :: amounts) es ≤ t.surplus amounts es := by
  have hdue := hfits.dueFor_le_dueFor (Nat.le_refl _) (Nat.le_succ amounts.length)
  simp only [surplus, costFor, totalOf_cons, List.length_cons]
  omega

/-- Change amounts, the latest first, for which no selection of candidates pays that would leave a
net count above the one wanted; nor does one if only the first of them are kept. -/
def Demanding (cs : List Candidate) (wanted : Nat) (amounts : List Nat) : Prop :=
  ∀ kept, kept <:+ amounts → ∀ es : List Candidate, es.Subperm cs →
    wanted + es.length < kept.length → t.surplus kept es < 0

variable {t}

/-- As many change outputs as are wanted demand nothing. -/
theorem demanding_of_length_le (h : amounts.length ≤ wanted) : t.Demanding cs wanted amounts :=
  fun kept hkept es _ hover => by
    have := hkept.length_le
    omega

/-- Dropping the latest change output leaves the others as demanding as they were. -/
theorem Demanding.tail (h : t.Demanding cs wanted amounts) :
    t.Demanding cs wanted amounts.tail :=
  fun kept hkept => h kept (hkept.trans amounts.tail_suffix)

/-- A further change output may be added while all selections that would be too small are short. -/
theorem Demanding.cons (h : t.Demanding cs wanted amounts)
    (hshort : ∀ es : List Candidate, es.Subperm cs → wanted + es.length < amounts.length + 1 →
      t.surplus (x :: amounts) es < 0) : t.Demanding cs wanted (x :: amounts) := by
  intro kept hkept es hsub hover
  rcases List.suffix_cons_iff.1 hkept with rfl | hkept
  · exact hshort es hsub hover
  · exact h kept hkept es hsub hover

end Terms

/-- The excess of a draft is what its claims leave beside its change outputs. -/
theorem Draft.excess_eq_surplus (t : Terms) (d : Draft) :
    d.excess t = t.surplus d.change.items d.claimed.items := by
  rw [excess_eq, Terms.surplus, ← d.claimed.size_eq, ← d.change.size_eq, d.claimed.total_eq,
    d.change.total_eq, List.map_id]

/-- A run that keeps to a net count. -/
structure Stage.Paced (t : Terms) (cs : List Candidate) (wanted : Nat)
    (g : Stage Holding NotHeld) : Prop where
  /-- no selection that is too small pays for the change outputs -/
  demanding : t.Demanding cs wanted g.run.draft.change.items
  /-- in the first pass there are as many change outputs as are wanted -/
  wanted_le : g.growing = true → wanted ≤ g.run.draft.change.size
  /-- and no more of them than claims allow for -/
  size_le : g.growing = true → g.run.draft.change.size ≤ wanted + g.run.draft.claimed.size
  /-- as long as it is short, some amount divides what it claims from what is available -/
  largest : g.growing = true → g.run.draft.excess t < 0 →
    ∃ m, (∀ c ∈ g.run.draft.claimed.items, m ≤ c.satoshis) ∧
      ∀ c ∈ g.run.source.pool.available, c.satoshis ≤ m
  /-- and no selection of as few candidates pays for its change outputs -/
  fewest : g.growing = true → g.run.draft.excess t < 0 → ∀ es : List Candidate, es.Subperm cs →
    es.length ≤ g.run.draft.claimed.size → t.surplus g.run.draft.change.items es < 0

section
variable {t : Terms} {cs : List Candidate} {g g' : Stage Holding NotHeld} {wanted : Nat}

/-- With a net count, a run starts with as many change outputs. -/
theorem Draft.size_seed (hcount : t.netCount = some (wanted : Int)) (hwanted : wanted ≠ 0) :
    (seed t).change.size = wanted := by
  obtain ⟨n, rfl⟩ := Nat.exists_eq_succ_of_ne_zero hwanted
  have hcount : (t.netCount.getD 0).toNat = n + 1 := by rw [hcount]; rfl
  simp only [seed, hcount]
  rw [Tally.size_eq, Tally.items_ofList, List.length_append, List.length_replicate]
  rfl

/-- A draft with no more change outputs than its claims allow for wants another one with its next
claim. -/
theorem Draft.wantsBalance_eq_true {d : Draft} (hcount : t.netCount = some (wanted : Int))
    (hsize : d.change.size ≤ wanted + d.claimed.size) : d.wantsBalance t = true := by
  have hless : d.netCount - 1 < wanted := by
    rw [netCount]
    omega
  rw [wantsBalance, hcount]
  exact decide_eq_true hless

/-- A run starts paced. -/
theorem Stage.paced_start (hcount : t.netCount = some (wanted : Int)) (hwanted : wanted ≠ 0)
    (cap : Nat) (h : Holding) :
    Stage.Paced t cs wanted (⟨true, cap, .start t h⟩ : Stage Holding NotHeld) := by
  have hsize : (Draft.seed t).change.size = wanted := Draft.size_seed hcount hwanted
  have hclaimed : (Draft.seed t).claimed = .empty := Draft.claimed_seed t
  refine ⟨?demanding, fun _ => Nat.le_of_eq hsize.symm, fun _ => ?size_le, fun _ _ => ?largest,
    fun _ hshort es _ hes => ?fewest⟩
  case demanding =>
    refine Terms.demanding_of_length_le ?_
    rw [← Tally.size_eq]
    exact Nat.le_of_eq hsize
  case size_le => exact Nat.le_trans (Nat.le_of_eq hsize) (Nat.le_add_right _ _)
  case largest =>
    rw [Progress.start, hclaimed]
    exact exists_dividing_nil h.pool.available
  case fewest =>
    -- nothing is claimed yet, so the selection is empty too
    rw [Progress.start, Draft.excess_eq_surplus, hclaimed] at hshort
    rw [Progress.start, hclaimed] at hes
    obtain rfl := List.length_eq_zero_iff.1 (Nat.le_zero.1 hes)
    exact hshort

end

section
variable {t : Terms} {cs : List Candidate} {wanted rounds : Nat} {s : Progress Holding NotHeld}
variable {c : Candidate} {source : Holding}
variable (hfits : t.Fits cs.length (wanted + cs.length))
  (hsplits : Stage.Splits cs ⟨true, rounds + 1, s⟩)
  (h : Stage.Paced t cs wanted ⟨true, rounds + 1, s⟩) (hshort : s.draft.excess t < 0)
  (hreply : Holding.allocator.claim (s.draft.ask t) s.source = (.ok (some c), source))
include hfits hsplits h hshort hreply

/-- After a claim, no selection of fewer candidates pays for the change outputs. -/
theorem Stage.Paced.fewest_accept {es : List Candidate} (hsub : es.Subperm cs)
    (hlength : es.length ≤ s.draft.claimed.size) :
    t.surplus (s.draft.accept t true c).change.items es < 0 := by
  have hbefore := h.fewest rfl hshort es hsub hlength
  rcases s.draft.change_accept t true c with heq | ⟨-, x, heq⟩
  · rw [heq]
    exact hbefore
  · obtain ⟨-, -, -, hroom⟩ := hsplits.of_claim_some hreply
    have hsize : s.draft.change.size ≤ wanted + s.draft.claimed.size := h.size_le rfl
    rw [heq]
    refine Int.lt_of_le_of_lt (t.surplus_cons_le (hfits.anti hsub.length_le ?_)) hbefore
    rw [← Tally.size_eq]
    change s.draft.claimed.size + 1 ≤ cs.length at hroom
    omega

/-- If a run is still short after a claim, some amount divides what it claims from what is
available. -/
theorem Stage.Paced.largest_accept (hcount : t.netCount = some (wanted : Int))
    (hwanted : wanted ≠ 0) (hwords : ∀ c ∈ cs, c.satoshis ≤ Word.max64)
    (hshort' : (s.draft.accept t true c).excess t < 0) :
    (∀ x ∈ c :: s.draft.claimed.items, c.satoshis ≤ x.satoshis) ∧
      ∀ x ∈ source.pool.available, x.satoshis ≤ c.satoshis := by
  obtain ⟨hchoose, hc, hrest, hroom⟩ := hsplits.of_claim_some hreply
  have hsize : s.draft.change.size ≤ wanted + s.draft.claimed.size := h.size_le rfl
  have hchange : s.draft.change.size ≠ 0 := by
    have : wanted ≤ s.draft.change.size := h.wanted_le rfl
    omega
  have hfits' : t.Fits (s.draft.claimed.size + 1) (s.draft.change.size + 1) := by
    change s.draft.claimed.size + 1 ≤ cs.length at hroom
    exact hfits.anti hroom (by omega)
  have hwords' : ∀ x ∈ s.source.pool.available, x.satoshis ≤ Word.max64 :=
    fun x hx => hwords x (hsplits.perm.subset (List.mem_append_right _ hx))
  have hlargest := Draft.le_of_accept_short hfits' hwords'
    (Draft.wantsBalance_eq_true hcount hsize) hchange hchoose hshort'
  exact ⟨forall_le_cons_of_dividing (h.largest rfl hshort) hc, fun x hx => hlargest x (hrest hx)⟩

/-- A claim in the first pass keeps a run paced. -/
theorem Stage.Paced.claimed (hcount : t.netCount = some (wanted : Int)) (hwanted : wanted ≠ 0)
    (hwords : ∀ c ∈ cs, c.satoshis ≤ Word.max64)
    (hsplits' : Stage.Splits cs ⟨true, rounds, s.claimed t true c source⟩) :
    Stage.Paced t cs wanted ⟨true, rounds, s.claimed t true c source⟩ := by
  have hitems : (s.draft.accept t true c).claimed.items = c :: s.draft.claimed.items := by
    rw [Draft.claimed_accept, Tally.items_push]
  have hclaimed : (s.draft.accept t true c).claimed.size = s.draft.claimed.size + 1 := by
    rw [Tally.size_eq, hitems, List.length_cons, ← Tally.size_eq]
  obtain ⟨hgrows, hpaired⟩ := s.draft.size_accept_le t true c
  have hwanted_le : wanted ≤ s.draft.change.size := h.wanted_le rfl
  have hsize : s.draft.change.size ≤ wanted + s.draft.claimed.size := h.size_le rfl
  refine ⟨?demanding, fun _ => Nat.le_trans hwanted_le hgrows, fun _ => ?size_le,
    fun _ hshort' => ?largest, fun _ hshort' es hsub hes => ?fewest⟩
  case demanding =>
    simp only [Progress.claimed]
    rcases s.draft.change_accept t true c with heq | ⟨-, x, heq⟩
    · rw [heq]
      exact h.demanding
    · rw [heq]
      refine h.demanding.cons fun es hsub hover => ?_
      rw [← heq]
      refine h.fewest_accept hfits hsplits hshort hreply hsub ?_
      change wanted + es.length < s.draft.change.items.length + 1 at hover
      rw [← Tally.size_eq] at hover
      omega
  case size_le =>
    simp only [Progress.claimed, hclaimed]
    omega
  case largest =>
    have hlargest := h.largest_accept hfits hsplits hshort hreply hcount hwanted hwords hshort'
    exact ⟨c.satoshis, by simp only [Progress.claimed, hitems]; exact hlargest.1, hlargest.2⟩
  case fewest =>
    -- of selections of this size the largest candidates leave most, and they leave too little
    simp only [Progress.claimed, hclaimed] at hes hshort' ⊢
    rcases Nat.le_succ_iff.1 hes with hless | hsame
    · exact h.fewest_accept hfits hsplits hshort hreply hsub hless
    · obtain ⟨habove, hbelow⟩ :=
        h.largest_accept hfits hsplits hshort hreply hcount hwanted hwords hshort'
      rw [← hitems] at habove
      refine Int.lt_of_le_of_lt (t.surplus_le_of_subperm _ habove hbelow
        (hsplits'.perm.subperm_left.2 hsub) ?_) ((Draft.excess_eq_surplus t _) ▸ hshort')
      rw [hsame, hitems, List.length_cons, ← Tally.size_eq]

end

section
variable {t : Terms} {cs : List Candidate} {g g' : Stage Holding NotHeld} {wanted : Nat}

/-- After the first pass only the change outputs matter. -/
theorem Stage.paced_of_not_growing (hgrowing : g.growing = false)
    (hdemanding : t.Demanding cs wanted g.run.draft.change.items) : g.Paced t cs wanted where
  demanding := hdemanding
  wanted_le h := absurd h (by rw [hgrowing]; decide)
  size_le h := absurd h (by rw [hgrowing]; decide)
  largest h := absurd h (by rw [hgrowing]; decide)
  fewest h := absurd h (by rw [hgrowing]; decide)

/-- Every turn keeps a run paced. -/
theorem Turn.paced (hcount : t.netCount = some (wanted : Int)) (hwanted : wanted ≠ 0)
    (hwords : ∀ c ∈ cs, c.satoshis ≤ Word.max64) (hfits : t.Fits cs.length (wanted + cs.length))
    (hsplits : g.Splits cs) (h : g.Paced t cs wanted)
    (hturn : Turn Holding.allocator t g g') : g'.Paced t cs wanted := by
  have hsplits' := hturn.splits hsplits
  cases hturn with
  | @claim growing rounds s c source hshort hreply =>
    cases growing with
    | true => exact h.claimed hfits hsplits hshort hreply hcount hwanted hwords hsplits'
    | false =>
      refine Stage.paced_of_not_growing rfl ?_
      exact h.demanding
  | @starve growing rounds s s' source hshort hchange hreply hback =>
    obtain ⟨-, hdraft⟩ := Progress.giveBack_of_releaseAll hback
    refine Stage.paced_of_not_growing rfl ?_
    simp only [Progress.starve, hdraft, Draft.retreat, Tally.items_pop]
    exact h.demanding.tail

/-- A paced run that is not short keeps the net count. -/
theorem Stage.Paced.size_le_of_covered (h : g.Paced t cs wanted) (hsplits : g.Splits cs)
    (hcovered : 0 ≤ g.run.draft.excess t) :
    g.run.draft.change.size ≤ wanted + g.run.draft.claimed.size := by
  by_contra hover
  have hsub : g.run.draft.claimed.items.Subperm cs :=
    hsplits.perm.subperm_left.1 (List.sublist_append_left _ _).subperm
  have hshort := h.demanding _ List.suffix_rfl _ hsub (by
    rw [← Tally.size_eq, ← Tally.size_eq]
    omega)
  rw [← Draft.excess_eq_surplus] at hshort
  omega

end

/-- A run that is past its first pass was once answered with nothing. -/
def Stage.Noted {σ ε : Type} (g : Stage σ ε) : Prop :=
  g.growing = false → ∃ ask, Event.asked ask (.ok none) ∈ g.run.trace

/-- Every turn that ends the first pass is put down. -/
theorem Turn.noted {σ ε : Type} {a : Allocator σ ε} {t : Terms} {g g' : Stage σ ε} (h : g.Noted)
    (hturn : Turn a t g g') : g'.Noted := by
  intro hgrowing
  cases hturn with
  | claim hshort hreply =>
    obtain ⟨ask, hmem⟩ := h hgrowing
    exact ⟨ask, List.mem_cons_of_mem _ hmem⟩
  | @starve growing rounds s s' source hshort hchange hreply hback =>
    have hkept := Progress.subset_of_releaseAll hback
    exact ⟨s.draft.ask t, List.mem_cons_of_mem _ (hkept (List.mem_cons_self ..))⟩

/-- **The net count is kept.** On any pool in use, a run that succeeds with a net count makes no
more change outputs beyond its claimed inputs than are wanted, however many of its passes starve. If
no request went unanswered, it makes at least as many change outputs as are wanted. -/
theorem generate_netCount_le (cs : List Candidate) (history : List Pool.Step) (name : String)
    (h : Holding) (entropy : Nat → Float) (cap : Nat) (t : Terms) (wanted : Int) (p : Plan)
    (hname : ((Floor.ofList cs).after history).holding? name = some h)
    (hcount : t.netCount = some wanted) (hwanted : 1 ≤ wanted)
    (hwords : ∀ c ∈ h.pool.available, c.satoshis ≤ Word.max64)
    (hfits : t.Fits h.pool.available.length (wanted.toNat + h.pool.available.length))
    (hok : (generate Holding.allocator entropy cap t h).outcome = .ok p) :
    (p.outputs.length : Int) - p.inputs.length ≤ wanted ∧
      ((∀ ask, Event.asked ask (.ok none)
          ∉ (generate Holding.allocator entropy cap t h).trace) →
        wanted ≤ p.outputs.length) := by
  have hp : h.pool.Distinct := Floor.distinct_of_holding? hname
  obtain ⟨n, rfl⟩ := Int.eq_ofNat_of_zero_le (Int.le_trans (by decide) hwanted)
  have hn : n ≠ 0 := by omega
  obtain ⟨-, g, amounts, draws, hturns, hcovered, -, hfinish, heq⟩ := generate_ok hok
  obtain ⟨⟨hsplits, hpaced⟩, hnoted⟩ :
      (g.Splits h.pool.available ∧ g.Paced t h.pool.available n) ∧ g.Noted :=
    hturns.keeps
      (P := fun g => (g.Splits h.pool.available ∧ g.Paced t h.pool.available n) ∧ g.Noted)
      (fun _ _ hg hturn => ⟨⟨hturn.splits hg.1.1,
        hturn.paced hcount hn hwords hfits hg.1.1 hg.1.2⟩, hturn.noted hg.2⟩)
      ⟨⟨splits_start t cap hp, Stage.paced_start hcount hn cap h⟩, fun hg => nomatch hg⟩
  rw [heq] at hok ⊢
  obtain rfl := Except.ok.inj hok
  have hlength : amounts.length = g.run.draft.change.size := by
    rw [← Draft.length_finish (t := t) (.ofValues entropy t.randomValues), hfinish]
  rw [Draft.length_outputs_plan, Draft.length_inputs_plan, hlength]
  constructor
  · have := hpaced.size_le_of_covered hsplits hcovered
    omega
  · intro hanswered
    cases hgrowing : g.growing with
    | true => exact Int.ofNat_le.2 (hpaced.wanted_le hgrowing)
    | false =>
      obtain ⟨ask, hmem⟩ := hnoted hgrowing
      exact absurd (List.mem_reverse.2 hmem) (hanswered ask)

/-- A session that finds three candidates available. -/
def Holding.ofThree : Holding :=
  ⟨⟨[⟨⟨1, 200⟩, none⟩, ⟨⟨2, 1700⟩, none⟩, ⟨⟨3, 100⟩, none⟩], 1⟩, ⟨0, []⟩⟩

/-- The terms of a payment that should leave one more change output than it claims inputs. -/
def Terms.oneMore : Terms := { Terms.payment 100 1000 with netCount := some 1 }

/-- A payment whose first pass starves with four change outputs, and which then claims three inputs
for three of them. -/
theorem generate_netCount_le_starved :
    ((Floor.ofList [⟨1, 200⟩, ⟨2, 1700⟩, ⟨3, 100⟩]).after [.openSession "run"]).holding? "run"
      = some .ofThree ∧
    Terms.oneMore.netCount = some 1 ∧ (1 : Int) ≤ 1 ∧
    (∀ c ∈ Holding.ofThree.pool.available, c.satoshis ≤ Word.max64) ∧ Terms.oneMore.Fits 3 4 ∧
    (generate Holding.allocator (fun _ => 0) 20 .oneMore .ofThree).outcome
      = .ok ⟨[⟨2, 1700⟩, ⟨1, 200⟩, ⟨3, 100⟩], [⟨367, 25⟩, ⟨392, 25⟩, ⟨182, 25⟩], 590, 59, 100⟩ ∧
    (3 : Int) - 3 ≤ 1 := by
  have hok : (generate Holding.allocator (fun _ => 0) 20 .oneMore .ofThree).outcome
      = .ok ⟨[⟨2, 1700⟩, ⟨1, 200⟩, ⟨3, 100⟩], [⟨367, 25⟩, ⟨392, 25⟩, ⟨182, 25⟩], 590, 59, 100⟩ := by
    set_option maxRecDepth 8000 in rfl
  refine ⟨by decide, rfl, by decide, by decide, by decide, hok, ?_⟩
  exact (generate_netCount_le [⟨1, 200⟩, ⟨2, 1700⟩, ⟨3, 100⟩] [.openSession "run"] "run" .ofThree
    (fun _ => 0) 20 .oneMore 1 _ (by decide) rfl (by decide) (by decide) (by decide) hok).1

end CoinPurse
