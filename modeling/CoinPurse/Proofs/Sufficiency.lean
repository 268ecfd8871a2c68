import CoinPurse.Proofs.Floor
import CoinPurse.Proofs.Margin
import CoinPurse.Proofs.Orderly
import CoinPurse.Proofs.Split
import CoinPurse.Proofs.Terms

/-!
# Enough money is enough

A run that is given no net count makes one change output at most, worth no more than the first
amount until the surplus is spread (`Draft.Modest`). So if everything that is available pays for the
transaction with one change output, no draft of the run can be short with everything claimed
(`Draft.excess_nonneg_of_all`): no pass starves, nothing is given back, and the run succeeds
(`generate_succeeds`), in whatever order the candidates are claimed.

What a claim leaves in excess always finds a change output to go to, since the first pass adds one
as soon as there is any (`Stage.Forward`).
-/

namespace CoinPurse

/-- At most one change output, worth no more than the first amount. -/
structure Draft.Modest (t : Terms) (d : Draft) : Prop where
  /-- there is one change output at most -/
  size_le : d.change.size ≤ 1
  /-- it is worth no more than the first amount -/
  total_le : d.change.total ≤ t.firstSatoshis

namespace Draft

variable {t : Terms} {d : Draft} {cs : List Candidate}

/-- Without a net count, none is missed. -/
theorem wantsBalance_eq_false (hcount : t.netCount = none) : d.wantsBalance t = false := by
  rw [wantsBalance, hcount]

/-- Without a net count, a run starts without change outputs unless it has an excess. -/
theorem seed_cases (hcount : t.netCount = none) :
    (0 < blank.excess t ∧ seed t = { blank with change := blank.change.push t.firstSatoshis }) ∨
    (blank.excess t ≤ 0 ∧ seed t = blank) := by
  have hzero : (t.netCount.getD 0).toNat = 0 := by rw [hcount]; rfl
  simp only [seed, hzero]
  split
  · exact .inl ⟨‹_›, rfl⟩
  · exact .inr ⟨by omega, rfl⟩

/-- Without a net count, a run starts modest. -/
theorem modest_seed (hcount : t.netCount = none) : (seed t).Modest t := by
  rcases seed_cases hcount with ⟨-, heq⟩ | ⟨-, heq⟩
  · rw [heq]
    exact ⟨Nat.le_refl 1, Nat.le_refl t.firstSatoshis⟩
  · rw [heq]
    exact ⟨Nat.zero_le 1, Nat.zero_le _⟩

/-- Without a net count, accepting a candidate leaves a draft modest: a change output is only added
where there is none. -/
theorem Modest.accept (h : d.Modest t) (hcount : t.netCount = none) (growing : Bool)
    (c : Candidate) : (d.accept t growing c).Modest t := by
  rcases accept_cases t d growing c with ⟨heq, -⟩ | ⟨-, -, hwants, heq⟩
  · rw [heq]
    exact ⟨h.size_le, h.total_le⟩
  · have hempty : d.change.size = 0 := by
      rw [wantsBalance_eq_false hcount] at hwants
      exact hwants.resolve_left Bool.false_ne_true
    have hnext : (d.claim c).nextAmount t = t.firstSatoshis := if_pos hempty
    have hamount : min (Word.clamp ((d.claim c).excess t)) ((d.claim c).nextAmount t)
        ≤ t.firstSatoshis := hnext ▸ Nat.min_le_right _ _
    rw [heq]
    constructor
    · change d.change.size + 1 ≤ 1
      omega
    · change min _ _ + d.change.total ≤ t.firstSatoshis
      rw [total_change_eq_zero hempty]
      exact hamount

/-- **Everything is enough.** If all candidates pay for the transaction with a change output, a
modest draft that claims all of them is not short. -/
theorem excess_nonneg_of_all (h : d.Modest t) (hfits : t.Fits cs.length 1)
    (hfunds : t.costFor cs.length 1 + t.firstSatoshis
      ≤ t.inputTotal + totalOf (cs.map (·.satoshis)))
    (hall : d.claimed.items.Perm cs) : 0 ≤ d.excess t := by
  have hsize : d.claimed.size = cs.length := by rw [d.claimed.size_eq, hall.length_eq]
  have htotal : d.claimed.total = totalOf (cs.map (·.satoshis)) := by
    rw [d.claimed.total_eq, totalOf_perm (hall.map _)]
  have hdue := hfits.dueFor_le_dueFor (Nat.le_refl _) h.size_le
  have hsmall := h.total_le
  rw [excess_eq, hsize, htotal]
  simp only [Terms.costFor] at hfunds ⊢
  omega

end Draft

variable {σ ε : Type}

/-- A run that has given nothing back: it is in its first pass, and has spent a round on each of its
claims. -/
structure Stage.Forward (t : Terms) (cap : Nat) (g : Stage σ ε) : Prop where
  /-- it is in its first pass -/
  growing : g.growing = true
  /-- what it has in excess can go to a change output -/
  placed : g.run.draft.change.size = 0 → g.run.draft.excess t ≤ 0
  /-- every round that is gone brought a claim -/
  rounds_eq : g.run.draft.claimed.size + g.rounds = cap
  /-- nothing was given back -/
  unreturned : ∀ e ∈ g.run.trace, e.isReturn = false

/-- Without a net count, a run starts forward. -/
theorem Stage.forward_start {t : Terms} (hcount : t.netCount = none) (cap : Nat) (source : σ) :
    Stage.Forward t cap (⟨true, cap, .start t source⟩ : Stage σ ε) where
  growing := rfl
  placed := by
    intro hempty
    rcases Draft.seed_cases hcount with ⟨-, heq⟩ | ⟨hnone, heq⟩
    · rw [Progress.start, heq] at hempty
      exact absurd hempty Nat.one_ne_zero
    · rw [Progress.start, heq]
      exact hnone
  rounds_eq := by
    rw [Progress.start, Draft.claimed_seed]
    exact Nat.zero_add cap
  unreturned _ he := nomatch he

/-- A claim leaves a run forward. -/
theorem Stage.Forward.claimed {t : Terms} {cap rounds : Nat} {growing : Bool} {s : Progress σ ε}
    (h : Stage.Forward t cap ⟨growing, rounds + 1, s⟩) (c : Candidate) (source : σ) :
    Stage.Forward t cap ⟨growing, rounds, s.claimed t growing c source⟩ where
  growing := h.growing
  placed := by
    intro hempty
    rcases Draft.accept_cases t s.draft growing c with ⟨heq, hpaired⟩ | ⟨-, -, -, heq⟩
    · simp only [Progress.claimed, heq] at hempty ⊢
      by_contra hover
      exact (hpaired h.growing (by omega)).2 hempty
    · simp only [Progress.claimed, heq] at hempty
      exact absurd hempty (Nat.succ_ne_zero _)
  rounds_eq := by
    have hrounds : s.draft.claimed.size + (rounds + 1) = cap := h.rounds_eq
    rw [Progress.size_claimed]
    exact (Nat.succ_add_eq_add_succ _ _).trans hrounds
  unreturned := List.forall_mem_cons.2 ⟨rfl, h.unreturned⟩

/-- A run on a pool that has given nothing back, and makes one change output at most. -/
structure Stage.Flush (t : Terms) (cap : Nat) (cs : List Candidate)
    (g : Stage Holding NotHeld) : Prop where
  /-- the candidates are divided into those claimed and those available -/
  splits : g.Splits cs
  /-- there is one change output at most -/
  modest : g.run.draft.Modest t
  /-- nothing was given back -/
  forward : g.Forward t cap

section
variable {t : Terms} {cap : Nat} {cs : List Candidate} {g g' : Stage Holding NotHeld}
variable (hfits : t.Fits cs.length 1)
  (hfunds : t.costFor cs.length 1 + t.firstSatoshis
    ≤ t.inputTotal + totalOf (cs.map (·.satoshis)))
include hfits hfunds

/-- If there is enough money, a short run finds something to claim. -/
theorem Stage.Flush.claim_ne_none (h : g.Flush t cap cs) (hshort : g.run.draft.excess t < 0)
    {source : Holding} :
    Holding.allocator.claim (g.run.draft.ask t) g.run.source ≠ (.ok none, source) := by
  intro hreply
  obtain ⟨-, hall⟩ := h.splits.perm_of_claim_none hreply
  have := Draft.excess_nonneg_of_all h.modest hfits hfunds hall
  omega

/-- If there is enough money, a run has not spent all its rounds while it is short, provided it has
one for each candidate. -/
theorem Stage.Flush.rounds_ne_zero (h : g.Flush t cap cs) (hcap : cs.length ≤ cap)
    (hshort : g.run.draft.excess t < 0) : g.rounds ≠ 0 := by
  intro hrounds
  -- a round was spent on each candidate, so all of them are claimed
  have hsize := h.splits.size_le
  have hspent := h.forward.rounds_eq
  have hall := h.splits.perm_of_available_eq_nil (List.length_eq_zero_iff.1 (by omega))
  have := Draft.excess_nonneg_of_all h.modest hfits hfunds hall
  omega

/-- If there is enough money, every turn is a claim. -/
theorem Turn.flush (hcount : t.netCount = none) (h : g.Flush t cap cs)
    (hturn : Turn Holding.allocator t g g') : g'.Flush t cap cs := by
  refine ⟨hturn.splits h.splits, ?_, ?_⟩
  · cases hturn with
    | claim hshort hreply => exact h.modest.accept hcount _ _
    | starve hshort hchange hreply hback =>
      exact absurd hreply (h.claim_ne_none hfits hfunds hshort)
  · cases hturn with
    | claim hshort hreply => exact h.forward.claimed _ _
    | starve hshort hchange hreply hback =>
      exact absurd hreply (h.claim_ne_none hfits hfunds hshort)

end

/-- **Enough money is enough.** On any pool in use, if all that is available pays for the
transaction and a first change output, a run without a net count succeeds. It needs no more rounds
than there are candidates, and gives nothing back. -/
theorem generate_succeeds (cs : List Candidate) (history : List Pool.Step) (name : String)
    (h : Holding) (entropy : Nat → Float) (cap : Nat) (t : Terms)
    (hname : ((Floor.ofList cs).after history).holding? name = some h)
    (hcheck : t.check = .ok ()) (hcount : t.netCount = none)
    (hfits : t.Fits h.pool.available.length 1)
    (hfunds : t.outputTotal + t.firstSatoshis + t.dueFor h.pool.available.length 1
      ≤ t.inputTotal + totalOf (h.pool.available.map (·.satoshis)))
    (hcap : h.pool.available.length ≤ cap) :
    (∃ p, (generate Holding.allocator entropy cap t h).outcome = .ok p) ∧
      ∀ e ∈ (generate Holding.allocator entropy cap t h).trace, e.isReturn = false := by
  have hp : h.pool.Distinct := Floor.distinct_of_holding? hname
  have hfunds : t.costFor h.pool.available.length 1 + t.firstSatoshis
      ≤ t.inputTotal + totalOf (h.pool.available.map (·.satoshis)) := by
    rw [Terms.costFor]
    omega
  obtain ⟨g, hturns, hends⟩ := generate_ends Holding.allocator entropy t cap h hcheck
  have hflush : g.Flush t cap h.pool.available :=
    hturns.keeps (fun _ _ hg hturn => hturn.flush hfits hfunds hcount hg)
      ⟨splits_start t cap hp, Draft.modest_seed hcount, Stage.forward_start hcount cap h⟩
  generalize generate Holding.allocator entropy cap t h = report at hends
  cases hends with
  | settled hcovered hchange hfinish =>
    exact ⟨⟨_, rfl⟩, fun e he => hflush.forward.unreturned e (List.mem_reverse.1 he)⟩
  | surplus hover hchange =>
    exact absurd (hflush.forward.placed hchange) (Int.not_le.2 hover)
  | short hshort hchange hreply =>
    exact absurd hreply (hflush.claim_ne_none hfits hfunds hshort)
  | exhausted hshort =>
    exact absurd rfl (hflush.rounds_ne_zero hfits hfunds hcap hshort)
  | refused hshort hreply => exact absurd hreply Holding.allocator_claim_ne_error
  | stuck hshort hchange hreply hback =>
    exact absurd hreply (hflush.claim_ne_none hfits hfunds hshort)

/-- A session that finds three candidates available, and a large one held by another session. -/
def Holding.threeOfFour : Holding :=
  ⟨⟨[⟨⟨1, 300⟩, none⟩, ⟨⟨2, 5000⟩, some 0⟩, ⟨⟨3, 400⟩, none⟩, ⟨⟨4, 700⟩, none⟩], 2⟩, ⟨1, []⟩⟩

/-- A payment that takes all three candidates available, the last because of the change output. -/
theorem generate_succeeds_threeOfFour :
    ((Floor.ofList [⟨1, 300⟩, ⟨2, 5000⟩, ⟨3, 400⟩, ⟨4, 700⟩]).after
      [.openSession "other", .claim "other" ⟨2000, none⟩, .openSession "run"]).holding? "run"
        = some .threeOfFour ∧
    (Terms.payment 100 1000).check = .ok () ∧ (Terms.payment 100 1000).netCount = none ∧
    (Terms.payment 100 1000).Fits 3 1 ∧
    1000 + 285 + (Terms.payment 100 1000).dueFor 3 1 ≤ 0 + 1400 ∧
    (generate Holding.allocator (fun _ => 0) 3 (.payment 100 1000) .threeOfFour).outcome
      = .ok ⟨[⟨4, 700⟩, ⟨3, 400⟩, ⟨1, 300⟩], [⟨347, 25⟩], 522, 53, 100⟩ ∧
    ∀ e ∈ (generate Holding.allocator (fun _ => 0) 3 (.payment 100 1000) .threeOfFour).trace,
      e.isReturn = false := by
  have hplan : (generate Holding.allocator (fun _ => 0) 3 (.payment 100 1000) .threeOfFour).outcome
      = .ok ⟨[⟨4, 700⟩, ⟨3, 400⟩, ⟨1, 300⟩], [⟨347, 25⟩], 522, 53, 100⟩ := by
    set_option maxRecDepth 8000 in rfl
  obtain ⟨-, hkept⟩ := generate_succeeds [⟨1, 300⟩, ⟨2, 5000⟩, ⟨3, 400⟩, ⟨4, 700⟩]
    [.openSession "other", .claim "other" ⟨2000, none⟩, .openSession "run"] "run" .threeOfFour
    (fun _ => 0) 3 (.payment 100 1000) (by decide) rfl rfl (by decide) (by decide) (by decide)
  exact ⟨by decide, rfl, rfl, by decide, by decide, hplan, hkept⟩

end CoinPurse
