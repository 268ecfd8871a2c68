import CoinPurse.Proofs.Backing
import CoinPurse.Proofs.Floor
import CoinPurse.Proofs.NetCount

/-!
# Enough rounds are enough

A run on a pool makes a bounded number of requests, and given as many rounds it ends with a plan or
for want of funds (`generate_converges`).

A pass makes a request for every candidate at most, and one more if it starves, so what has to be
bounded is how many passes starve. Every pass that starves drops a change output. The later passes
add none, and the first adds at most one with each claim. So the change outputs there are, and in
the first pass the candidates still available, bound the number of passes that may yet starve
(`Stage.outlook`). The rounds are paid from a reserve of so many passes (`Stage.Reserves`).
-/

namespace CoinPurse

section
variable {σ ε : Type} {cap n width k k' rounds : Nat} {growing : Bool} {s s' : Progress σ ε}

/-- The rounds spent so far leave enough of those for `width` passes that `k` more may starve, where
a pass that starves takes a round for each of `n` candidates and one more. What the present pass has
spent on its claims does not count yet. -/
def Stage.Reserves (cap n width k : Nat) (g : Stage σ ε) : Prop :=
  cap + (n + 1) * k ≤ (n + 1) * width + g.run.draft.claimed.size + g.rounds

/-- A reserve may be counted on for less. -/
theorem Stage.Reserves.anti {g : Stage σ ε} (h : g.Reserves cap n width k) (hk : k' ≤ k) :
    g.Reserves cap n width k' :=
  Nat.le_trans (Nat.add_le_add_left (Nat.mul_le_mul_left (n + 1) hk) cap) h

/-- While rounds have been spent on the present claims only, the whole reserve is left. -/
theorem Stage.reserves_of_forward {g : Stage σ ε}
    (hforward : g.run.draft.claimed.size + g.rounds = cap) (hk : k ≤ width) :
    g.Reserves cap n width k := by
  have hpaid := Nat.mul_le_mul_left (n + 1) hk
  rw [Stage.Reserves]
  omega

/-- At the start there are no claims, and no rounds have been spent. -/
theorem Progress.forward_start (t : Terms) (cap : Nat) (source : σ) :
    (start t source : Progress σ ε).draft.claimed.size + cap = cap := by
  rw [start, Draft.claimed_seed]
  exact Nat.zero_add cap

/-- A claim leaves the reserve as it was. -/
theorem Stage.Reserves.claimed (h : Stage.Reserves cap n width k ⟨growing, rounds + 1, s⟩)
    (t : Terms) (c : Candidate) (source : σ) :
    Stage.Reserves cap n width k ⟨growing, rounds, s.claimed t growing c source⟩ := by
  simp only [Stage.Reserves, Progress.size_claimed] at h ⊢
  omega

/-- A pass that starves is paid from the reserve. -/
theorem Stage.Reserves.starve (h : Stage.Reserves cap n width (k + 1) ⟨growing, rounds + 1, s⟩)
    (hsize : s.draft.claimed.size ≤ n) :
    Stage.Reserves cap n width k ⟨false, rounds, s'.starve⟩ := by
  have hempty : s'.starve.draft.claimed.size = 0 := rfl
  simp only [Stage.Reserves, hempty, Nat.mul_add, Nat.mul_one] at h ⊢
  omega

/-- With no more than the whole reserve spent, a run has made no more requests than the reserve and
one more pass allow for; if it may make as many, it does not run out of rounds. -/
theorem Report.Smooth.of_reserves {g : Stage σ ε} {r : Report Holding NotHeld}
    (hr : r.Smooth cap g.rounds) (hsize : g.run.draft.claimed.size ≤ n)
    (h : g.Reserves cap n width k) :
    r.trace.countP Event.isAsk ≤ (n + 1) * (width + 1) ∧
      ((n + 1) * (width + 1) ≤ cap → (∃ p, r.outcome = .ok p) ∨
        ∃ required shortfall, r.outcome = .error (.insufficientFunds required shortfall)) := by
  have hasks := hr.asks_le
  have hspent : cap ≤ (n + 1) * width + g.run.draft.claimed.size + g.rounds :=
    Nat.le_trans (Nat.le_add_right cap _) h
  rw [Nat.mul_add, Nat.mul_one]
  refine ⟨by omega, fun hcap => ?_⟩
  rcases hr.outcome_cases with hok | hshort | ⟨hrounds, -⟩
  · exact .inl hok
  · exact .inr hshort
  · omega

end

/-- The most change outputs that a run on these terms starts from: the net count, but at least one,
since one is made of what the fixed inputs leave. -/
def Terms.mostSeeds (t : Terms) : Nat := (max (t.netCount.getD 0) 1).toNat

/-- No run starts from more change outputs. -/
theorem Draft.size_seed_le (t : Terms) : (seed t).change.size ≤ t.mostSeeds := by
  rw [seed]
  split
  · split
    · change 1 ≤ (max (t.netCount.getD 0) 1).toNat
      omega
    · exact Nat.zero_le _
  · rename_i n hn
    rw [Tally.size_eq, Tally.items_ofList, List.length_append, List.length_replicate]
    change n + 1 ≤ (max (t.netCount.getD 0) 1).toNat
    omega

/-- How many passes may yet starve: one for each change output, and while outputs are added one for
each candidate available. -/
def Stage.outlook (g : Stage Holding NotHeld) : Nat :=
  g.run.draft.change.size + if g.growing then g.run.source.pool.available.length else 0

variable {cs : List Candidate} {cap width : Nat} {g g' : Stage Holding NotHeld} {t : Terms}

/-- A claim does not raise the outlook: an output that is added is made up for by the candidate,
which is not available any more. -/
theorem Stage.Splits.outlook_claimed {growing : Bool} {rounds : Nat} {s : Progress Holding NotHeld}
    {c : Candidate} {source : Holding} (h : Stage.Splits cs ⟨growing, rounds + 1, s⟩)
    (h' : Stage.Splits cs ⟨growing, rounds, s.claimed t growing c source⟩) :
    Stage.outlook ⟨growing, rounds, s.claimed t growing c source⟩
      ≤ Stage.outlook ⟨growing, rounds + 1, s⟩ := by
  cases growing with
  | true =>
    have hadded := (s.draft.size_accept_le t true c).2
    have hsize := h.size_le
    have hsize' := h'.size_le
    rw [Progress.size_claimed] at hsize'
    simp only [Stage.outlook, if_true, Progress.claimed] at hsize hsize' ⊢
    omega
  | false => exact Nat.le_refl _

/-- A pass that starves lowers it: an output is dropped, and none are added any more. -/
theorem Stage.outlook_starve {growing : Bool} {rounds rounds' : Nat}
    {s s' : Progress Holding NotHeld} {source : Holding} (hchange : s.draft.change.size ≠ 0)
    (hback : (s.answered t (.ok none) source).releaseAll Holding.allocator = (none, s')) :
    Stage.outlook ⟨false, rounds', s'.starve⟩ + 1 ≤ Stage.outlook ⟨growing, rounds, s⟩ := by
  have hdropped : s'.starve.draft.change.size = s.draft.change.size - 1 :=
    change_starve (s := s.answered t (.ok none) source) Holding.allocator hback
  simp only [Stage.outlook, hdropped, Bool.false_eq_true, if_false]
  omega

/-- Every turn leaves a reserve for as many passes as may yet starve. -/
theorem Turn.reserves_outlook (hsplits : g.Splits cs)
    (h : g.Reserves cap cs.length width g.outlook) (hturn : Turn Holding.allocator t g g') :
    g'.Reserves cap cs.length width g'.outlook := by
  have hsplits' := hturn.splits hsplits
  cases hturn with
  | claim hshort hreply => exact (h.claimed t _ _).anti (hsplits.outlook_claimed hsplits')
  | starve hshort hchange hreply hback =>
    exact Stage.Reserves.starve (h.anti (Stage.outlook_starve hchange hback))
      (Nat.le.intro hsplits.size_le)

/-- **Enough rounds are enough.** On any pool in use with `n` candidates available, a run that
starts from `m` change outputs at most makes no more than `(n + 1) * (m + n + 1)` requests, and its
session refuses it nothing. If it is given as many rounds, it ends with a plan or for want of
funds. -/
theorem generate_converges (cs : List Candidate) (history : List Pool.Step) (name : String)
    (h : Holding) (entropy : Nat → Float) (cap : Nat) (t : Terms)
    (hname : ((Floor.ofList cs).after history).holding? name = some h)
    (hcheck : t.check = .ok ()) :
    (generate Holding.allocator entropy cap t h).trace.countP Event.isAsk
        ≤ (h.pool.available.length + 1) * (t.mostSeeds + h.pool.available.length + 1) ∧
      (∀ e ∈ (generate Holding.allocator entropy cap t h).trace, e.failed = false) ∧
      ((h.pool.available.length + 1) * (t.mostSeeds + h.pool.available.length + 1) ≤ cap →
        (∃ p, (generate Holding.allocator entropy cap t h).outcome = .ok p) ∨
        ∃ required shortfall, (generate Holding.allocator entropy cap t h).outcome
          = .error (.insufficientFunds required shortfall)) := by
  have hp : h.pool.Distinct := Floor.distinct_of_holding? hname
  have hstart : Stage.Reserves cap h.pool.available.length
      (t.mostSeeds + h.pool.available.length) _ (⟨true, cap, .start t h⟩ : Stage Holding NotHeld) :=
    Stage.reserves_of_forward (Progress.forward_start t cap h)
      (Nat.add_le_add_right (Draft.size_seed_le t) _)
  obtain ⟨g, hserved, hreserves, hends⟩ := generate_served
    (P := fun g => g.Reserves cap h.pool.available.length
      (t.mostSeeds + h.pool.available.length) g.outlook)
    entropy hp hcheck (fun _ _ hsplits hg hturn => hturn.reserves_outlook hsplits hg) hstart
  have hsmooth := hends.smooth hserved
  obtain ⟨hasks, houtcome⟩ :=
    hsmooth.of_reserves (Nat.le.intro hserved.splits.size_le) hreserves
  exact ⟨hasks, hsmooth.unfailed, houtcome⟩

/-- A payment whose first pass starves after it has added an output to each of its claims; it is
given no more rounds than are sure to be enough. -/
theorem generate_converges_starved :
    ((Floor.ofList [⟨1, 200⟩, ⟨2, 1700⟩, ⟨3, 100⟩]).after [.openSession "run"]).holding? "run"
      = some .ofThree ∧
    Terms.oneMore.check = .ok () ∧ (3 + 1) * (Terms.oneMore.mostSeeds + 3 + 1) = 20 ∧
    (generate Holding.allocator (fun _ => 0) 20 .oneMore .ofThree).trace.countP Event.isAsk ≤ 20 ∧
    (∀ e ∈ (generate Holding.allocator (fun _ => 0) 20 .oneMore .ofThree).trace, e.failed = false) ∧
    (generate Holding.allocator (fun _ => 0) 20 .oneMore .ofThree).trace.countP Event.isAsk = 7 ∧
    (generate Holding.allocator (fun _ => 0) 20 .oneMore .ofThree).outcome
      = .ok ⟨[⟨2, 1700⟩, ⟨1, 200⟩, ⟨3, 100⟩], [⟨367, 25⟩, ⟨392, 25⟩, ⟨182, 25⟩], 590, 59, 100⟩ := by
  obtain ⟨hasks, hunfailed, -⟩ := generate_converges [⟨1, 200⟩, ⟨2, 1700⟩, ⟨3, 100⟩]
    [.openSession "run"] "run" .ofThree (fun _ => 0) 20 .oneMore (by decide) rfl
  refine ⟨by decide, rfl, rfl, hasks, hunfailed, ?_, ?_⟩
  · set_option maxRecDepth 8000 in rfl
  · set_option maxRecDepth 8000 in rfl

end CoinPurse
