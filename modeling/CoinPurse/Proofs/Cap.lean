import CoinPurse.Proofs.Fewest
import CoinPurse.Proofs.Rounds

/-!
# When a run uses up its rounds

With `n` candidates available and `m` change outputs to start from, `(n + 1) * (m + 1)` rounds are
enough on any pool of words (`generate_of_le_cap`). That is far fewer than one pass for each output
there ever is (`Stage.outlook`), since outputs added in the first pass hardly cost rounds. One is
added only where the claims so far pay for the outputs before it (`Terms.Payable`). If the first
pass starves for all that, the second has to do without the latest output at most, and it claims the
largest candidates first: it is funded before it can starve as well (`Stage.Dropping.not_payable`).

Nor are fewer rounds enough in general. On a pool that cannot even pay the fixed outputs every pass
starves, so a run on it uses up its rounds exactly if they are fewer than that
(`generate_roundLimit_iff`). A run that wants two thousand change outputs from a pool of forty-nine
satoshis does so with the rounds it is allowed by default.
-/

namespace CoinPurse

/-- Some selection of the candidates pays for the transaction with these change outputs. -/
def Terms.Payable (t : Terms) (cs : List Candidate) (amounts : List Nat) : Prop :=
  ∃ es : List Candidate, es.Subperm cs ∧ 0 ≤ t.surplus amounts es

/-- A run in its first pass. -/
structure Stage.Adding (t : Terms) (cs : List Candidate) (cap : Nat)
    (g : Stage Holding NotHeld) : Prop where
  /-- change outputs may still be added -/
  growing : g.growing = true
  /-- every round that is gone brought a claim -/
  forward : g.run.draft.claimed.size + g.rounds = cap
  /-- if outputs were added, all but the latest can be paid for -/
  added : g.run.draft.change.size ≤ t.mostSeeds ∨ t.Payable cs g.run.draft.change.items.tail

/-- A run in a later pass. -/
structure Stage.Dropping (t : Terms) (cs : List Candidate) (cap : Nat)
    (g : Stage Holding NotHeld) : Prop where
  /-- no change outputs are added any more -/
  growing : g.growing = false
  /-- there is a reserve for each change output, unless all of them can be paid for -/
  reserve : ∃ k, g.Reserves cap cs.length t.mostSeeds k ∧
    (g.run.draft.change.size ≤ k ∨ t.Payable cs g.run.draft.change.items)
  /-- as long as the run is short, some amount divides what it claims from what is available -/
  largest : g.run.draft.excess t < 0 →
    ∃ m, (∀ c ∈ g.run.draft.claimed.items, m ≤ c.satoshis) ∧
      ∀ c ∈ g.run.source.pool.available, c.satoshis ≤ m
  /-- and no selection of as few candidates pays for its change outputs -/
  fewest : g.run.draft.excess t < 0 → ∀ es : List Candidate, es.Subperm cs →
    es.length ≤ g.run.draft.claimed.size → t.surplus g.run.draft.change.items es < 0

section
variable {t : Terms} {cs : List Candidate} {cap rounds : Nat} {growing : Bool}
variable {s s' : Progress Holding NotHeld} {c : Candidate} {source : Holding}

/-- A run starts with no outputs added. -/
theorem Stage.adding_start (t : Terms) (cs : List Candidate) (cap : Nat) (h : Holding) :
    Stage.Adding t cs cap ⟨true, cap, .start t h⟩ where
  growing := rfl
  forward := Progress.forward_start t cap h
  added := .inl (Draft.size_seed_le t)

/-- An output is added where the claims pay for those before it. -/
theorem Stage.Adding.claimed (h : Stage.Adding t cs cap ⟨true, rounds + 1, s⟩)
    (hsplits' : Stage.Splits cs ⟨true, rounds, s.claimed t true c source⟩) :
    Stage.Adding t cs cap ⟨true, rounds, s.claimed t true c source⟩ where
  growing := rfl
  forward := by
    have hforward : s.draft.claimed.size + (rounds + 1) = cap := h.forward
    rw [Progress.size_claimed]
    exact (Nat.succ_add_eq_add_succ _ _).trans hforward
  added := by
    rcases s.draft.accept_cases t true c with ⟨heq, -⟩ | ⟨-, hover, -, heq⟩
    · simp only [Progress.claimed, heq]
      exact h.added
    · refine .inr ⟨c :: s.draft.claimed.items, ?_, ?_⟩
      · rw [← Progress.items_claimed t true s c source]
        exact hsplits'.perm.subperm_left.1 (List.sublist_append_left _ _).subperm
      · rw [Draft.excess_eq_surplus] at hover
        simp only [Progress.claimed, heq]
        exact Int.le_of_lt hover

/-- A run that begins a later pass has claimed nothing, and with nothing it is short. -/
theorem Stage.Dropping.of_unclaimed {g : Stage Holding NotHeld} (hgrowing : g.growing = false)
    (hempty : g.run.draft.claimed = .empty) {k : Nat}
    (hreserve : g.Reserves cap cs.length t.mostSeeds k)
    (hkept : g.run.draft.change.size ≤ k ∨ t.Payable cs g.run.draft.change.items) :
    g.Dropping t cs cap where
  growing := hgrowing
  reserve := ⟨k, hreserve, hkept⟩
  largest _ := hempty ▸ exists_dividing_nil _
  fewest hshort es _ hes := by
    rw [Draft.excess_eq_surplus, hempty] at hshort
    rw [hempty] at hes
    obtain rfl := List.length_eq_zero_iff.1 (Nat.le_zero.1 hes)
    exact hshort

/-- When the first pass starves, an output less is left, and a reserve for those that are. -/
theorem Stage.Adding.starve (h : Stage.Adding t cs cap ⟨true, rounds + 1, s⟩)
    (hsplits : Stage.Splits cs ⟨true, rounds + 1, s⟩) (hchange : s.draft.change.size ≠ 0)
    (hback : (s.answered t (.ok none) source).releaseAll Holding.allocator = (none, s')) :
    Stage.Dropping t cs cap ⟨false, rounds, s'.starve⟩ := by
  have hroom : s.draft.claimed.size ≤ cs.length := Nat.le.intro hsplits.size_le
  have hpaid : ∀ {k}, k + 1 ≤ t.mostSeeds →
      Stage.Reserves cap cs.length t.mostSeeds k ⟨false, rounds, s'.starve⟩ :=
    fun hk => Stage.Reserves.starve (Stage.reserves_of_forward h.forward hk) hroom
  have hdropped := items_starve (s := s.answered t (.ok none) source) Holding.allocator hback
  have hsize := change_starve (s := s.answered t (.ok none) source) Holding.allocator hback
  rcases h.added with hfew | hpayable
  · have hseeds : s'.starve.draft.change.size + 1 ≤ t.mostSeeds := by
      rw [hsize]
      change s.draft.change.size ≤ t.mostSeeds at hfew
      change s.draft.change.size - 1 + 1 ≤ t.mostSeeds
      omega
    exact .of_unclaimed rfl rfl (hpaid hseeds) (.inl (Nat.le_refl _))
  · have hone : 0 + 1 ≤ t.mostSeeds := by
      rw [Terms.mostSeeds]
      omega
    refine .of_unclaimed rfl rfl (hpaid hone) (.inr ?_)
    change t.Payable cs s'.starve.draft.change.items
    rw [hdropped]
    exact hpayable

/-- A later pass that is short is frugal. -/
theorem Stage.Dropping.frugal {g : Stage Holding NotHeld} (h : g.Dropping t cs cap)
    (hshort : g.run.draft.excess t < 0) : g.Frugal t cs where
  largest := h.largest
  fewest es hsub hless := h.fewest hshort es hsub (Nat.le_of_lt hless)

/-- **Later passes claim the largest candidates first**, and no more of them than any selection
would need. -/
theorem Stage.Dropping.claimed (h : Stage.Dropping t cs cap ⟨false, rounds + 1, s⟩)
    (hfits : t.Fits cs.length (s.draft.change.size + 1))
    (hwords : ∀ c ∈ cs, c.satoshis ≤ Word.max64)
    (hsplits : Stage.Splits cs ⟨false, rounds + 1, s⟩) (hshort : s.draft.excess t < 0)
    (hreply : Holding.allocator.claim (s.draft.ask t) s.source = (.ok (some c), source))
    (hsplits' : Stage.Splits cs ⟨false, rounds, s.claimed t false c source⟩) :
    Stage.Dropping t cs cap ⟨false, rounds, s.claimed t false c source⟩ := by
  obtain ⟨k, hreserve, hkept⟩ := h.reserve
  have hfrugal : Stage.Frugal t cs ⟨false, rounds, s.claimed t false c source⟩ :=
    Turn.frugal hwords hsplits (fun _ _ => h.frugal hshort) (.claim hshort hreply) (.inl rfl) hfits
  exact ⟨rfl, ⟨k, hreserve.claimed t c source, hkept⟩, hfrugal.largest,
    fun hshort' _ hsub hes => hfrugal.surplus_neg hsplits' hshort' hsub hes⟩

/-- **A later pass only starves if it cannot be funded**: no selection pays for its change
outputs. -/
theorem Stage.Dropping.not_payable (h : Stage.Dropping t cs cap ⟨false, rounds, s⟩)
    (hall : s.draft.claimed.items.Perm cs) (hshort : s.draft.excess t < 0) :
    ¬ t.Payable cs s.draft.change.items := by
  rintro ⟨es, hsub, hpays⟩
  have hsize : s.draft.claimed.size = cs.length := by rw [Tally.size_eq, hall.length_eq]
  have hless := h.fewest hshort es hsub (Nat.le_trans hsub.length_le (Nat.le_of_eq hsize.symm))
  exact absurd hpays (Int.not_le.2 hless)

/-- When a later pass starves, it is paid from the reserve. -/
theorem Stage.Dropping.starve (h : Stage.Dropping t cs cap ⟨false, rounds + 1, s⟩)
    (hall : s.draft.claimed.items.Perm cs) (hshort : s.draft.excess t < 0)
    (hchange : s.draft.change.size ≠ 0)
    (hback : (s.answered t (.ok none) source).releaseAll Holding.allocator = (none, s')) :
    Stage.Dropping t cs cap ⟨false, rounds, s'.starve⟩ := by
  have hsize := change_starve (s := s.answered t (.ok none) source) Holding.allocator hback
  have hroom : s.draft.claimed.size ≤ cs.length :=
    Nat.le_of_eq (by rw [Tally.size_eq, hall.length_eq])
  obtain ⟨k, hreserve, hfew | hpayable⟩ := h.reserve
  · change s.draft.change.size ≤ k at hfew
    change s'.starve.draft.change.size = s.draft.change.size - 1 at hsize
    have hleft : s'.starve.draft.change.size + 1 ≤ k := by omega
    exact .of_unclaimed rfl rfl (Stage.Reserves.starve (hreserve.anti hleft) hroom)
      (.inl (Nat.le_refl _))
  · exact absurd hpayable (h.not_payable hall hshort)

end

/-- A run that has rounds to spare for every pass that may yet starve. -/
structure Stage.Sparing (t : Terms) (cs : List Candidate) (cap : Nat)
    (g : Stage Holding NotHeld) : Prop where
  /-- there are no more change outputs than are accounted for -/
  outlook_le : g.outlook ≤ t.mostSeeds + cs.length
  /-- whichever pass it is in -/
  passes : g.Adding t cs cap ∨ g.Dropping t cs cap

section
variable {t : Terms} {cs : List Candidate} {cap : Nat} {g g' : Stage Holding NotHeld}

/-- Every turn keeps a run sparing. -/
theorem Turn.sparing (hfits : t.Fits cs.length (t.mostSeeds + cs.length + 1))
    (hwords : ∀ c ∈ cs, c.satoshis ≤ Word.max64) (hsplits : g.Splits cs)
    (h : g.Sparing t cs cap) (hturn : Turn Holding.allocator t g g') : g'.Sparing t cs cap := by
  have hsplits' := hturn.splits hsplits
  cases hturn with
  | @claim growing rounds s c source hshort hreply =>
    refine ⟨Nat.le_trans (hsplits.outlook_claimed hsplits') h.outlook_le, ?_⟩
    rcases h.passes with hadding | hdropping
    · obtain rfl : growing = true := hadding.growing
      exact .inl (hadding.claimed hsplits')
    · obtain rfl : growing = false := hdropping.growing
      have houtputs : s.draft.change.size ≤ t.mostSeeds + cs.length := h.outlook_le
      exact .inr (hdropping.claimed (hfits.anti (Nat.le_refl _) (Nat.succ_le_succ houtputs)) hwords
        hsplits hshort hreply hsplits')
  | @starve growing rounds s s' source hshort hchange hreply hback =>
    refine ⟨?_, .inr ?_⟩
    · have houtlook : Stage.outlook ⟨false, rounds, s'.starve⟩ + 1
          ≤ Stage.outlook ⟨growing, rounds + 1, s⟩ := Stage.outlook_starve hchange hback
      exact Nat.le_trans (Nat.le_of_succ_le houtlook) h.outlook_le
    · rcases h.passes with hadding | hdropping
      · obtain rfl : growing = true := hadding.growing
        exact hadding.starve hsplits hchange hback
      · obtain rfl : growing = false := hdropping.growing
        exact hdropping.starve (hsplits.perm_of_claim_none hreply).2 hshort hchange hback

/-- A sparing run has spent no more than the whole reserve. -/
theorem Stage.Sparing.exists_reserves (h : g.Sparing t cs cap) :
    ∃ k, g.Reserves cap cs.length t.mostSeeds k := by
  rcases h.passes with hadding | hdropping
  · exact ⟨0, Stage.reserves_of_forward hadding.forward (Nat.zero_le _)⟩
  · obtain ⟨k, hreserve, -⟩ := hdropping.reserve
    exact ⟨k, hreserve⟩

end

/-- **Rounds for every output at the start are enough.** A run on a pool of words ends with a plan
or for want of funds, if it may ask once for every candidate and once more in vain, for each change
output it starts from and one time besides. -/
theorem generate_of_le_cap {h : Holding} (entropy : Nat → Float) {cap : Nat} {t : Terms}
    (hp : h.pool.Distinct) (hcheck : t.check = .ok ())
    (hwords : ∀ c ∈ h.pool.available, c.satoshis ≤ Word.max64)
    (hfits : t.Fits h.pool.available.length (t.mostSeeds + h.pool.available.length + 1))
    (hcap : (h.pool.available.length + 1) * (t.mostSeeds + 1) ≤ cap) :
    (∃ p, (generate Holding.allocator entropy cap t h).outcome = .ok p) ∨
      ∃ required shortfall, (generate Holding.allocator entropy cap t h).outcome
        = .error (.insufficientFunds required shortfall) := by
  have hstart : Stage.Sparing t h.pool.available cap ⟨true, cap, .start t h⟩ :=
    ⟨Nat.add_le_add_right (Draft.size_seed_le t) _, .inl (Stage.adding_start t _ cap h)⟩
  obtain ⟨g, hserved, hsparing, hends⟩ := generate_served entropy hp hcheck
    (fun _ _ hsplits hg hturn => hturn.sparing hfits hwords hsplits hg) hstart
  obtain ⟨k, hreserves⟩ := hsparing.exists_reserves
  exact ((hends.smooth hserved).of_reserves (Nat.le.intro hserved.splits.size_le) hreserves).2 hcap

/-- Fixed outputs that nothing can pay for leave every draft short. -/
theorem Draft.excess_neg_of_poor {t : Terms} {d : Draft} {cs : List Candidate}
    (hpoor : t.inputTotal + totalOf (cs.map (·.satoshis)) < t.outputTotal) (rest : List Candidate)
    (hperm : (d.claimed.items ++ rest).Perm cs) : d.excess t < 0 := by
  have htotal := totalOf_perm (hperm.map (·.satoshis))
  rw [List.map_append, totalOf_append, ← d.claimed.total_eq] at htotal
  rw [excess_eq, Terms.costFor]
  omega

/-- If the fixed outputs leave every draft short, a run starts from as many change outputs as its
net count says. -/
theorem Draft.size_seed_of_short {t : Terms} (hshort : blank.excess t < 0) :
    (seed t).change.size = (t.netCount.getD 0).toNat := by
  rw [seed]
  split
  · rename_i hzero
    rw [if_neg (by omega), hzero]
    rfl
  · rename_i n hn
    rw [hn, Tally.size_eq, Tally.items_ofList, List.length_append, List.length_replicate]
    rfl

/-- A run of which every pass starves: each pass that is over took one round for each of the `n`
candidates and one more, and dropped one change output. -/
def Stage.Starving (cap n seeds : Nat) {σ ε : Type} (g : Stage σ ε) : Prop :=
  cap + (n + 1) * g.run.draft.change.size
    = (n + 1) * seeds + g.run.draft.claimed.size + g.rounds

section
variable {t : Terms} {cs : List Candidate} {cap seeds : Nat} {g g' : Stage Holding NotHeld}
variable (hpoor : t.inputTotal + totalOf (cs.map (·.satoshis)) < t.outputTotal)
include hpoor

/-- On a poor pool no claim leaves an excess, and every pass starves. -/
theorem Turn.starving (hsplits : g.Splits cs) (h : g.Starving cap cs.length seeds)
    (hturn : Turn Holding.allocator t g g') : g'.Starving cap cs.length seeds := by
  have hsplits' := hturn.splits hsplits
  cases hturn with
  | @claim growing rounds s c source hshort hreply =>
    have hunpaid : (s.draft.claim c).excess t < 0 := by
      refine Draft.excess_neg_of_poor hpoor source.pool.available ?_
      have hperm := hsplits'.perm
      rwa [Progress.items_claimed] at hperm
    have hsame : (s.claimed t growing c source).draft.change = s.draft.change := by
      rcases s.draft.accept_cases t growing c with ⟨heq, -⟩ | ⟨-, hover, -, -⟩
      · rw [Progress.claimed, heq, Draft.change_claim]
      · omega
    simp only [Stage.Starving, Progress.size_claimed, hsame] at h ⊢
    omega
  | @starve growing rounds s s' source hshort hchange hreply hback =>
    have hsize : s'.starve.draft.change.size = s.draft.change.size - 1 :=
      change_starve (s := s.answered t (.ok none) source) Holding.allocator hback
    have hempty : s'.starve.draft.claimed.size = 0 := rfl
    have hall : s.draft.claimed.size = cs.length := by
      rw [Tally.size_eq, (hsplits.perm_of_claim_none hreply).2.length_eq]
    obtain ⟨k, hk⟩ := Nat.exists_eq_add_one_of_ne_zero hchange
    simp only [Stage.Starving, hsize, hempty, hk, hall, Nat.add_sub_cancel, Nat.mul_add,
      Nat.mul_one] at h ⊢
    omega

end

/-- **When rounds run out.** On a pool that cannot pay the fixed outputs, a run uses up its rounds
exactly if they are too few for a pass for each change output it starts from and one besides. -/
theorem generate_roundLimit_iff {h : Holding} (entropy : Nat → Float) (cap : Nat) {t : Terms}
    (hp : h.pool.Distinct) (hcheck : t.check = .ok ())
    (hpoor : t.inputTotal + totalOf (h.pool.available.map (·.satoshis)) < t.outputTotal) :
    (generate Holding.allocator entropy cap t h).outcome = .error (.roundLimit cap) ↔
      cap < (h.pool.available.length + 1) * ((t.netCount.getD 0).toNat + 1) := by
  have hstart : Stage.Starving cap h.pool.available.length (t.netCount.getD 0).toNat
      (⟨true, cap, .start t h⟩ : Stage Holding NotHeld) := by
    have hshort : Draft.blank.excess t < 0 :=
      Draft.excess_neg_of_poor hpoor h.pool.available (.refl _)
    have hclaims := Progress.forward_start (ε := NotHeld) t cap h
    have hseeds : (Progress.start t h : Progress Holding NotHeld).draft.change.size
        = (t.netCount.getD 0).toNat := Draft.size_seed_of_short hshort
    simp only [Stage.Starving, hseeds]
    omega
  obtain ⟨g, hserved, hstarving, hends⟩ := generate_served entropy hp hcheck
    (fun _ _ hsplits hg hturn => hturn.starving hpoor hsplits hg) hstart
  have hunpaid : g.run.draft.excess t < 0 :=
    Draft.excess_neg_of_poor hpoor _ hserved.splits.perm
  have hroom : g.run.draft.claimed.size ≤ h.pool.available.length :=
    Nat.le.intro hserved.splits.size_le
  rw [Nat.mul_add, Nat.mul_one]
  constructor
  · intro hlimit
    have hrounds := (hends.smooth hserved).rounds_eq_zero hlimit
    rw [Stage.Starving] at hstarving
    omega
  · intro hcap
    generalize generate Holding.allocator entropy cap t h = report at hends ⊢
    cases hends with
    | settled hcovered hchange hfinish => exact absurd hcovered (Int.not_le.2 hunpaid)
    | surplus hover hchange => exact absurd hover (Int.not_lt.2 (Int.le_of_lt hunpaid))
    | @short growing rounds s source hshort hchange hreply =>
      -- every output is dropped and every candidate claimed, so all those rounds are gone
      have hall : s.draft.claimed.size = h.pool.available.length := by
        rw [Tally.size_eq, (hserved.splits.perm_of_claim_none hreply).2.length_eq]
      simp only [Stage.Starving, hchange, hall, Nat.mul_zero] at hstarving
      omega
    | exhausted hshort => rfl
    | refused hshort hreply => exact absurd hreply Holding.allocator_claim_ne_error
    | stuck hshort hchange hreply hback => exact absurd hback (hserved.not_stuck hreply)

/-- **When the default rounds are enough.** On any pool in use, a run with the rounds it is allowed
by default ends with a plan or for want of funds, if `n` candidates and `m` change outputs to start
from make `(n + 1) * (m + 1)` no more than these rounds. Where the fixed outputs cannot be paid for,
it uses up its rounds exactly if they are fewer. -/
theorem generate_defaultRounds (cs : List Candidate) (history : List Pool.Step) (name : String)
    (h : Holding) (entropy : Nat → Float) (t : Terms)
    (hname : ((Floor.ofList cs).after history).holding? name = some h)
    (hcheck : t.check = .ok ()) (hwords : ∀ c ∈ h.pool.available, c.satoshis ≤ Word.max64)
    (hfits : t.Fits h.pool.available.length (t.mostSeeds + h.pool.available.length + 1)) :
    ((h.pool.available.length + 1) * (t.mostSeeds + 1) ≤ defaultRounds →
      (∃ p, (generate Holding.allocator entropy defaultRounds t h).outcome = .ok p) ∨
      ∃ required shortfall, (generate Holding.allocator entropy defaultRounds t h).outcome
        = .error (.insufficientFunds required shortfall)) ∧
    (t.inputTotal + totalOf (h.pool.available.map (·.satoshis)) < t.outputTotal →
      ((generate Holding.allocator entropy defaultRounds t h).outcome
          = .error (.roundLimit defaultRounds) ↔
        defaultRounds < (h.pool.available.length + 1) * ((t.netCount.getD 0).toNat + 1))) := by
  have hp : h.pool.Distinct := Floor.distinct_of_holding? hname
  constructor
  · intro hcap
    exact generate_of_le_cap entropy hp hcheck hwords hfits hcap
  · intro hpoor
    exact generate_roundLimit_iff entropy defaultRounds hp hcheck hpoor

/-- A number of candidates of one satoshi each, with ids from zero on. -/
def Candidate.dust (n : Nat) : List Candidate := (List.range n).map fun i => ⟨Int.ofNat i, 1⟩

/-- A session on a pool of candidates of one satoshi each. -/
def Holding.dust (n : Nat) : Holding := (Pool.ofList (Candidate.dust n)).openSession

/-- Candidates of one satoshi are told apart by their ids. -/
theorem Holding.distinct_dust (n : Nat) : (dust n).pool.Distinct :=
  Pool.distinct_ofList (Candidate.dust n)

/-- To a new session all candidates of one satoshi are available. -/
theorem Holding.available_dust (n : Nat) : (dust n).pool.available = Candidate.dust n := by
  have hids : ((Candidate.dust n).map (·.id)).Nodup := by
    rw [Candidate.dust, List.map_map]
    refine List.Nodup.map (fun i j hij => ?_) List.nodup_range
    exact Int.ofNat.inj hij
  have hentries : (dust n).pool.entries = (Candidate.dust n).map fun c => ⟨c, none⟩ :=
    Pool.entries_ofList hids
  rw [Pool.available, hentries, List.filter_eq_self.2, List.map_map]
  · exact List.map_id _
  · exact List.forall_mem_map.2 fun c _ => rfl

/-- The terms of a payment of a million satoshis that asks for a net count. -/
def Terms.split (n : Nat) : Terms := { Terms.payment 1 1000000 with netCount := some (n : Int) }

/-- Four candidates, which are far too little for a payment with a net count of three. -/
theorem generate_defaultRounds_fourCandidates :
    ((Floor.ofList (Candidate.dust 4)).after [.openSession "run"]).holding? "run"
      = some (.dust 4) ∧
    (Terms.split 3).check = .ok () ∧
    (∀ c ∈ (Holding.dust 4).pool.available, c.satoshis ≤ Word.max64) ∧
    (Terms.split 3).Fits 4 8 ∧ (4 + 1) * (3 + 1) ≤ defaultRounds ∧ 0 + 4 < 1000000 ∧
    (generate Holding.allocator (fun _ => 0) defaultRounds (.split 3) (.dust 4)).outcome
      = .error (.insufficientFunds 1000001 999997) ∧
    ((generate Holding.allocator (fun _ => 0) defaultRounds (.split 3) (.dust 4)).outcome
        = .error (.roundLimit defaultRounds) ↔ defaultRounds < (4 + 1) * (3 + 1)) := by
  obtain ⟨-, hpoor⟩ := generate_defaultRounds (Candidate.dust 4) [.openSession "run"] "run"
    (.dust 4) (fun _ => 0) (.split 3) rfl rfl (by decide) (by decide)
  refine ⟨rfl, rfl, by decide, by decide, by decide, by decide, ?_, hpoor (by decide)⟩
  set_option maxRecDepth 8000 in rfl

/-- Two thousand change outputs from forty-nine candidates take more rounds than the default, and
the run stops without saying that its funds are too low. -/
theorem generate_defaultRounds_exhausted :
    ((Floor.ofList (Candidate.dust 49)).after [.openSession "run"]).holding? "run"
      = some (.dust 49) ∧
    (Holding.dust 49).pool.available.length = 49 ∧ (Terms.split 2000).check = .ok () ∧
    (Terms.split 2000).Fits 49 2050 ∧
    (generate Holding.allocator (fun _ => 0) defaultRounds (.split 2000) (.dust 49)).outcome
      = .error (.roundLimit 100000) := by
  have hlength : (Holding.dust 49).pool.available.length = 49 := by
    rw [Holding.available_dust, Candidate.dust, List.length_map, List.length_range]
  refine ⟨rfl, hlength, rfl, by decide +kernel, ?_⟩
  refine (generate_roundLimit_iff _ _ (Holding.distinct_dust 49) rfl ?_).2 ?_
  · rw [Holding.available_dust]
    decide
  · rw [hlength]
    decide

end CoinPurse
