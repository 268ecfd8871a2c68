import CoinPurse.Proofs.Cap
import CoinPurse.Proofs.Conservation
import CoinPurse.Proofs.Rival
import CoinPurse.Proofs.Shortage

/-!
# More money hardly ever hurts

If a run succeeds with change, it does not fall short on a pool with one candidate more
(`generate_windfall`). What might go wrong is that the new candidate turns the run off its course,
and that it ends with an excess and without a change output to take it. But a run that gives up its
last change output has starved with it: in the first pass (`Stage.Lone`), which only happens where
no smaller pool could afford a change output either; or in a later one, where no selection pays for
it (`Turn.keeping`).

Two things have to be said. A run that succeeds without change does so by an exact fit, and a new
candidate may well spoil it (`generate_insufficient_with_more`). And where one input more or less
changes the number of bytes in which the inputs are counted, a run that starts without change
outputs may open with an input too many.
-/

namespace CoinPurse

variable {t : Terms} {cs opening later : List Candidate} {cap amount : Nat}
variable {g g' : Stage Holding NotHeld}

/-- A run in its first pass that has one change output. It has claimed an opening, and then the
largest candidates. -/
structure Stage.Lone (t : Terms) (cs opening later : List Candidate) (amount : Nat)
    (g : Stage Holding NotHeld) : Prop where
  /-- the change output is the only one -/
  items_eq : g.run.draft.change.items = [amount]
  /-- the opening was claimed first -/
  claimed_eq : g.run.draft.claimed.items = later ++ opening
  /-- the change output is from the opening -/
  starts : t.Starts cs opening amount
  /-- the opening has no more candidates than are needed without change -/
  spare : ∀ es : List Candidate, es.Subperm cs → es.length < opening.length → t.margin es < 0
  /-- as long as the run is short, some amount divides what it claims later from what is
  available -/
  largest : g.run.draft.excess t < 0 → ∃ m, (∀ c ∈ later, m ≤ c.satoshis) ∧
    ∀ c ∈ g.run.source.pool.available, c.satoshis ≤ m
  /-- and no selection of as few candidates pays for the output beside the opening -/
  fewest : g.run.draft.excess t < 0 → ∀ es : List Candidate,
    es.Subperm (later ++ g.run.source.pool.available) → es.length ≤ later.length →
    t.surplus [amount] (es ++ opening) < 0

/-- A run that has just made its first change output has claimed an opening and nothing more. -/
theorem Stage.lone_of_opening (hitems : g.run.draft.change.items = [amount])
    (hclaimed : g.run.draft.claimed.items = opening) (hstarts : t.Starts cs opening amount)
    (hspare : ∀ es : List Candidate, es.Subperm cs → es.length < opening.length →
      t.margin es < 0) : g.Lone t cs opening [] amount where
  items_eq := hitems
  claimed_eq := hclaimed
  starts := hstarts
  spare := hspare
  largest _ := exists_dividing_nil _
  fewest hshort es _ hes := by
    obtain rfl := List.length_eq_zero_iff.1 (Nat.le_zero.1 hes)
    rwa [Draft.excess_eq_surplus, hitems, hclaimed] at hshort

/-- If the run starts with one change output, its opening is empty. -/
theorem Stage.lone_start {h : Holding} (hone : (Draft.seed t).change.size = 1) :
    Stage.Lone t cs [] [] t.firstSatoshis ⟨true, cap, .start t h⟩ := by
  obtain ⟨x, hitems⟩ := List.length_eq_one_iff.1 ((Tally.size_eq _).symm.trans hone)
  have hseeds : (Draft.seed t).change.size ≠ 0 := by omega
  obtain rfl : x = t.firstSatoshis := Draft.getLast?_seed (by rw [hitems]; rfl)
  refine Stage.lone_of_opening hitems ?_ (.seeded hseeds) fun es _ hes => ?_
  · rw [Progress.start, Draft.claimed_seed]
    rfl
  · exact absurd hes (Nat.not_lt_zero _)

section
variable {rounds : Nat} {s s' : Progress Holding NotHeld} {c : Candidate} {source : Holding}

/-- The claim with which a first change output comes about completes an opening. -/
theorem Stage.Founded.lone_claimed (h : Stage.Founded t cs ⟨true, rounds + 1, s⟩)
    (hthrifty : Stage.Thrifty t cs ⟨true, rounds + 1, s⟩)
    (hsplits : Stage.Splits cs ⟨true, rounds + 1, s⟩) (hnone : s.draft.change.size = 0)
    (hshort : s.draft.excess t < 0)
    (hreply : Holding.allocator.claim (s.draft.ask t) s.source = (.ok (some c), source))
    (hover : 0 < (s.draft.claim c).excess t)
    (hadded : s.draft.accept t true c = (s.draft.claim c).addChange t) :
    Stage.Lone t cs (c :: s.draft.claimed.items) []
      (min (Word.clamp (t.margin (c :: s.draft.claimed.items))) t.firstSatoshis)
      ⟨true, rounds, s.claimed t true c source⟩ := by
  have hstarts := h.starts_claimed hsplits hnone hshort hreply hover
  refine Stage.lone_of_opening ?_ ?_ hstarts fun es hsub hless => ?_
  · simp only [Progress.claimed, hadded]
    exact Draft.items_addChange_claim hnone c
  · rw [Progress.items_claimed]
  · -- before this claim the run was thrifty, and short
    rcases Nat.lt_succ_iff_lt_or_eq.1 hless with hless | hsame
    · exact hthrifty.fewest hnone es hsub (by rwa [Tally.size_eq])
    · exact Int.lt_of_le_of_lt (hthrifty.margin_le hsplits hnone hshort hsub
        (by rw [hsame, Tally.size_eq])) hshort

/-- A further claim without a further change output is one of the largest candidates. -/
theorem Stage.Lone.claimed (h : Stage.Lone t cs opening later amount ⟨true, rounds + 1, s⟩)
    (hfits : t.Fits cs.length 2) (hwords : ∀ x ∈ cs, x.satoshis ≤ Word.max64)
    (hsplits : Stage.Splits cs ⟨true, rounds + 1, s⟩) (hshort : s.draft.excess t < 0)
    (hreply : Holding.allocator.claim (s.draft.ask t) s.source = (.ok (some c), source))
    (hkept : s.draft.accept t true c = s.draft.claim c) :
    Stage.Lone t cs opening (c :: later) amount ⟨true, rounds, s.claimed t true c source⟩ := by
  obtain ⟨hchoose, hc, hrest, hroom⟩ := hsplits.of_claim_some hreply
  obtain ⟨-, -, htaken⟩ :=
    Holding.claim_eq_some hsplits.distinct (Holding.claim_of_allocator hreply)
  have hone : s.draft.change.size = 1 := by rw [Tally.size_eq, h.items_eq, List.length_singleton]
  have hclaimed : (s.claimed t true c source).draft.claimed.items = (c :: later) ++ opening := by
    rw [Progress.items_claimed, h.claimed_eq, List.cons_append]
  have hitems : (s.claimed t true c source).draft.change.items = [amount] := by
    simp only [Progress.claimed, hkept]
    exact h.items_eq
  have hlargest : (s.claimed t true c source).draft.excess t < 0 →
      (∀ x ∈ c :: later, c.satoshis ≤ x.satoshis) ∧
        ∀ x ∈ source.pool.available, x.satoshis ≤ c.satoshis := by
    intro hshort'
    simp only [Progress.claimed, hkept] at hshort'
    have hmost := Draft.le_of_claim_short_of_words
      (hfits.anti hroom (Nat.le_of_eq (congrArg (· + 1) hone)))
      (fun x hx => hwords x (hsplits.perm.subset (List.mem_append_right _ hx))) hchoose hshort'
    exact ⟨forall_le_cons_of_dividing (h.largest hshort) hc, fun x hx => hmost x (hrest hx)⟩
  refine ⟨hitems, hclaimed, h.starts, h.spare, fun hshort' => ⟨_, hlargest hshort'⟩,
    fun hshort' es hsub hes => ?_⟩
  have hsub' : es.Subperm (later ++ s.source.pool.available) :=
    (List.perm_middle.symm.trans (htaken.symm.append_left later)).subperm_left.1 hsub
  rcases Nat.le_succ_iff.1 hes with hless | hsame
  · exact h.fewest hshort es hsub' hless
  · -- of selections of this size the largest candidates leave most, and they leave too little
    obtain ⟨habove, hbelow⟩ := hlargest hshort'
    have hsame : es.length = (c :: later).length := hsame
    have hworth := t.surplus_le_of_subperm [amount] habove hbelow hsub hsame
    rw [Draft.excess_eq_surplus, hitems, hclaimed] at hshort'
    simp only [Terms.surplus, List.map_append, totalOf_append, List.length_append, hsame]
      at hworth hshort' ⊢
    omega

/-- If such a run finds nothing more to claim while it is short, it is stranded. -/
theorem Stage.Lone.stranded (h : Stage.Lone t cs opening later amount g) (hsplits : g.Splits cs)
    (hshort : g.run.draft.excess t < 0) {source : Holding}
    (hreply : Holding.allocator.claim (g.run.draft.ask t) g.run.source = (.ok none, source)) :
    t.Stranded cs opening later amount where
  starts := h.starts
  perm := by
    obtain ⟨-, hall⟩ := hsplits.perm_of_claim_none hreply
    rwa [h.claimed_eq] at hall
  spare := h.spare
  fewest es hsub :=
    h.fewest hshort es (hsub.trans (List.sublist_append_left _ _).subperm) hsub.length_le

end

/-- What can be said of every run on a pool of words. -/
structure Stage.Steady (t : Terms) (cs : List Candidate) (cap : Nat)
    (g : Stage Holding NotHeld) : Prop where
  /-- it has rounds to spare -/
  sparing : g.Sparing t cs cap
  /-- without change outputs it claims no more than it needs -/
  thrifty : g.Thrifty t cs
  /-- its oldest change output is from an opening -/
  founded : g.Founded t cs
  /-- change outputs are worth something -/
  paying : g.run.draft.Paying
  /-- in the first pass, a single change output comes with an opening -/
  lone : g.growing = true → g.run.draft.change.size = 1 →
    ∃ opening later amount, g.Lone t cs opening later amount

/-- What can be said of every run on a pool of words can be said at its start. -/
theorem Stage.steady_start (cap : Nat) (h : Holding) (ht : t.Accepted) :
    Stage.Steady t h.pool.available cap ⟨true, cap, .start t h⟩ where
  sparing := ⟨Nat.add_le_add_right (Draft.size_seed_le t) _, .inl (Stage.adding_start t _ cap h)⟩
  thrifty := Stage.thrifty_of_unclaimed (Draft.claimed_seed t)
  founded := Stage.founded_start t _ cap h
  paying := Draft.paying_seed ht.initial_pos ht.first_pos
  lone _ hone := ⟨_, _, _, Stage.lone_start hone⟩

/-- Every turn leaves it true. -/
theorem Turn.steady (ht : t.Accepted) (hfits : t.Fits cs.length (t.mostSeeds + cs.length + 1))
    (hwords : ∀ c ∈ cs, c.satoshis ≤ Word.max64) (hsplits : g.Splits cs)
    (h : g.Steady t cs cap) (hturn : Turn Holding.allocator t g g') : g'.Steady t cs cap := by
  have hseeds : 1 ≤ t.mostSeeds := by
    rw [Terms.mostSeeds]
    omega
  have hfits₁ : t.Fits cs.length 1 := hfits.anti (Nat.le_refl _) (by omega)
  refine ⟨hturn.sparing hfits hwords hsplits h.sparing, hturn.thrifty hfits₁ hsplits h.thrifty,
    hturn.founded hsplits h.founded, hturn.paying ht h.paying, ?_⟩
  cases hturn with
  | @claim growing rounds s c source hshort hreply =>
    rintro rfl hone
    have hroom : 1 ≤ cs.length := by
      obtain ⟨-, -, -, hroom⟩ := hsplits.of_claim_some hreply
      omega
    rcases s.draft.accept_cases t true c with ⟨heq, -⟩ | ⟨-, hover, -, heq⟩
    · simp only [Progress.claimed, heq] at hone
      obtain ⟨opening, later, amount, hlone⟩ := h.lone rfl hone
      exact ⟨_, _, _, hlone.claimed (hfits.anti (Nat.le_refl _) (by omega)) hwords hsplits hshort
        hreply heq⟩
    · simp only [Progress.claimed, heq] at hone
      have hnone : s.draft.change.size = 0 := Nat.succ.inj hone
      exact ⟨_, _, _, h.founded.lone_claimed h.thrifty hsplits hnone hshort hreply hover heq⟩
  | starve hshort hchange hreply hback =>
    intro hgrowing
    cases hgrowing

/-- A run that never gives up its last change output. -/
structure Stage.Keeping (t : Terms) (cs : List Candidate) (g : Stage Holding NotHeld) : Prop where
  /-- in later passes there is one left -/
  kept : g.growing = false → g.run.draft.change.size ≠ 0
  /-- and if there was none at the start, all there are can be paid for -/
  payable : g.growing = false → (Draft.seed t).change.size = 0 →
    t.Payable cs g.run.draft.change.items

/-- At the start the first pass is still to be made. -/
theorem Stage.keeping_start (t : Terms) (cs : List Candidate) (cap : Nat) (h : Holding) :
    Stage.Keeping t cs ⟨true, cap, .start t h⟩ where
  kept hlater := nomatch hlater
  payable hlater _ := nomatch hlater

/-- A run starts with a change output if the net count asks for one, or if the fixed inputs are
worth more than the transaction costs. -/
theorem Draft.size_seed_ne_zero (h : 0 < t.netCount.getD 0 ∨ t.costFor 0 0 < t.inputTotal) :
    (seed t).change.size ≠ 0 := by
  rw [seed]
  split
  · rename_i hcount
    have hexcess : 0 < blank.excess t := by
      rw [excess_eq_margin rfl, Terms.margin]
      change 0 < ((t.inputTotal + 0 : Nat) : Int) - t.costFor 0 0
      omega
    rw [if_pos hexcess]
    exact Nat.succ_ne_zero _
  · rw [Tally.size_eq, Tally.items_ofList, List.length_append]
    exact Nat.succ_ne_zero _

/-- A run that starts without change outputs does not count on more than one. -/
theorem Draft.mostSeeds_eq_one (hnone : (seed t).change.size = 0) : t.mostSeeds = 1 := by
  rw [seed] at hnone
  split at hnone
  · rename_i hcount
    rw [Terms.mostSeeds]
    omega
  · rw [Tally.size_eq, Tally.items_ofList, List.length_append] at hnone
    exact absurd hnone (Nat.succ_ne_zero _)

section
variable {cs' paying : List Candidate} {c : Candidate}

/-- Where a run starts with change outputs, a pool that affords one affords the oldest. -/
theorem Terms.Affords.payable {x : Nat} (h : t.Affords cs paying amount)
    (hcons : cs'.Perm (c :: cs)) (hseeds : (Draft.seed t).change.size ≠ 0)
    (hstarts : t.Starts cs' opening x) : t.Payable cs' [x] := by
  obtain ⟨opening', hstarts'⟩ := h.starts
  have hsame : x = amount := by
    cases hstarts with
    | opened hnone => exact absurd hnone hseeds
    | seeded =>
      cases hstarts' with
      | seeded => rfl
      | opened hnone => exact absurd hnone hseeds
  have hmore : cs.Subperm cs' := hcons.subperm_left.2 (List.sublist_cons_self c cs).subperm
  exact ⟨paying, h.subperm.trans hmore, hsame ▸ h.pays⟩

/-- A later pass only starves if no selection pays for its change outputs. -/
theorem Stage.Steady.not_payable (h : g.Steady t cs cap) (hsplits : g.Splits cs)
    (hlater : g.growing = false) (hshort : g.run.draft.excess t < 0) {source : Holding}
    (hreply : Holding.allocator.claim (g.run.draft.ask t) g.run.source = (.ok none, source)) :
    ¬ t.Payable cs g.run.draft.change.items := by
  obtain ⟨growing, rounds, s⟩ := g
  subst hlater
  rcases h.sparing.passes with hadding | hdropping
  · cases hadding.growing
  · exact hdropping.not_payable (hsplits.perm_of_claim_none hreply).2 hshort

section
variable (haffords : t.Affords cs paying amount) (hcons : cs'.Perm (c :: cs)) (hnodup : cs'.Nodup)
variable (hfits : t.Fits cs'.length 1)
variable (hlevel : (Draft.seed t).change.size ≠ 0 ∨ t.Level cs'.length)
include haffords hcons hnodup hfits hlevel

/-- **If a pool with one candidate less affords a change output, no pass starves with a single
one.** A first pass would be stranded with it, and a later one can be paid for. -/
theorem Stage.Keeping.size_ne_one (h : g.Keeping t cs') (hsteady : g.Steady t cs' cap)
    (hsplits : g.Splits cs') (hshort : g.run.draft.excess t < 0) {source : Holding}
    (hreply : Holding.allocator.claim (g.run.draft.ask t) g.run.source = (.ok none, source)) :
    g.run.draft.change.size ≠ 1 := by
  intro hone
  cases hpass : g.growing with
  | true =>
    obtain ⟨opening, later, x, hlone⟩ := hsteady.lone hpass hone
    exact (hlone.stranded hsplits hshort hreply).not_affords hcons hnodup hfits hlevel haffords
  | false =>
    have hunpaid := hsteady.not_payable hsplits hpass hshort hreply
    have hseeds : (Draft.seed t).change.size ≠ 0 := fun hnone => hunpaid (h.payable hpass hnone)
    obtain ⟨x, hx⟩ := List.length_eq_one_iff.1 ((Tally.size_eq _).symm.trans hone)
    obtain ⟨opening, hstarts⟩ := hsteady.founded.oldest x (by rw [hx]; rfl)
    exact hunpaid (hx ▸ haffords.payable hcons hseeds hstarts)

/-- If a pool with one candidate less affords a change output, a run never gives up its last one. -/
theorem Turn.keeping (hsplits : g.Splits cs') (hsteady : g.Steady t cs' cap) (h : g.Keeping t cs')
    (hturn : Turn Holding.allocator t g g') : g'.Keeping t cs' := by
  cases hturn with
  | @claim growing rounds s x source hshort hreply =>
    have hsame :
        growing = false → (s.claimed t growing x source).draft.change = s.draft.change := by
      rintro rfl
      rfl
    refine ⟨fun hlater => ?_, fun hlater hnone => ?_⟩
    · rw [hsame hlater]
      exact h.kept hlater
    · rw [hsame hlater]
      exact h.payable hlater hnone
  | @starve growing rounds s s' source hshort hchange hreply hback =>
    have hsize := change_starve (s := s.answered t (.ok none) source) Holding.allocator hback
    have hitems := items_starve (s := s.answered t (.ok none) source) Holding.allocator hback
    have hmore : s.draft.change.size ≠ 1 :=
      h.size_ne_one haffords hcons hnodup hfits hlevel hsteady hsplits hshort hreply
    refine ⟨fun _ => ?_, fun _ hnone => ?_⟩
    · change s'.starve.draft.change.size = s.draft.change.size - 1 at hsize
      change s'.starve.draft.change.size ≠ 0
      omega
    · change s'.starve.draft.change.items = s.draft.change.items.tail at hitems
      change t.Payable cs' s'.starve.draft.change.items
      rw [hitems]
      cases hpass : growing with
      | true =>
        rcases hsteady.sparing.passes with hadding | hdropping
        · refine hadding.added.resolve_left fun hfew => ?_
          rw [Draft.mostSeeds_eq_one hnone] at hfew
          change s.draft.change.size ≤ 1 at hfew
          omega
        · cases hpass.symm.trans hdropping.growing
      | false =>
        have hunpaid := hsteady.not_payable hsplits hpass hshort hreply
        exact absurd (h.payable hpass hnone) hunpaid

end

end

/-- Whatever turns a run takes, its candidates stay divided and it stays steady. -/
theorem Turns.steady {h : Holding} (hp : h.pool.Distinct) (ht : t.Accepted)
    (hfits : t.Fits h.pool.available.length (t.mostSeeds + h.pool.available.length + 1))
    (hwords : ∀ c ∈ h.pool.available, c.satoshis ≤ Word.max64)
    (hturns : Turns Holding.allocator t ⟨true, cap, .start t h⟩ g) :
    g.Splits h.pool.available ∧ g.Steady t h.pool.available cap :=
  hturns.keeps (P := fun g => g.Splits h.pool.available ∧ g.Steady t h.pool.available cap)
    (fun _ _ hg hturn => ⟨hturn.splits hg.1, hturn.steady ht hfits hwords hg.1 hg.2⟩)
    ⟨splits_start t cap hp, Stage.steady_start cap h ht⟩

/-- **A run that meets the conditions has no excess without change outputs.** -/
theorem Turns.excess_le {h : Holding} {c : Candidate} {paying : List Candidate}
    (hp : h.pool.Distinct) (ht : t.Accepted)
    (hfits : t.Fits h.pool.available.length (t.mostSeeds + h.pool.available.length + 1))
    (hwords : ∀ c ∈ h.pool.available, c.satoshis ≤ Word.max64)
    (haffords : t.Affords cs paying amount) (hcons : h.pool.available.Perm (c :: cs))
    (hlevel : (Draft.seed t).change.size ≠ 0 ∨ t.Level h.pool.available.length)
    (hturns : Turns Holding.allocator t ⟨true, cap, .start t h⟩ g)
    (hnone : g.run.draft.change.size = 0) : g.run.draft.excess t ≤ 0 := by
  have hkeeping : g.Keeping t h.pool.available := by
    have hfits₁ : t.Fits h.pool.available.length 1 := hfits.anti (Nat.le_refl _) (by omega)
    have hsteady := hturns.keeps
      (P := fun g => (g.Splits h.pool.available ∧ g.Steady t h.pool.available cap) ∧
        g.Keeping t h.pool.available)
      (fun _ _ hg hturn => ⟨⟨hturn.splits hg.1.1, hturn.steady ht hfits hwords hg.1.1 hg.1.2⟩,
        hturn.keeping haffords hcons hp.nodup_available hfits₁ hlevel hg.1.1 hg.1.2 hg.2⟩)
      ⟨⟨splits_start t cap hp, Stage.steady_start cap h ht⟩,
        Stage.keeping_start t _ cap h⟩
    exact hsteady.2
  cases hpass : g.growing with
  | true => exact ((hturns.steady hp ht hfits hwords).2.founded.opening hpass hnone).2.2
  | false => exact absurd hnone (hkeeping.kept hpass)

/-- **What a success shows.** The inputs of a plan pay for the transaction without change; and if
the plan has change outputs, they pay for a first one. -/
theorem exists_paying_of_generate {h : Holding} {entropy : Nat → Float} {p : Plan}
    (hp : h.pool.Distinct)
    (hfits : t.Fits h.pool.available.length (t.mostSeeds + h.pool.available.length + 1))
    (hwords : ∀ c ∈ h.pool.available, c.satoshis ≤ Word.max64)
    (hok : (generate Holding.allocator entropy cap t h).outcome = .ok p) :
    ∃ paying : List Candidate, paying.Subperm h.pool.available ∧ 0 ≤ t.margin paying ∧
      (p.outputs ≠ [] → ∃ amount, t.Affords h.pool.available paying amount) := by
  obtain ⟨hcheck, g, amounts, draws, hturns, hcovered, -, hfinish, hreport⟩ := generate_ok hok
  rw [hreport] at hok
  obtain rfl := Except.ok.inj hok
  obtain ⟨hsplits, hsteady⟩ :=
    hturns.steady hp ((Terms.check_eq_ok_iff t).1 hcheck) hfits hwords
  have hsubperm : g.run.draft.claimed.items.Subperm h.pool.available :=
    hsplits.perm.subperm_left.1 (List.sublist_append_left _ _).subperm
  have hfits' : t.Fits g.run.draft.claimed.items.length g.run.draft.change.items.length := by
    have houtputs : g.run.draft.change.size ≤ t.mostSeeds + h.pool.available.length :=
      Nat.le_trans (Nat.le_add_right _ _) hsteady.sparing.outlook_le
    rw [← Tally.size_eq, ← Tally.size_eq]
    exact hfits.anti (Nat.le.intro hsplits.size_le) (Nat.le_succ_of_le houtputs)
  rw [Draft.excess_eq_surplus] at hcovered
  refine ⟨g.run.draft.claimed.items, hsubperm, ?_, fun houtputs => ?_⟩
  · rw [← Terms.surplus_nil]
    exact Int.le_trans hcovered (Terms.surplus_le_of_suffix (List.nil_suffix) hfits')
  · have hitems : g.run.draft.change.items ≠ [] := by
      intro hnone
      have hlength := Draft.length_of_finish hfinish
      rw [Tally.items_eq_nil_iff.1 hnone, List.length_eq_zero_iff] at hlength
      exact houtputs (by rw [Draft.plan, hlength]; rfl)
    have hlast := List.getLast?_eq_some_getLast hitems
    refine ⟨_, hsteady.founded.oldest _ hlast, hsubperm, ?_, hsteady.paying _ ?_⟩
    · have hsuffix : [g.run.draft.change.items.getLast hitems] <:+ g.run.draft.change.items :=
        ⟨_, List.dropLast_append_getLast hitems⟩
      exact Int.le_trans hcovered (Terms.surplus_le_of_suffix hsuffix hfits')
    · exact List.getLast_mem hitems

/-- A run is not short of money if some selection pays for the transaction without change. If it
reports a want of funds, it has an excess and no change output to take it. -/
theorem surplus_of_generate {h : Holding} {entropy : Nat → Float} {required shortfall : Nat}
    {paying : List Candidate} (hp : h.pool.Distinct)
    (hfits : t.Fits h.pool.available.length (t.mostSeeds + h.pool.available.length + 1))
    (hwords : ∀ c ∈ h.pool.available, c.satoshis ≤ Word.max64)
    (hsub : paying.Subperm h.pool.available) (hpays : 0 ≤ t.margin paying)
    (hshort : (generate Holding.allocator entropy cap t h).outcome
      = .error (.insufficientFunds required shortfall)) :
    ∃ g, Turns Holding.allocator t ⟨true, cap, .start t h⟩ g ∧ g.run.draft.change.size = 0 ∧
      0 < g.run.draft.excess t ∧ shortfall = t.firstSatoshis ∧
      required = t.costFor g.run.draft.claimed.items.length 0 ∧
      g.run.draft.claimed.items.Subperm h.pool.available := by
  obtain ⟨hcheck, g, hturns, hnone, rfl, hends⟩ := generate_insufficient hshort
  obtain ⟨hsplits, hsteady⟩ :=
    hturns.steady hp ((Terms.check_eq_ok_iff t).1 hcheck) hfits hwords
  rcases hends with ⟨hover, rfl⟩ | ⟨hneg, -, source, hreply⟩
  · have hroom : t.Fits g.run.draft.claimed.size 0 :=
      hfits.anti (Nat.le.intro hsplits.size_le) (Nat.zero_le _)
    refine ⟨g, hturns, hnone, hover, rfl, ?_, ?_⟩
    · rw [Draft.required_eq hnone hroom, Tally.size_eq]
    · exact hsplits.perm.subperm_left.1 (List.sublist_append_left _ _).subperm
  · obtain ⟨-, hall⟩ := hsplits.perm_of_claim_none hreply
    have := hsteady.thrifty.margin_neg hsplits hnone hneg hall hsub
    omega

/-- **More money hardly ever hurts.** Suppose a run succeeds, and the same candidates and one more
are available to another session. If the plan has a change output, then a run through that session
does not report a want of funds, and with enough rounds it succeeds as well; provided that it starts
with a change output, or that the number of inputs is stated in as many bytes whatever is claimed.
In any case, if it does report a want of funds, it found enough money, but no change output to take
what is left. -/
theorem generate_windfall (cs cs' : List Candidate) (history history' : List Pool.Step)
    (name name' : String) (h h' : Holding) (c : Candidate) (entropy entropy' : Nat → Float)
    (cap cap' : Nat) (t : Terms) (p : Plan)
    (hname : ((Floor.ofList cs).after history).holding? name = some h)
    (hname' : ((Floor.ofList cs').after history').holding? name' = some h')
    (havailable : h'.pool.available.Perm (c :: h.pool.available))
    (hwords : ∀ d ∈ h'.pool.available, d.satoshis ≤ Word.max64)
    (hfits : t.Fits h'.pool.available.length (t.mostSeeds + h'.pool.available.length + 1))
    (hok : (generate Holding.allocator entropy cap t h).outcome = .ok p) :
    (p.outputs ≠ [] → (0 < t.netCount.getD 0 ∨ t.costFor 0 0 < t.inputTotal ∨
        t.Level h'.pool.available.length) →
      (∀ required shortfall, (generate Holding.allocator entropy' cap' t h').outcome
        ≠ .error (.insufficientFunds required shortfall)) ∧
      ((h'.pool.available.length + 1) * (t.mostSeeds + 1) ≤ cap' →
        ∃ p', (generate Holding.allocator entropy' cap' t h').outcome = .ok p')) ∧
    ∀ required shortfall, (generate Holding.allocator entropy' cap' t h').outcome
        = .error (.insufficientFunds required shortfall) →
      shortfall = t.firstSatoshis ∧ ∃ es : List Candidate, es.Subperm h'.pool.available ∧
        required = t.costFor es.length 0 ∧
        t.costFor es.length 0 < t.inputTotal + totalOf (es.map (·.satoshis)) := by
  have hp : h.pool.Distinct := Floor.distinct_of_holding? hname
  have hp' : h'.pool.Distinct := Floor.distinct_of_holding? hname'
  have hcheck : t.check = .ok () := (generate_ok hok).1
  have hless : h.pool.available.length ≤ h'.pool.available.length := by
    rw [havailable.length_eq]
    exact Nat.le_succ _
  have hmore : h.pool.available.Subperm h'.pool.available :=
    havailable.subperm_left.2 (List.sublist_cons_self c _).subperm
  obtain ⟨paying, hpaying, hmargin, haffords⟩ := exists_paying_of_generate hp
    (hfits.anti hless (by omega)) (fun d hd => hwords d (hmore.subset hd)) hok
  refine ⟨fun houtputs hstart => ?_, fun required shortfall hshort => ?_⟩
  · have hnever : ∀ required shortfall, (generate Holding.allocator entropy' cap' t h').outcome
        ≠ .error (.insufficientFunds required shortfall) := by
      intro required shortfall hshort
      obtain ⟨g, hturns, hnone, hover, -⟩ :=
        surplus_of_generate hp' hfits hwords (hpaying.trans hmore) hmargin hshort
      obtain ⟨amount, haffords⟩ := haffords houtputs
      have hlevel : (Draft.seed t).change.size ≠ 0 ∨ t.Level h'.pool.available.length := by
        rw [← or_assoc] at hstart
        exact hstart.imp_left Draft.size_seed_ne_zero
      have hexcess := hturns.excess_le hp' ((Terms.check_eq_ok_iff t).1 hcheck) hfits hwords
        haffords havailable hlevel hnone
      omega
    refine ⟨hnever, fun hcap => ?_⟩
    rcases generate_of_le_cap entropy' hp' hcheck hwords hfits hcap with hok' | ⟨_, _, hshort⟩
    · exact hok'
    · exact absurd hshort (hnever _ _)
  · obtain ⟨g, -, hnone, hover, hfirst, hrequired, hsub⟩ :=
      surplus_of_generate hp' hfits hwords (hpaying.trans hmore) hmargin hshort
    refine ⟨hfirst, _, hsub, hrequired, ?_⟩
    rw [Draft.excess_eq_margin hnone, Terms.margin] at hover
    omega

/-- A payment from two candidates, and from the same two and another one. -/
theorem generate_windfall_oneMore :
    ((Floor.ofList [⟨1, 700⟩, ⟨4, 700⟩]).after [.openSession "run"]).holding? "run"
      = some (Pool.ofList [⟨1, 700⟩, ⟨4, 700⟩]).openSession ∧
    ((Floor.ofList [⟨1, 700⟩, ⟨4, 700⟩]).after
        [.insert ⟨5, 690⟩, .openSession "run"]).holding? "run"
      = some (Pool.ofList [⟨1, 700⟩, ⟨4, 700⟩, ⟨5, 690⟩]).openSession ∧
    (generate Holding.allocator (fun _ => 0) 9 (.payment 100 1000)
        (Pool.ofList [⟨1, 700⟩, ⟨4, 700⟩]).openSession).outcome
      = .ok ⟨[⟨1, 700⟩, ⟨4, 700⟩], [⟨362, 25⟩], 374, 38, 100⟩ ∧
    (Terms.payment 100 1000).Fits 3 5 ∧ (Terms.payment 100 1000).Level 3 ∧
    (∀ required shortfall, (generate Holding.allocator (fun _ => 1) 9 (.payment 100 1000)
        (Pool.ofList [⟨1, 700⟩, ⟨4, 700⟩, ⟨5, 690⟩]).openSession).outcome
      ≠ .error (.insufficientFunds required shortfall)) ∧
    ∃ p', (generate Holding.allocator (fun _ => 1) 9 (.payment 100 1000)
        (Pool.ofList [⟨1, 700⟩, ⟨4, 700⟩, ⟨5, 690⟩]).openSession).outcome = .ok p' := by
  have hok : (generate Holding.allocator (fun _ => 0) 9 (.payment 100 1000)
        (Pool.ofList [⟨1, 700⟩, ⟨4, 700⟩]).openSession).outcome
      = .ok ⟨[⟨1, 700⟩, ⟨4, 700⟩], [⟨362, 25⟩], 374, 38, 100⟩ := by
    set_option maxRecDepth 8000 in rfl
  obtain ⟨hwindfall, -⟩ := generate_windfall [⟨1, 700⟩, ⟨4, 700⟩] [⟨1, 700⟩, ⟨4, 700⟩]
    [.openSession "run"] [.insert ⟨5, 690⟩, .openSession "run"] "run" "run"
    (Pool.ofList [⟨1, 700⟩, ⟨4, 700⟩]).openSession
    (Pool.ofList [⟨1, 700⟩, ⟨4, 700⟩, ⟨5, 690⟩]).openSession ⟨5, 690⟩ (fun _ => 0) (fun _ => 1)
    9 9 (.payment 100 1000) _ (by decide) (by decide) (by decide) (by decide) (by decide) hok
  obtain ⟨hnever, hsucceeds⟩ := hwindfall (by decide) (.inr (.inr (by decide)))
  exact ⟨by decide, by decide, hok, by decide, by decide, hnever, hsucceeds (by decide)⟩

/-- The terms of a payment to which a given input contributes. -/
def Terms.withFixedInput : Terms := { Terms.payment 1000 1000 with fixedInputs := [⟨1182, 107⟩] }

/-- The terms of a transaction that is given nearly as many inputs as one byte can count. -/
def Terms.with251Inputs : Terms where
  feeModel := ⟨10000⟩
  fixedInputs := ⟨103009, 0⟩ :: List.replicate 250 ⟨0, 0⟩
  fixedOutputs := []
  initialSatoshis := 1
  firstSatoshis := 1
  lockingScript := 25
  unlockingScript := 107
  netCount := none
  randomValues := none
  quiet := true

set_option maxRecDepth 8000 in
/-- **More money may hurt.** Two candidates fit a payment; a third one pays for it alone, with a
satoshi left over, and there is not enough for a change output to take it. And one candidate pays
for a change output; with a smaller one beside it the run opens with that, and once both are claimed
the number of inputs takes three bytes, which is more than they can pay for. -/
theorem generate_insufficient_with_more :
    (Terms.withFixedInput.check = .ok () ∧
      (generate Holding.allocator (fun _ => 0) defaultRounds .withFixedInput
        (Pool.ofList [⟨1, 153⟩, ⟨2, 153⟩]).openSession).outcome
          = .ok ⟨[⟨1, 153⟩, ⟨2, 153⟩], [], 488, 488, 1000⟩ ∧
      (generate Holding.allocator (fun _ => 0) defaultRounds .withFixedInput
        (Pool.ofList [⟨1, 153⟩, ⟨2, 153⟩, ⟨3, 159⟩]).openSession).outcome
          = .error (.insufficientFunds 1340 285)) ∧
    Terms.with251Inputs.check = .ok () ∧ ¬ Terms.with251Inputs.Level 2 ∧
      (generate Holding.allocator (fun _ => 0) defaultRounds .with251Inputs
        (Pool.ofList [⟨2, 1826⟩]).openSession).outcome
          = .ok ⟨[⟨2, 1826⟩], [⟨5, 25⟩], 10483, 104830, 10000⟩ ∧
      (generate Holding.allocator (fun _ => 0) defaultRounds .with251Inputs
        (Pool.ofList [⟨2, 1826⟩, ⟨1, 1482⟩]).openSession).outcome
          = .error (.insufficientFunds 104490 1) :=
  ⟨⟨rfl, rfl, rfl⟩, rfl, by decide, rfl, rfl⟩

end CoinPurse
