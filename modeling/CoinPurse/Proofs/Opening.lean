import CoinPurse.Proofs.Margin
import CoinPurse.Proofs.Selection
import CoinPurse.Proofs.Split

/-!
# How the first change output comes about

A run that starts without change outputs claims candidates until it is not short any more, and if
that leaves an excess, a first change output takes part of it. What it has claimed by then is an
*opening* (`Terms.Opens`). Each claim answers a request that depends on the claims before it and on
nothing else, so of two openings of one pool either goes on where the other ends; and none goes on
where there is an excess (`Terms.Opens.unique`). Candidates that an opening does not claim may as
well not be there (`Terms.Opens.of_cons`).

A run that starts with change outputs has one of the first amount. Either way the oldest change
output of a run is fixed by the terms and the candidates (`Terms.Starts`), and it stays what it is
for as long as the run has any (`Turn.founded`).
-/

namespace CoinPurse

namespace Draft

/-- A draft with claims, the latest first, and no change output. -/
def bare (cs : List Candidate) : Draft := ⟨.ofList cs, .empty⟩

/-- A draft without change outputs consists of its claims. -/
theorem eq_bare {d : Draft} (h : d.change.size = 0) : d = bare d.claimed.items := by
  obtain ⟨claimed, change⟩ := d
  obtain rfl : change = .empty := Tally.ext_items (Tally.items_eq_nil_iff.2 h)
  exact congrArg (fun claimed => Draft.mk claimed .empty) (Tally.ext_items rfl)

variable {t : Terms}

/-- What a claim leaves, in a draft without change outputs, is a margin. -/
theorem excess_claim_eq_margin {d : Draft} (h : d.change.size = 0) (c : Candidate) :
    (d.claim c).excess t = t.margin (c :: d.claimed.items) :=
  excess_eq_margin (d := d.claim c) h

/-- The first change output takes what the claims leave, up to the first amount. -/
theorem items_addChange_claim {d : Draft} (h : d.change.size = 0) (c : Candidate) :
    ((d.claim c).addChange t).change.items
      = [min (Word.clamp (t.margin (c :: d.claimed.items))) t.firstSatoshis] := by
  have hfirst : (d.claim c).nextAmount t = t.firstSatoshis := if_pos h
  rw [addChange, Tally.items_push, excess_claim_eq_margin h, hfirst, change_claim,
    Tally.items_eq_nil_iff.2 h]

/-- A run that starts without change outputs starts with nothing, and has no excess. -/
theorem seed_of_size_eq_zero (h : (seed t).change.size = 0) :
    seed t = blank ∧ blank.excess t ≤ 0 := by
  rw [seed] at h ⊢
  split at h
  · split at h
    · exact absurd h (Nat.succ_ne_zero _)
    · rename_i hexcess
      exact ⟨if_neg hexcess, Int.not_lt.1 hexcess⟩
  · rw [Tally.size_eq, Tally.items_ofList, List.length_append] at h
    exact absurd h (Nat.succ_ne_zero _)

/-- The oldest change output that a run starts from is of the first amount. -/
theorem getLast?_seed {amount : Nat} (h : (seed t).change.items.getLast? = some amount) :
    amount = t.firstSatoshis := by
  rw [seed] at h
  split at h
  · split at h
    · exact (Option.some.inj h).symm
    · cases h
  · rw [Tally.items_ofList, List.getLast?_append] at h
    exact (Option.some.inj h).symm

end Draft

namespace Terms

variable {t : Terms} {c : Candidate} {cs ds opening opening' : List Candidate}

/-- A run without change outputs begins with a list of claims, the latest first, if each was made
while those before it were short. -/
inductive Opens (t : Terms) (cs : List Candidate) : List Candidate → Prop where
  /-- at first nothing is claimed -/
  | nil : Opens t cs []
  /-- while the claims are short, the rest of the candidates is asked for another one -/
  | claim {opening rest : List Candidate} {c : Candidate} (hopens : Opens t cs opening)
      (hshort : t.margin opening < 0) (hrest : (opening ++ rest).Perm cs)
      (hchoose : Candidate.choose rest ((Draft.bare opening).ask t) = some c) :
      Opens t cs (c :: opening)

/-- The order of the candidates does not matter. -/
theorem Opens.perm (hperm : cs.Perm ds) (h : t.Opens cs opening) : t.Opens ds opening := by
  induction h with
  | nil => exact .nil
  | claim _ hshort hrest hchoose ih => exact .claim ih hshort (hrest.trans hperm) hchoose

/-- Openings of one length are the same. -/
theorem Opens.eq_of_length_eq (h : t.Opens cs opening) (h' : t.Opens cs opening')
    (hlength : opening.length = opening'.length) : opening = opening' := by
  induction h generalizing opening' with
  | nil => exact (List.length_eq_zero_iff.1 hlength.symm).symm
  | @claim before rest c hbefore hshort hrest hchoose ih =>
    cases h' with
    | nil => cases hlength
    | @claim before' rest' c' hbefore' hshort' hrest' hchoose' =>
      obtain rfl := ih hbefore' (Nat.succ.inj hlength)
      have hleft : rest.Perm rest' :=
        (List.perm_append_left_iff before).1 (hrest.trans hrest'.symm)
      rw [Candidate.choose_perm hleft, hchoose'] at hchoose
      rw [Option.some.inj hchoose]

/-- Where an opening goes on, it is short. -/
theorem Opens.short_of_length_lt (h : t.Opens cs opening) (h' : t.Opens cs opening')
    (hless : opening.length < opening'.length) : t.margin opening < 0 := by
  induction h' with
  | nil => exact absurd hless (Nat.not_lt_zero _)
  | claim hbefore hshort _ _ ih =>
    rcases Nat.lt_succ_iff_lt_or_eq.1 hless with hless | hsame
    · exact ih hless
    · rwa [h.eq_of_length_eq hbefore hsame]

/-- **There is one opening at most that leaves an excess.** -/
theorem Opens.unique (h : t.Opens cs opening) (h' : t.Opens cs opening')
    (hover : 0 < t.margin opening) (hover' : 0 < t.margin opening') : opening = opening' := by
  rcases Nat.lt_trichotomy opening.length opening'.length with hless | hsame | hmore
  · have := h.short_of_length_lt h' hless
    omega
  · exact h.eq_of_length_eq h' hsame
  · have := h'.short_of_length_lt h hmore
    omega

/-- **A candidate that is not claimed may as well not be there.** -/
theorem Opens.of_cons (h : t.Opens (c :: cs) opening) (hc : c ∉ opening) : t.Opens cs opening := by
  induction h with
  | nil => exact .nil
  | @claim opening rest d _ hshort hrest hchoose ih =>
    obtain ⟨hother, hc⟩ := not_or.1 (mt List.mem_cons.2 hc)
    have hleft : c ∈ rest := by
      have hmem : c ∈ opening ++ rest := hrest.symm.subset (List.mem_cons_self ..)
      exact (List.mem_append.1 hmem).resolve_left hc
    have hsplit := List.perm_cons_erase hleft
    have hothers : (opening ++ rest.erase c).Perm cs :=
      (List.perm_middle.symm.trans ((hsplit.symm.append_left opening).trans hrest)).cons_inv
    have hd : d ∈ rest.erase c :=
      (List.mem_erase_of_ne (Ne.symm hother)).2 (Candidate.choose_cases hchoose).1
    exact .claim (ih hc) hshort hothers
      (Candidate.choose_of_subset List.erase_subset hchoose hd)

/-- A run on these candidates has a first change output of this amount, once it has claimed this
opening. -/
inductive Starts (t : Terms) (cs : List Candidate) : List Candidate → Nat → Prop where
  /-- there is a change output from the start -/
  | seeded (hseeds : (Draft.seed t).change.size ≠ 0) : Starts t cs [] t.firstSatoshis
  /-- there is none, and the first one takes part of what an opening leaves -/
  | opened {opening : List Candidate} (hseeds : (Draft.seed t).change.size = 0)
      (hopens : t.Opens cs opening) (hover : 0 < t.margin opening) :
      Starts t cs opening (min (Word.clamp (t.margin opening)) t.firstSatoshis)

variable {amount amount' : Nat}

/-- The order of the candidates does not matter. -/
theorem Starts.perm (hperm : cs.Perm ds) (h : t.Starts cs opening amount) :
    t.Starts ds opening amount := by
  cases h with
  | seeded hseeds => exact .seeded hseeds
  | opened hseeds hopens hover => exact .opened hseeds (hopens.perm hperm) hover

/-- **The first change output is fixed** by the terms and the candidates. -/
theorem Starts.unique (h : t.Starts cs opening amount) (h' : t.Starts cs opening' amount') :
    amount = amount' := by
  cases h with
  | seeded hseeds =>
    cases h' with
    | seeded => rfl
    | opened hseeds' => exact absurd hseeds' hseeds
  | opened hseeds hopens hover =>
    cases h' with
    | seeded hseeds' => exact absurd hseeds hseeds'
    | opened _ hopens' hover' => rw [hopens.unique hopens' hover hover']

/-- The first change output is the same without a candidate that is not claimed for it. -/
theorem Starts.of_cons (h : t.Starts (c :: cs) opening amount) (hc : c ∉ opening) :
    t.Starts cs opening amount := by
  cases h with
  | seeded hseeds => exact .seeded hseeds
  | opened hseeds hopens hover => exact .opened hseeds (hopens.of_cons hc) hover

/-- The oldest change output is worth no more than the opening leaves. -/
theorem Starts.le_margin (h : t.Starts cs opening amount) (hclaims : opening ≠ []) :
    (amount : Int) ≤ t.margin opening := by
  cases h with
  | seeded => exact absurd rfl hclaims
  | opened _ _ hover =>
    have := Nat.min_le_left (Word.clamp (t.margin opening)) t.firstSatoshis
    simp only [Word.clamp] at this ⊢
    omega

end Terms

/-- A run that has its oldest change output from an opening. -/
structure Stage.Founded (t : Terms) (cs : List Candidate) (g : Stage Holding NotHeld) : Prop where
  /-- as long as the first pass has no change output, it is opening, and leaves no excess -/
  opening : g.growing = true → g.run.draft.change.size = 0 →
    (Draft.seed t).change.size = 0 ∧ t.Opens cs g.run.draft.claimed.items ∧
      g.run.draft.excess t ≤ 0
  /-- the oldest change output is the first there was -/
  oldest : ∀ amount, g.run.draft.change.items.getLast? = some amount →
    ∃ opening, t.Starts cs opening amount

section
variable {t : Terms} {cs : List Candidate} {g g' : Stage Holding NotHeld}

/-- At its start a run has its oldest change output, if any, from an opening. -/
theorem Stage.founded_start (t : Terms) (cs : List Candidate) (cap : Nat) (h : Holding) :
    Stage.Founded t cs ⟨true, cap, .start t h⟩ where
  opening _ hnone := by
    obtain ⟨hblank, hexcess⟩ := Draft.seed_of_size_eq_zero hnone
    refine ⟨hnone, ?_, ?_⟩
    · rw [Progress.start, Draft.claimed_seed]
      exact .nil
    · rw [Progress.start, hblank]
      exact hexcess
  oldest amount hlast := by
    obtain rfl := Draft.getLast?_seed hlast
    refine ⟨[], .seeded fun hnone => ?_⟩
    have hitems : (Draft.seed t).change.items = [] := Tally.items_eq_nil_iff.2 hnone
    rw [Progress.start, hitems] at hlast
    cases hlast

/-- A claim of a run without change outputs goes on with its opening. -/
theorem Stage.Founded.opens_claimed {rounds : Nat} {s : Progress Holding NotHeld} {c : Candidate}
    {source : Holding} (h : Stage.Founded t cs ⟨true, rounds + 1, s⟩)
    (hsplits : Stage.Splits cs ⟨true, rounds + 1, s⟩) (hnone : s.draft.change.size = 0)
    (hshort : s.draft.excess t < 0)
    (hreply : Holding.allocator.claim (s.draft.ask t) s.source = (.ok (some c), source)) :
    (Draft.seed t).change.size = 0 ∧ t.Opens cs (c :: s.draft.claimed.items) := by
  obtain ⟨hseeds, hopens, -⟩ := h.opening rfl hnone
  obtain ⟨hchoose, -⟩ := hsplits.of_claim_some hreply
  rw [Draft.excess_eq_margin hnone] at hshort
  have hask : s.draft.ask t = (Draft.bare s.draft.claimed.items).ask t :=
    congrArg (Draft.ask t) (Draft.eq_bare hnone)
  rw [hask] at hchoose
  exact ⟨hseeds, .claim hopens hshort hsplits.perm hchoose⟩

/-- If a claim leaves an excess, the opening is complete with it, and a first change output takes
part of the excess. -/
theorem Stage.Founded.starts_claimed {rounds : Nat} {s : Progress Holding NotHeld} {c : Candidate}
    {source : Holding} (h : Stage.Founded t cs ⟨true, rounds + 1, s⟩)
    (hsplits : Stage.Splits cs ⟨true, rounds + 1, s⟩) (hnone : s.draft.change.size = 0)
    (hshort : s.draft.excess t < 0)
    (hreply : Holding.allocator.claim (s.draft.ask t) s.source = (.ok (some c), source))
    (hover : 0 < (s.draft.claim c).excess t) :
    t.Starts cs (c :: s.draft.claimed.items)
      (min (Word.clamp (t.margin (c :: s.draft.claimed.items))) t.firstSatoshis) := by
  obtain ⟨hseeds, hopens⟩ := h.opens_claimed hsplits hnone hshort hreply
  rw [Draft.excess_claim_eq_margin hnone] at hover
  exact .opened hseeds hopens hover

/-- **Every turn leaves a run founded.** -/
theorem Turn.founded (hsplits : g.Splits cs) (h : g.Founded t cs)
    (hturn : Turn Holding.allocator t g g') : g'.Founded t cs := by
  cases hturn with
  | @claim growing rounds s c source hshort hreply =>
    rcases s.draft.accept_cases t growing c with ⟨heq, hpaired⟩ | ⟨rfl, hover, -, heq⟩
    · constructor
      · rintro rfl hnone
        simp only [Progress.claimed, heq] at hnone ⊢
        obtain ⟨hseeds, hopens⟩ := h.opens_claimed hsplits hnone hshort hreply
        refine ⟨hseeds, hopens, Int.not_lt.1 fun hover => ?_⟩
        exact (hpaired rfl hover).2 hnone
      · simp only [Progress.claimed, heq]
        exact h.oldest
    · constructor
      · intro _ hnone
        simp only [Progress.claimed, heq] at hnone
        exact absurd hnone (Nat.succ_ne_zero _)
      · intro amount hlast
        simp only [Progress.claimed, heq] at hlast
        by_cases hnone : s.draft.change.size = 0
        · rw [Draft.items_addChange_claim hnone] at hlast
          obtain rfl := Option.some.inj hlast
          exact ⟨_, h.starts_claimed hsplits hnone hshort hreply hover⟩
        · -- the change output is not the first one, so the oldest one stays
          have hitems : s.draft.change.items ≠ [] := mt Tally.items_eq_nil_iff.1 hnone
          rw [Draft.addChange, Tally.items_push, Draft.change_claim,
            List.getLast?_cons_of_ne_nil hitems] at hlast
          exact h.oldest amount hlast
  | @starve growing rounds s s' source hshort hchange hreply hback =>
    constructor
    · intro hgrowing
      cases hgrowing
    · intro amount hlast
      have hdropped : s'.starve.draft.change.items = s.draft.change.items.tail :=
        items_starve (s := s.answered t (.ok none) source) Holding.allocator hback
      rw [hdropped, List.getLast?_tail] at hlast
      split at hlast
      · cases hlast
      · exact h.oldest amount hlast

end

end CoinPurse
