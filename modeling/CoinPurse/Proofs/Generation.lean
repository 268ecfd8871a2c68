import CoinPurse.Proofs.Balance
import CoinPurse.Proofs.Turns

/-!
# How a run ends

A run on terms that pass the check takes turns from its seeded draft, and then ends in one of six
ways. `Ends` lists them, each with the report it leaves; `generate_ends` says that there are no
others. What a run does is proved by going through this list once.

Two of the six run out of funds. They give back every claim before they report it, and either may
still fail over that (`releaseAll_cases`, `failShort_cases`).
-/

namespace CoinPurse

variable {σ ε : Type}

/-- The report of a run that has settled a funded draft with these draws. -/
def Progress.settled (t : Terms) (draws : Draws) (s : Progress σ ε) : Report σ ε where
  outcome := .ok (s.draft.plan t (s.draft.finish t draws).1 (s.draft.dueWith t 0 0))
  drawn := (s.draft.finish t draws).2.drawn
  source := s.source
  trace := s.trace.reverse

/-- The ways in which a run with this cap on its rounds may end. -/
inductive Ends (a : Allocator σ ε) (entropy : Nat → Float) (t : Terms) (cap : Nat) :
    Stage σ ε → Report σ ε → Prop where
  /-- the draft is funded, its excess distributed, and the plan handed out -/
  | settled {growing : Bool} {rounds : Nat} {s : Progress σ ε} {amounts : List Nat} {draws : Draws}
      (hcovered : 0 ≤ s.draft.excess t)
      (hchange : s.draft.change.size = 0 → s.draft.excess t = 0)
      (hfinish : s.draft.finish t (.ofValues entropy t.randomValues) = (amounts, draws)) :
      Ends a entropy t cap ⟨growing, rounds, s⟩
        ⟨.ok (s.draft.plan t amounts (s.draft.dueWith t 0 0)), draws.drawn, s.source,
          s.trace.reverse⟩
  /-- the draft is funded, but there is no change output to take its excess -/
  | surplus {growing : Bool} {rounds : Nat} {s : Progress σ ε} (hover : 0 < s.draft.excess t)
      (hchange : s.draft.change.size = 0) :
      Ends a entropy t cap ⟨growing, rounds, s⟩ (s.failShort a t t.firstSatoshis)
  /-- the draft is short, there is nothing more to claim and no change output to drop -/
  | short {growing : Bool} {rounds : Nat} {s : Progress σ ε} {source : σ}
      (hshort : s.draft.excess t < 0) (hchange : s.draft.change.size = 0)
      (hreply : a.claim (s.draft.ask t) s.source = (.ok none, source)) :
      Ends a entropy t cap ⟨growing, rounds + 1, s⟩
        ((s.answered t (.ok none) source).failShort a t (Draft.deficit (s.draft.excess t)))
  /-- the rounds are used up -/
  | exhausted {growing : Bool} {s : Progress σ ε} (hshort : s.draft.excess t < 0) :
      Ends a entropy t cap ⟨growing, 0, s⟩ (s.fail (.roundLimit cap))
  /-- the allocator failed to answer a request -/
  | refused {growing : Bool} {rounds : Nat} {s : Progress σ ε} {source : σ} {e : ε}
      (hshort : s.draft.excess t < 0)
      (hreply : a.claim (s.draft.ask t) s.source = (.error e, source)) :
      Ends a entropy t cap ⟨growing, rounds + 1, s⟩
        ((s.answered t (.error e) source).fail (.allocation e))
  /-- the allocator failed to take a claim back after a pass starved -/
  | stuck {growing : Bool} {rounds : Nat} {s s' : Progress σ ε} {source : σ} {e : ε}
      (hshort : s.draft.excess t < 0) (hchange : s.draft.change.size ≠ 0)
      (hreply : a.claim (s.draft.ask t) s.source = (.ok none, source))
      (hback : (s.answered t (.ok none) source).releaseAll a = (some e, s')) :
      Ends a entropy t cap ⟨growing, rounds + 1, s⟩ (s'.fail (.allocation e))

/-- A run for want of funds ends once every claim is given back, or one of them is refused. -/
theorem failShort_cases (a : Allocator σ ε) (t : Terms) (s : Progress σ ε) (shortfall : Nat) :
    (∃ s', s.releaseAll a = (none, s') ∧
      s.failShort a t shortfall = s'.fail (.insufficientFunds (s.draft.required t) shortfall)) ∨
    ∃ e s', s.releaseAll a = (some e, s') ∧
      s.failShort a t shortfall = s'.fail (.allocation e) := by
  rw [Progress.failShort]
  rcases hback : s.releaseAll a with ⟨_ | e, s'⟩
  · exact .inl ⟨s', rfl, rfl⟩
  · exact .inr ⟨e, s', rfl, rfl⟩

/-- A run for want of funds hands out no plan. -/
theorem failShort_ne_ok (a : Allocator σ ε) (t : Terms) (s : Progress σ ε) (shortfall : Nat)
    (p : Plan) : (s.failShort a t shortfall).outcome ≠ .ok p := by
  intro h
  rcases failShort_cases a t s shortfall with ⟨s', -, heq⟩ | ⟨e, s', -, heq⟩
  · rw [heq] at h
    cases h
  · rw [heq] at h
    cases h

/-- A run for want of funds has drawn nothing. -/
theorem drawn_failShort (a : Allocator σ ε) (t : Terms) (s : Progress σ ε) (shortfall : Nat) :
    (s.failShort a t shortfall).drawn = [] := by
  rcases failShort_cases a t s shortfall with ⟨s', -, heq⟩ | ⟨e, s', -, heq⟩
  · rw [heq]
    rfl
  · rw [heq]
    rfl

/-- A run that reports the want of funds reports what its draft required. -/
theorem eq_of_failShort {a : Allocator σ ε} {t : Terms} {s : Progress σ ε}
    {shortfall required n : Nat}
    (h : (s.failShort a t shortfall).outcome = .error (.insufficientFunds required n)) :
    required = s.draft.required t ∧ n = shortfall := by
  rcases failShort_cases a t s shortfall with ⟨s', -, heq⟩ | ⟨e, s', -, heq⟩
  · rw [heq] at h
    cases h
    exact ⟨rfl, rfl⟩
  · rw [heq] at h
    cases h

section
variable (a : Allocator σ ε) (entropy : Nat → Float) (t : Terms) (cap : Nat)

/-- **When a run is ready** to hand out its excess. The draft is short, or it has an excess and
nowhere to put it, or the run is ready. -/
theorem ready_cases (s : Progress σ ε) :
    (s.draft.excess t < 0 ∧
      s.ready a t = .error (s.failShort a t (Draft.deficit (s.draft.excess t)))) ∨
    (0 < s.draft.excess t ∧ s.draft.change.size = 0 ∧
      s.ready a t = .error (s.failShort a t t.firstSatoshis)) ∨
    (0 ≤ s.draft.excess t ∧ (s.draft.change.size = 0 → s.draft.excess t = 0) ∧
      s.ready a t = .ok s) := by
  by_cases hshort : s.draft.excess t < 0
  · refine .inl ⟨hshort, ?_⟩
    simp only [Progress.ready, if_pos hshort]
  · by_cases hover : s.draft.change.size = 0 ∧ 0 < s.draft.excess t
    · refine .inr (.inl ⟨hover.2, hover.1, ?_⟩)
      simp only [Progress.ready, if_neg hshort]
      rw [if_pos (by simpa using hover)]
    · have hcovered : 0 ≤ s.draft.excess t := Int.not_lt.1 hshort
      have hchange : s.draft.change.size = 0 → s.draft.excess t = 0 := by
        intro hzero
        have := not_and.1 hover hzero
        omega
      refine .inr (.inr ⟨hcovered, hchange, ?_⟩)
      simp only [Progress.ready, if_neg hshort]
      rw [if_neg (by simpa using hover)]

/-- A run that is ready hands out the plan that its draft settles to. -/
theorem handOut_eq_settled {t : Terms} {s : Progress σ ε} (draws : Draws)
    (hcovered : 0 ≤ s.draft.excess t)
    (hchange : s.draft.change.size = 0 → s.draft.excess t = 0) :
    s.handOut t draws = s.settled t draws := by
  simp only [Progress.handOut, Progress.settled, Draft.settle_finish draws hcovered hchange]

/-- A draft that is short when the pool runs dry, with no change output left, is short of funds. -/
theorem ready_of_short {s : Progress σ ε} (hshort : s.draft.excess t < 0) :
    s.ready a t = .error (s.failShort a t (Draft.deficit (s.draft.excess t))) := by
  simp only [Progress.ready, if_pos hshort]

/-- A run that ends before its excess is handed out draws nothing. -/
theorem drawn_of_ready {source : σ} {r : Report σ ε} (h : ready a cap t source = .error r) :
    r.drawn = [] := by
  have hready : ∀ s : Progress σ ε, s.ready a t = .error r → r.drawn = [] := by
    intro s hs
    rcases ready_cases a t s with ⟨-, heq⟩ | ⟨-, -, heq⟩ | ⟨-, -, heq⟩
    · obtain rfl := Except.error.inj (heq.symm.trans hs)
      exact drawn_failShort a t s _
    · obtain rfl := Except.error.inj (heq.symm.trans hs)
      exact drawn_failShort a t s _
    · rw [heq] at hs
      cases hs
  rcases hcheck : t.check with fault | ⟨⟩
  · simp only [ready, hcheck] at h
    obtain rfl := Except.error.inj h
    rfl
  · simp only [ready, hcheck] at h
    generalize fund a t cap (.start t source) = pass at h
    rcases pass with ⟨_ | _ | _ | cause, rounds, s⟩
    · exact hready s h
    · exact hready s h
    · obtain rfl := Except.error.inj h
      rfl
    · obtain rfl := Except.error.inj h
      rfl

/-- **A run that is ready** has passed the check and taken turns to a draft that is funded. -/
theorem turns_of_ready {source : σ} {s : Progress σ ε} (h : ready a cap t source = .ok s) :
    t.check = .ok () ∧ 0 ≤ s.draft.excess t ∧ (s.draft.change.size = 0 → s.draft.excess t = 0) ∧
      ∃ g, Turns a t ⟨true, cap, .start t source⟩ g ∧ g.run = s := by
  rcases hcheck : t.check with fault | ⟨⟩
  · simp only [ready, hcheck] at h
    cases h
  · obtain ⟨g, hturns, hstops⟩ := fund_turns a t cap (.start t source)
    simp only [ready, hcheck] at h
    generalize fund a t cap (.start t source) = pass at h hstops
    cases hstops with
    | @covered growing rounds s' hcovered =>
      rcases ready_cases a t s' with ⟨hshort, -⟩ | ⟨-, -, heq⟩ | ⟨-, hchange, heq⟩
      · exact absurd hshort (Int.not_lt.2 hcovered)
      · cases heq.symm.trans h
      · obtain rfl := Except.ok.inj (heq.symm.trans h)
        exact ⟨rfl, hcovered, hchange, _, hturns, rfl⟩
    | @dry growing rounds s source hshort hchange hreply =>
      have hready := ready_of_short a t (s := s.answered t (.ok none) source) hshort
      cases hready.symm.trans h
    | exhausted => cases h
    | refused => cases h
    | stuck => cases h

/-- **How runs end.** On terms that pass the check, a run takes turns from its seeded draft and then
ends in one of the ways listed. -/
theorem generate_ends (source : σ) (hcheck : t.check = .ok ()) :
    ∃ g, Turns a t ⟨true, cap, .start t source⟩ g ∧
      Ends a entropy t cap g (generate a entropy cap t source) := by
  obtain ⟨g, hturns, hstops⟩ := fund_turns a t cap (.start t source)
  refine ⟨g, hturns, ?_⟩
  simp only [generate, ready, hcheck]
  generalize fund a t cap (.start t source) = p at hstops
  cases hstops with
  | @covered growing rounds s hcovered =>
    rcases ready_cases a t s with ⟨hshort, -⟩ | ⟨hover, hchange, heq⟩ | ⟨-, hchange, heq⟩
    · exact absurd hshort (Int.not_lt.2 hcovered)
    · simp only [heq]
      exact .surplus hover hchange
    · simp only [heq, handOut_eq_settled _ hcovered hchange]
      exact .settled hcovered hchange rfl
  | exhausted hshort => exact .exhausted hshort
  | @dry growing rounds s source hshort hchange hreply =>
    have hready := ready_of_short a t (s := s.answered t (.ok none) source) hshort
    simp only [hready]
    exact .short hshort hchange hreply
  | refused hshort hreply => exact .refused hshort hreply
  | stuck hshort hchange hreply hback => exact .stuck hshort hchange hreply hback

/-- On terms that fail the check nothing happens. -/
theorem generate_unchecked (source : σ) {fault : TermsFault} (hcheck : t.check = .error fault) :
    generate a entropy cap t source = ⟨.error (.invalidTerms fault), [], source, []⟩ := by
  simp only [generate, ready, hcheck]

end

/-- **How runs succeed.** A run that hands out a plan has taken turns to a draft that is funded, and
the plan is what this draft settles to. -/
theorem generate_ok {a : Allocator σ ε} {entropy : Nat → Float} {t : Terms} {cap : Nat} {source : σ}
    {p : Plan} (h : (generate a entropy cap t source).outcome = .ok p) :
    t.check = .ok () ∧ ∃ g amounts draws, Turns a t ⟨true, cap, .start t source⟩ g ∧
      0 ≤ g.run.draft.excess t ∧ (g.run.draft.change.size = 0 → g.run.draft.excess t = 0) ∧
      g.run.draft.finish t (.ofValues entropy t.randomValues) = (amounts, draws) ∧
      generate a entropy cap t source
        = ⟨.ok (g.run.draft.plan t amounts (g.run.draft.dueWith t 0 0)), draws.drawn, g.run.source,
            g.run.trace.reverse⟩ := by
  rcases hcheck : t.check with fault | ⟨⟩
  · rw [generate_unchecked a entropy t cap source hcheck] at h
    cases h
  · refine ⟨rfl, ?_⟩
    obtain ⟨g, hturns, hends⟩ := generate_ends a entropy t cap source hcheck
    generalize generate a entropy cap t source = report at h hends ⊢
    cases hends with
    | settled hcovered hchange hfinish =>
      exact ⟨_, _, _, hturns, hcovered, hchange, hfinish, rfl⟩
    | surplus => exact absurd h (failShort_ne_ok a t _ _ p)
    | short => exact absurd h (failShort_ne_ok a t _ _ p)
    | exhausted => cases h
    | refused => cases h
    | stuck => cases h

/-- **How runs fall short.** A run that reports a want of funds has no change output left. Either
it has an excess and nowhere to put it, or it is short and its last request found nothing. -/
theorem generate_insufficient {a : Allocator σ ε} {entropy : Nat → Float} {t : Terms} {cap : Nat}
    {source : σ} {required shortfall : Nat}
    (h : (generate a entropy cap t source).outcome
      = .error (.insufficientFunds required shortfall)) :
    t.check = .ok () ∧ ∃ g, Turns a t ⟨true, cap, .start t source⟩ g ∧
      g.run.draft.change.size = 0 ∧ required = g.run.draft.required t ∧
      ((0 < g.run.draft.excess t ∧ shortfall = t.firstSatoshis) ∨
        (g.run.draft.excess t < 0 ∧ shortfall = Draft.deficit (g.run.draft.excess t) ∧
          ∃ source, a.claim (g.run.draft.ask t) g.run.source = (.ok none, source))) := by
  rcases hcheck : t.check with fault | ⟨⟩
  · rw [generate_unchecked a entropy t cap source hcheck] at h
    cases h
  · refine ⟨rfl, ?_⟩
    obtain ⟨g, hturns, hends⟩ := generate_ends a entropy t cap source hcheck
    refine ⟨g, hturns, ?_⟩
    generalize generate a entropy cap t source = report at h hends
    cases hends with
    | settled => cases h
    | surplus hover hchange =>
      obtain ⟨rfl, rfl⟩ := eq_of_failShort h
      exact ⟨hchange, rfl, .inl ⟨hover, rfl⟩⟩
    | short hshort hchange hreply =>
      obtain ⟨rfl, rfl⟩ := eq_of_failShort h
      exact ⟨hchange, rfl, .inr ⟨hshort, rfl, _, hreply⟩⟩
    | exhausted => cases h
    | refused => cases h
    | stuck => cases h

/-- What no answer of the allocator breaks, running out of funds does not break. -/
theorem Allocator.Keeps.failShort {a : Allocator σ ε} {P : σ → Prop} (h : a.Keeps P) (t : Terms)
    {s : Progress σ ε} (shortfall : Nat) (hsource : P s.source) :
    P (s.failShort a t shortfall).source := by
  rcases failShort_cases a t s shortfall with ⟨s', hback, heq⟩ | ⟨e, s', hback, heq⟩
  · rw [heq]
    exact h.releaseAll hsource hback
  · rw [heq]
    exact h.releaseAll hsource hback

/-- What no answer of the allocator breaks, a run does not break. -/
theorem Allocator.Keeps.generate {a : Allocator σ ε} {P : σ → Prop} (h : a.Keeps P)
    (entropy : Nat → Float) (cap : Nat) (t : Terms) {source : σ} (hsource : P source) :
    P (CoinPurse.generate a entropy cap t source).source := by
  rcases hcheck : t.check with fault | ⟨⟩
  · rw [generate_unchecked a entropy t cap source hcheck]
    exact hsource
  · obtain ⟨g, hturns, hends⟩ := generate_ends a entropy t cap source hcheck
    have hg : P g.run.source := hturns.keeps (fun _ _ hg hturn => h.turn hg hturn) hsource
    generalize CoinPurse.generate a entropy cap t source = report at hends ⊢
    cases hends with
    | settled => exact hg
    | surplus => exact h.failShort t _ hg
    | @short _ _ s source hshort hchange hreply =>
      exact h.failShort t (s := s.answered t (.ok none) source) _ (h.of_claim hg hreply)
    | exhausted => exact hg
    | refused hshort hreply => exact h.of_claim hg hreply
    | @stuck _ _ s s' source e hshort hchange hreply hback =>
      exact h.releaseAll (s := s.answered t (.ok none) source) (h.of_claim hg hreply) hback

/-- From the start of a run, whatever turns it takes, the allocator keeps track of its claims. -/
theorem Allocator.Tracks.turns {a : Allocator σ ε} {R : List Candidate → σ → Prop}
    (h : a.Tracks R) {cap : Nat} {t : Terms} {source : σ} {g : Stage σ ε}
    (hturns : Turns a t ⟨true, cap, .start t source⟩ g) (hsource : R [] source) :
    R g.run.draft.claimed.items g.run.source := by
  have hstart : R (Draft.seed t).claimed.items source := by
    rw [Draft.claimed_seed]
    exact hsource
  exact hturns.keeps (P := fun g => R g.run.draft.claimed.items g.run.source)
    (fun _ _ hg hturn => h.turn hg hturn) hstart

/-- If a run succeeds, then what is held at its end are the inputs of its plan. -/
theorem Allocator.Tracks.generate {a : Allocator σ ε} {R : List Candidate → σ → Prop}
    (h : a.Tracks R) {entropy : Nat → Float} {cap : Nat} {t : Terms} {source : σ} {p : Plan}
    (hsource : R [] source) (hok : (CoinPurse.generate a entropy cap t source).outcome = .ok p) :
    R p.inputs.reverse (CoinPurse.generate a entropy cap t source).source := by
  obtain ⟨-, g, amounts, draws, hturns, -, -, -, hreport⟩ := generate_ok hok
  rw [hreport] at hok ⊢
  obtain rfl := Except.ok.inj hok
  have htracked := h.turns hturns hsource
  rwa [Draft.plan, Tally.toList, List.reverse_reverse]

/-- If a run that is out of funds says so, then it holds nothing any more. -/
theorem Allocator.Tracks.failShort {a : Allocator σ ε} {R : List Candidate → σ → Prop}
    (h : a.Tracks R) {t : Terms} {s : Progress σ ε} {shortfall required n : Nat}
    (hsource : R s.draft.claimed.items s.source)
    (hshort : (s.failShort a t shortfall).outcome = .error (.insufficientFunds required n)) :
    R [] (s.failShort a t shortfall).source := by
  rcases failShort_cases a t s shortfall with ⟨s', hback, heq⟩ | ⟨e, s', hback, heq⟩
  · rw [heq]
    exact h.giveBack hsource (Progress.giveBack_of_releaseAll hback).1
  · rw [heq] at hshort
    cases hshort

/-- If a run fails for want of funds, then nothing is held at its end. -/
theorem Allocator.Tracks.generate_short {a : Allocator σ ε} {R : List Candidate → σ → Prop}
    (h : a.Tracks R) {entropy : Nat → Float} {cap : Nat} {t : Terms} {source : σ}
    {required shortfall : Nat} (hsource : R [] source)
    (hshort : (CoinPurse.generate a entropy cap t source).outcome
      = .error (.insufficientFunds required shortfall)) :
    R [] (CoinPurse.generate a entropy cap t source).source := by
  obtain ⟨hcheck, -⟩ := generate_insufficient hshort
  obtain ⟨g, hturns, hends⟩ := generate_ends a entropy t cap source hcheck
  have hg := h.turns hturns hsource
  generalize CoinPurse.generate a entropy cap t source = report at hshort hends ⊢
  cases hends with
  | surplus => exact h.failShort hg hshort
  | @short _ _ s source hneeds hchange hreply =>
    exact h.failShort (s := s.answered t (.ok none) source) (h.claim _ _ _ _ _ hg hreply) hshort
  | settled => cases hshort
  | exhausted => cases hshort
  | refused => cases hshort
  | stuck => cases hshort

end CoinPurse
