import CoinPurse.Proofs.Draft
import CoinPurse.Proofs.Generation
import CoinPurse.Proofs.Orderly

/-!
# How a run treats its allocator

A claim that is never given back locks money, and one given back twice may spend it twice. So a run
keeps to a discipline, whatever the allocator answers: it gives back the latest claim first, only
what it holds and each claim once; it asks no more often than it may; and once something has failed
it does not turn to the allocator again (`generate_disciplined`).

The discipline is about the history alone. That the history stays orderly, and that the draft of a
run lists what its history leaves outstanding, is what every turn keeps (`Stage.Tidy`).
-/

namespace CoinPurse

variable {σ ε : Type}

/-- Giving back all that is outstanding leaves nothing outstanding; if it fails on the way, the
history ends there, in order. -/
theorem giveBack_tidy (a : Allocator σ ε) {held : List Candidate} {source source' : σ}
    {history history' : List (Event ε)} {fault : Option ε} (h : Tidy history held)
    (hback : Progress.giveBack a held source history = (fault, source', history')) :
    Orderly history'.reverse ∧ (fault = none → Tidy history' []) ∧
      history'.countP Event.isAsk = history.countP Event.isAsk := by
  induction held generalizing source history with
  | nil =>
    obtain ⟨rfl, -, rfl⟩ : none = fault ∧ source = source' ∧ history = history' := by
      simpa [Progress.giveBack] using hback
    exact ⟨h.orderly, fun _ => h, rfl⟩
  | cons c rest ih =>
    rw [Progress.giveBack] at hback
    rcases hreply : a.release c.id source with ⟨e | ⟨⟩, source₁⟩
    · rw [hreply] at hback
      obtain ⟨rfl, -, rfl⟩ : some e = fault ∧ source₁ = source' ∧ _ = history' := by
        simpa using hback
      refine ⟨h.orderly_cons (h.inTurn_returned (.error e)), fun hfault => ?_, rfl⟩
      cases hfault
    · rw [hreply] at hback
      obtain ⟨horderly, htidy, hasks⟩ := ih h.returned hback
      exact ⟨horderly, htidy, hasks⟩

/-- Releasing every claim of a run leaves nothing outstanding; if it fails on the way, the history
ends there, in order. -/
theorem releaseAll_tidy (a : Allocator σ ε) {s s' : Progress σ ε} {fault : Option ε}
    (h : Tidy s.trace s.draft.claimed.items) (hback : s.releaseAll a = (fault, s')) :
    Orderly s'.trace.reverse ∧ (fault = none → Tidy s'.trace []) ∧
      s'.trace.countP Event.isAsk = s.trace.countP Event.isAsk := by
  exact giveBack_tidy a h (Progress.giveBack_of_releaseAll hback).1

/-- A run between two requests that has kept to the discipline, with this cap on its rounds. -/
structure Stage.Tidy (cap : Nat) (g : Stage σ ε) : Prop where
  /-- the history may go on, and the draft lists what it leaves outstanding -/
  history : CoinPurse.Tidy g.run.trace g.run.draft.claimed.items
  /-- every round that is gone was spent on one request -/
  asks_eq : g.run.trace.countP Event.isAsk + g.rounds = cap
  /-- the last that happened was not that a claim was given back -/
  head_eq : ∀ e, g.run.trace.head? = some e → e.isReturn = false

/-- A request that finds nothing leaves the history as orderly as it was. -/
theorem Stage.Tidy.answered_none {cap rounds : Nat} {growing : Bool} {s : Progress σ ε}
    (t : Terms) (source : σ) (h : Stage.Tidy cap ⟨growing, rounds + 1, s⟩) :
    CoinPurse.Tidy (s.answered t (.ok none) source).trace s.draft.claimed.items ∧
      (s.answered t (.ok none) source).trace.countP Event.isAsk + rounds = cap := by
  have hasks : s.trace.countP Event.isAsk + (rounds + 1) = cap := h.asks_eq
  refine ⟨h.history.cons trivial rfl, ?_⟩
  simp only [Progress.answered, List.countP_cons, Event.isAsk, if_true]
  omega

/-- Every turn keeps to the discipline. -/
theorem Turn.tidy {a : Allocator σ ε} {t : Terms} {cap : Nat} {g g' : Stage σ ε}
    (h : g.Tidy cap) (hturn : Turn a t g g') : g'.Tidy cap := by
  cases hturn with
  | @claim growing rounds s c source hshort hreply =>
    have hasks : s.trace.countP Event.isAsk + (rounds + 1) = cap := h.asks_eq
    refine ⟨?_, ?_, fun e he => ?_⟩
    · rw [Progress.items_claimed]
      exact h.history.cons (e := .asked (s.draft.ask t) (.ok (some c))) trivial rfl
    · simp only [Progress.claimed, Progress.answered, List.countP_cons, Event.isAsk, if_true]
      omega
    · obtain rfl := Option.some.inj he
      rfl
  | @starve growing rounds s s' source hshort hchange hreply hback =>
    obtain ⟨htidy, hasks⟩ := h.answered_none t source
    obtain ⟨-, hswept, hcount⟩ := releaseAll_tidy a htidy hback
    -- nothing is outstanding after the sweep, and the draft that retreats lists no claims
    refine ⟨?_, ?_, fun e he => ?_⟩
    · exact (hswept rfl).cons (e := .starved _) trivial rfl
    · simp only [Progress.starve, List.countP_cons, Event.isAsk, Bool.false_eq_true, if_false]
      omega
    · obtain rfl := Option.some.inj he
      rfl

/-- **The discipline** of a run that may ask so many times, read off its report. -/
structure Report.Disciplined (cap : Nat) (r : Report σ ε) : Prop where
  /-- it asks no more often than it may -/
  asks_le : r.trace.countP Event.isAsk ≤ cap
  /-- what it gives back, or tries to, is the latest claim not given back yet -/
  returns_latest : ∀ past id reply later, r.trace = past ++ .returned id reply :: later →
    (Event.outstanding past).head?.map (·.id) = some id
  /-- at no time has it given back more than it claimed -/
  returns_le : ∀ past later id, r.trace = past ++ later →
    past.countP (Event.returns id) ≤ past.countP (Event.claims id)
  /-- its plan lists exactly the claims it still holds, in the order of the claims -/
  inputs_eq : ∀ p, r.outcome = .ok p → p.inputs = (Event.outstanding r.trace).reverse
  /-- without the funds it holds no claim -/
  outstanding_eq_nil : ∀ required shortfall,
    r.outcome = .error (.insufficientFunds required shortfall) → Event.outstanding r.trace = []
  /-- once the allocator has failed, nothing more happens -/
  failed_last : ∀ past e later, r.trace = past ++ e :: later → e.failed = true → later = []
  /-- once the rounds are used up, it neither asks again nor gives anything back -/
  exhausted_last : ∀ n, r.outcome = .error (.roundLimit n) → n = cap ∧
    r.trace.countP Event.isAsk = cap ∧ ∀ e, r.trace.getLast? = some e → e.isReturn = false

/-- What the discipline asks of a report whatever its outcome follows from an orderly history. -/
theorem Orderly.disciplined {cap : Nat} {r : Report σ ε} (h : Orderly r.trace)
    (hasks : r.trace.countP Event.isAsk ≤ cap)
    (hok : ∀ p, r.outcome = .ok p → p.inputs = (Event.outstanding r.trace).reverse)
    (hshort : ∀ required shortfall, r.outcome = .error (.insufficientFunds required shortfall) →
      Event.outstanding r.trace = [])
    (hlimit : ∀ n, r.outcome = .error (.roundLimit n) → n = cap ∧
      r.trace.countP Event.isAsk = cap ∧ ∀ e, r.trace.getLast? = some e → e.isReturn = false) :
    r.Disciplined cap where
  asks_le := hasks
  returns_latest past id reply later heq := by
    rw [heq] at h
    exact h.of_append_cons.1
  returns_le past later id heq := by
    rw [heq] at h
    rw [h.of_append.countP_claims id]
    exact Nat.le_add_right _ _
  inputs_eq := hok
  outstanding_eq_nil := hshort
  failed_last past e later heq := by
    rw [heq] at h
    exact h.of_append_cons.2
  exhausted_last := hlimit

/-- A failure that is neither a want of funds nor a lack of rounds asks for nothing more. -/
theorem Orderly.disciplined_of_error {cap : Nat} {r : Report σ ε} {failure : Failure ε}
    (h : Orderly r.trace) (hasks : r.trace.countP Event.isAsk ≤ cap)
    (hfailure : r.outcome = .error failure)
    (hfunds : ∀ required shortfall, failure ≠ .insufficientFunds required shortfall)
    (hrounds : ∀ n, failure ≠ .roundLimit n) : r.Disciplined cap := by
  refine h.disciplined hasks (fun p hp => ?_) (fun required shortfall hp => ?_) (fun n hp => ?_)
  all_goals rw [hfailure] at hp
  · cases hp
  · exact absurd (Except.error.inj hp) (hfunds required shortfall)
  · exact absurd (Except.error.inj hp) (hrounds n)

/-- A run that ends because the allocator failed has kept to the discipline. -/
theorem disciplined_fail_allocation {cap : Nat} {s : Progress σ ε} (cause : ε)
    (h : Orderly s.trace.reverse) (hasks : s.trace.countP Event.isAsk ≤ cap) :
    (s.fail (.allocation cause)).Disciplined cap :=
  h.disciplined_of_error (by rwa [Progress.fail, List.countP_reverse]) rfl
    (fun _ _ h => nomatch h) (fun _ h => nomatch h)

/-- A run that ends for want of funds has kept to the discipline. -/
theorem disciplined_failShort (a : Allocator σ ε) (t : Terms) {cap : Nat} {s : Progress σ ε}
    (shortfall : Nat) (h : Tidy s.trace s.draft.claimed.items)
    (hasks : s.trace.countP Event.isAsk ≤ cap) :
    (s.failShort a t shortfall).Disciplined cap := by
  rcases failShort_cases a t s shortfall with ⟨s', hback, heq⟩ | ⟨e, s', hback, heq⟩
  · obtain ⟨horderly, hswept, hcount⟩ := releaseAll_tidy a h hback
    rw [heq]
    refine Orderly.disciplined horderly (by rwa [Progress.fail, List.countP_reverse, hcount])
      ?_ ?_ ?_
    · intro p hp
      cases hp
    · intro _ _ _
      exact (hswept rfl).outstanding_eq
    · intro n hp
      cases hp
  · obtain ⟨horderly, -, hcount⟩ := releaseAll_tidy a h hback
    rw [heq]
    exact disciplined_fail_allocation e horderly (by rwa [hcount])

/-- However a run ends, it has kept to the discipline. -/
theorem Ends.disciplined {a : Allocator σ ε} {entropy : Nat → Float} {t : Terms} {cap : Nat}
    {g : Stage σ ε} {r : Report σ ε} (hg : g.Tidy cap) (hends : Ends a entropy t cap g r) :
    r.Disciplined cap := by
  cases hends with
  | @settled growing rounds s amounts draws hcovered hchange hfinish =>
    have hasks : s.trace.countP Event.isAsk + rounds = cap := hg.asks_eq
    refine Orderly.disciplined hg.history.orderly (by rw [List.countP_reverse]; omega) ?_ ?_ ?_
    · intro p hp
      obtain rfl := Except.ok.inj hp
      rw [hg.history.outstanding_eq]
      rfl
    · intro required shortfall hp
      cases hp
    · intro n hp
      cases hp
  | @surplus growing rounds s hover hchange =>
    have hasks : s.trace.countP Event.isAsk + rounds = cap := hg.asks_eq
    exact disciplined_failShort a t _ hg.history (by omega)
  | @short growing rounds s source hshort hchange hreply =>
    obtain ⟨htidy, hasks⟩ := hg.answered_none t source
    exact disciplined_failShort a t _ htidy (by omega)
  | @exhausted growing s hshort =>
    have hasks : s.trace.countP Event.isAsk = cap := hg.asks_eq
    have hcount : s.trace.reverse.countP Event.isAsk = cap := by rw [List.countP_reverse, hasks]
    refine Orderly.disciplined hg.history.orderly (Nat.le_of_eq hcount) ?_ ?_ ?_
    · intro p hp
      cases hp
    · intro required shortfall hp
      cases hp
    · intro n hp
      cases hp
      refine ⟨rfl, hcount, fun e he => hg.head_eq e ?_⟩
      rwa [Progress.fail, List.getLast?_reverse] at he
  | @refused growing rounds s source e hshort hreply =>
    have hasks : s.trace.countP Event.isAsk + (rounds + 1) = cap := hg.asks_eq
    refine disciplined_fail_allocation e (hg.history.orderly_cons trivial) ?_
    simp only [Progress.answered, List.countP_cons, Event.isAsk, if_true]
    omega
  | @stuck growing rounds s s' source e hshort hchange hreply hback =>
    obtain ⟨htidy, hasks⟩ := hg.answered_none t source
    obtain ⟨horderly, -, hcount⟩ := releaseAll_tidy a htidy hback
    exact disciplined_fail_allocation e horderly (by omega)

/-- A run starts with the discipline kept. -/
theorem tidy_start (t : Terms) (cap : Nat) (source : σ) :
    Stage.Tidy cap (⟨true, cap, .start t source⟩ : Stage σ ε) where
  history := by
    refine ⟨.nil, fun e he => ?_, (congrArg Tally.items (Draft.claimed_seed t)).symm⟩
    cases he
  asks_eq := Nat.zero_add cap
  head_eq e he := by cases he

/-- **Runs are disciplined.** Whatever the terms, the cap on the rounds and the answers of the
allocator, a run keeps to the discipline. -/
theorem generate_disciplined (a : Allocator σ ε) (entropy : Nat → Float) (cap : Nat) (t : Terms)
    (source : σ) : (generate a entropy cap t source).Disciplined cap := by
  rcases hcheck : t.check with fault | ⟨⟩
  · rw [generate_unchecked a entropy t cap source hcheck]
    exact Orderly.nil.disciplined_of_error (Nat.zero_le cap) rfl
      (fun _ _ h => nomatch h) (fun _ h => nomatch h)
  · obtain ⟨g, hturns, hends⟩ := generate_ends a entropy t cap source hcheck
    have hg : g.Tidy cap := hturns.keeps (fun _ _ h hturn => hturn.tidy h) (tidy_start t cap source)
    exact hends.disciplined hg

end CoinPurse
