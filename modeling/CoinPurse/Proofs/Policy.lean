import CoinPurse.Proofs.Selection

/-!
# The policy of selection

What the right answer to a request is can be said without a search (`Candidate.Answers`): the first
of the candidates that fit exactly, or else the least that covers the target, or else the greatest
there is, and no candidate only if there is none. At most one answer is right (`Answers.unique`),
and the search gives it (`Candidate.answers_choose`).

Nor does the search take more than one pass: it is enough to keep the best of each kind so far
(`Leaders`) and to let every candidate in turn challenge those of its kinds (`foldl_offer`).
-/

namespace CoinPurse

namespace Candidate

/-- The answers that are right for a request. -/
inductive Answers (cs : List Candidate) (ask : Ask) : Option Candidate → Prop
  /-- one that fits exactly, the first of these -/
  | exact {c : Candidate} (hmem : c ∈ cs) (hfits : ask.exact = some c.satoshis)
      (hfirst : ∀ x ∈ cs, ask.exact = some x.satoshis → c.id ≤ x.id) : Answers cs ask (some c)
  /-- if none fits exactly, one that covers the target, of these the least by its amount, then by
  its id -/
  | covering {c : Candidate} (hmem : c ∈ cs) (hexact : ∀ x ∈ cs, ask.exact ≠ some x.satoshis)
      (hcovers : ask.target ≤ c.satoshis)
      (hleast : ∀ x ∈ cs, ask.target ≤ x.satoshis →
        c.satoshis < x.satoshis ∨ c.satoshis = x.satoshis ∧ c.id ≤ x.id) : Answers cs ask (some c)
  /-- if none covers the target either, one of the greatest amount, the first of these -/
  | below {c : Candidate} (hmem : c ∈ cs) (hexact : ∀ x ∈ cs, ask.exact ≠ some x.satoshis)
      (hbelow : ∀ x ∈ cs, x.satoshis < ask.target)
      (hgreatest : ∀ x ∈ cs,
        x.satoshis < c.satoshis ∨ x.satoshis = c.satoshis ∧ c.id ≤ x.id) : Answers cs ask (some c)
  /-- and none, if there is none -/
  | nothing (hempty : cs = []) : Answers cs ask none

variable {cs : List Candidate} {ask : Ask} {answer : Option Candidate}

/-- The right answer is one of the candidates. -/
theorem Answers.mem {c : Candidate} (h : Answers cs ask (some c)) : c ∈ cs := by
  cases h with
  | exact hmem => exact hmem
  | covering hmem => exact hmem
  | below hmem => exact hmem

/-- Two candidates that come no later than each other and are worth the same are one. -/
theorem eq_of_id_le {c d : Candidate} (hworth : c.satoshis = d.satoshis) (hcd : c.id ≤ d.id)
    (hdc : d.id ≤ c.id) : c = d := by
  cases c
  cases d
  simp at hworth hcd hdc ⊢
  omega

/-- **At most one answer is right.** -/
theorem Answers.unique {other : Option Candidate} (h : Answers cs ask answer)
    (h' : Answers cs ask other) : answer = other := by
  -- the kinds of answers exclude each other, and within a kind the order tells candidates apart
  cases h with
  | exact hmem hfits hfirst =>
    cases h' with
    | exact hmem' hfits' hfirst' =>
      have hworth := Option.some.inj (hfits.symm.trans hfits')
      exact congrArg some (eq_of_id_le hworth (hfirst _ hmem' hfits') (hfirst' _ hmem hfits))
    | covering _ hexact => exact absurd hfits (hexact _ hmem)
    | below _ hexact => exact absurd hfits (hexact _ hmem)
    | nothing hempty => simp [hempty] at hmem
  | covering hmem hexact hcovers hleast =>
    cases h' with
    | exact hmem' hfits => exact absurd hfits (hexact _ hmem')
    | covering hmem' _ hcovers' hleast' =>
      have hle := hleast _ hmem' hcovers'
      have hge := hleast' _ hmem hcovers
      exact congrArg some (eq_of_id_le (by omega) (by omega) (by omega))
    | below _ _ hbelow => exact absurd (hbelow _ hmem) (Nat.not_lt.2 hcovers)
    | nothing hempty => simp [hempty] at hmem
  | below hmem hexact hbelow hgreatest =>
    cases h' with
    | exact hmem' hfits => exact absurd hfits (hexact _ hmem')
    | covering hmem' _ hcovers => exact absurd (hbelow _ hmem') (Nat.not_lt.2 hcovers)
    | below hmem' _ _ hgreatest' =>
      have hge := hgreatest _ hmem'
      have hle := hgreatest' _ hmem
      exact congrArg some (eq_of_id_le (by omega) (by omega) (by omega))
    | nothing hempty => simp [hempty] at hmem
  | nothing hempty =>
    cases h' with
    | exact hmem' => simp [hempty] at hmem'
    | covering hmem' => simp [hempty] at hmem'
    | below hmem' => simp [hempty] at hmem'
    | nothing => rfl

/-- **The search gives the right answer.** -/
theorem answers_choose (cs : List Candidate) (ask : Ask) : Answers cs ask (choose cs ask) := by
  rw [choose]
  cases hfit : best? earlier (cs.filter fun c => ask.exact == some c.satoshis) with
  | some c =>
    obtain ⟨hmem, hfits⟩ := List.mem_filter.1 (mem_of_best? hfit)
    apply Answers.exact hmem (by simpa using hfits)
    intro x hx hxfits
    have hfirst := best?_unbeaten earlier_asymm earlier_trans hfit x
      (List.mem_filter.2 ⟨hx, by simpa using hxfits⟩)
    simpa [earlier] using hfirst
  | none =>
    have hexact : ∀ x ∈ cs, ask.exact ≠ some x.satoshis := by
      intro x hx hxfits
      rw [best?_eq_none_iff, List.filter_eq_nil_iff] at hfit
      exact hfit x hx (by simpa using hxfits)
    cases hcover : best? smaller (cs.filter fun c => ask.target ≤ c.satoshis) with
    | some c =>
      obtain ⟨hmem, hcovers⟩ := List.mem_filter.1 (mem_of_best? hcover)
      apply Answers.covering hmem hexact (by simpa using hcovers)
      intro x hx hxcovers
      have hleast := best?_unbeaten smaller_asymm smaller_trans hcover x
        (List.mem_filter.2 ⟨hx, by simpa using hxcovers⟩)
      simp [smaller] at hleast
      omega
    | none =>
      have hbelow : ∀ x ∈ cs, x.satoshis < ask.target := by
        intro x hx
        rw [best?_eq_none_iff, List.filter_eq_nil_iff] at hcover
        simpa using hcover x hx
      rw [filter_below_eq_self hcover]
      cases hlargest : best? larger cs with
      | some c =>
        apply Answers.below (mem_of_best? hlargest) hexact hbelow
        intro x hx
        have hgreatest := best?_unbeaten larger_asymm larger_trans hlargest x hx
        simp [larger] at hgreatest
        omega
      | none => exact .nothing (best?_eq_none_iff.1 hlargest)

/-- An answer is right exactly if the search gives it. -/
theorem choose_eq_iff : choose cs ask = answer ↔ Answers cs ask answer := by
  constructor
  · rintro rfl
    exact answers_choose cs ask
  · intro h
    exact (answers_choose cs ask).unique h

/-! ## In one pass -/

/-- A leader is replaced by one that beats it. -/
def challenge (beats : Candidate → Candidate → Bool) (leader : Option Candidate) (c : Candidate) :
    Option Candidate :=
  match leader with
  | none => some c
  | some best => if beats c best then some c else some best

/-- The search lets every member challenge the leader. -/
theorem best?_eq_foldl (beats : Candidate → Candidate → Bool) (cs : List Candidate) :
    best? beats cs = cs.foldl (challenge beats) none := by
  rw [best?]
  congr 1
  funext leader c
  cases leader <;> rfl

/-- The best of each kind so far. -/
structure Leaders where
  /-- the best that fits exactly -/
  exact : Option Candidate
  /-- the best that covers the target -/
  covering : Option Candidate
  /-- the best that does not -/
  below : Option Candidate

namespace Leaders

/-- The leaders before the first candidate. -/
def none : Leaders := ⟨.none, .none, .none⟩

/-- A candidate challenges the leaders of its kinds. -/
def offer (ask : Ask) (leaders : Leaders) (c : Candidate) : Leaders :=
  let leaders := if ask.exact = some c.satoshis
    then { leaders with exact := challenge earlier leaders.exact c } else leaders
  if ask.target ≤ c.satoshis
    then { leaders with covering := challenge smaller leaders.covering c }
    else { leaders with below := challenge larger leaders.below c }

/-- The leader of the kind that is preferred. -/
def winner (leaders : Leaders) : Option Candidate :=
  leaders.exact <|> leaders.covering <|> leaders.below

/-- The leaders after some candidates are those that each kind has by itself. -/
theorem foldl_offer (ask : Ask) (cs : List Candidate) (leaders : Leaders) :
    cs.foldl (offer ask) leaders =
      ⟨(cs.filter fun c => ask.exact == some c.satoshis).foldl (challenge earlier) leaders.exact,
        (cs.filter fun c => ask.target ≤ c.satoshis).foldl (challenge smaller) leaders.covering,
        (cs.filter fun c => c.satoshis < ask.target).foldl (challenge larger) leaders.below⟩ := by
  induction cs generalizing leaders with
  | nil => rfl
  | cons c rest ih =>
    rw [List.foldl_cons, ih]
    by_cases hcovers : ask.target ≤ c.satoshis
    · have hbelow := Nat.not_lt.2 hcovers
      by_cases hfits : ask.exact = some c.satoshis <;> simp [offer, hfits, hcovers, hbelow]
    · have hbelow := Nat.not_le.1 hcovers
      by_cases hfits : ask.exact = some c.satoshis <;> simp [offer, hfits, hcovers, hbelow]

/-- **One pass is enough** to find the answer. -/
theorem winner_foldl_offer (ask : Ask) (cs : List Candidate) :
    (cs.foldl (offer ask) none).winner = choose cs ask := by
  rw [foldl_offer, choose, best?_eq_foldl, best?_eq_foldl, best?_eq_foldl]
  rfl

end Leaders

/-- **The policy of selection.** The answer is the one that is right, so it is one of the candidates
if there are any, and it is the same for every order of them. One pass that keeps the best of each
kind finds it. -/
theorem choose_policy (cs : List Candidate) (ask : Ask) :
    (∀ answer, choose cs ask = answer ↔ Answers cs ask answer) ∧
      (∀ c, choose cs ask = some c → c ∈ cs) ∧
      (choose cs ask = none ↔ cs = []) ∧
      (∀ ds, ds.Perm cs → choose ds ask = choose cs ask) ∧
      (cs.foldl (Leaders.offer ask) Leaders.none).winner = choose cs ask := by
  refine ⟨fun answer => choose_eq_iff, ?_, choose_eq_none_iff, ?_,
    Leaders.winner_foldl_offer ask cs⟩
  · intro c hc
    exact (choose_eq_iff.1 hc).mem
  · intro ds hperm
    exact choose_perm hperm ask

/-- Of two equal amounts that cover the target the lower id is chosen, from either order. -/
theorem choose_policy_ties :
    Answers [⟨4, 300⟩, ⟨2, 300⟩, ⟨2, 300⟩, ⟨1, 900⟩] ⟨250, some 120⟩ (some ⟨2, 300⟩) ∧
      (⟨2, 300⟩ : Candidate) ∈ [⟨4, 300⟩, ⟨2, 300⟩, ⟨2, 300⟩, (⟨1, 900⟩ : Candidate)] ∧
      choose [⟨1, 900⟩, ⟨2, 300⟩, ⟨2, 300⟩, ⟨4, 300⟩] ⟨250, some 120⟩ = some ⟨2, 300⟩ := by
  obtain ⟨hright, hmem, -, hperm, -⟩ :=
    choose_policy [⟨4, 300⟩, ⟨2, 300⟩, ⟨2, 300⟩, ⟨1, 900⟩] ⟨250, some 120⟩
  have hchosen : choose [⟨4, 300⟩, ⟨2, 300⟩, ⟨2, 300⟩, ⟨1, 900⟩] ⟨250, some 120⟩
      = some ⟨2, 300⟩ := by decide
  refine ⟨(hright _).1 hchosen, hmem _ hchosen, (hperm _ ?_).trans hchosen⟩
  decide

end Candidate

end CoinPurse
