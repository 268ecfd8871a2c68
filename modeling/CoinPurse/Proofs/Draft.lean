import CoinPurse.Draft

/-!
# How a draft changes

A draft changes in two ways. It accepts a candidate, and with it at times a change output
(`Draft.accept_cases`); or it retreats, without its claims and with one change output fewer. Either
way no change output is ever empty (`Draft.Paying`).
-/

namespace CoinPurse

namespace Tally

variable {α : Type} {worth : α → Nat}

/-- There is nothing on a stack of height zero. -/
theorem items_eq_nil_iff {s : Tally α worth} : s.items = [] ↔ s.size = 0 := by
  rw [s.size_eq, List.length_eq_zero_iff]

end Tally

namespace Draft

variable {t : Terms} {d : Draft}

/-- **Accepting a candidate.** Either the draft has one more claim and is otherwise as it was, or
the claim left an excess, and a change output was added as well. -/
theorem accept_cases (t : Terms) (d : Draft) (growing : Bool) (c : Candidate) :
    (d.accept t growing c = d.claim c ∧
      (growing = true → 0 < (d.claim c).excess t →
        d.wantsBalance t = false ∧ d.change.size ≠ 0)) ∨
    (growing = true ∧ 0 < (d.claim c).excess t ∧ (d.wantsBalance t = true ∨ d.change.size = 0) ∧
      d.accept t growing c = (d.claim c).addChange t) := by
  by_cases h : growing = true ∧ 0 < (d.claim c).excess t ∧
      (d.wantsBalance t = true ∨ d.change.size = 0)
  · obtain ⟨hgrowing, hover, hwants⟩ := h
    refine .inr ⟨hgrowing, hover, hwants, ?_⟩
    simp only [accept]
    rw [if_pos (by simpa [hgrowing, hover] using hwants)]
  · refine .inl ⟨?_, fun hgrowing hover => ?_⟩
    · simp only [accept]
      rw [if_neg (by simpa [and_assoc] using h)]
    · have hnot := fun hwants => h ⟨hgrowing, hover, hwants⟩
      exact ⟨by simpa using fun hb => hnot (.inl hb), fun hzero => hnot (.inr hzero)⟩

/-- What accepting a candidate does to the change outputs. -/
theorem change_accept (t : Terms) (d : Draft) (growing : Bool) (c : Candidate) :
    (d.accept t growing c).change.items = d.change.items ∨
      growing = true ∧ ∃ x, (d.accept t growing c).change.items = x :: d.change.items := by
  rcases accept_cases t d growing c with ⟨heq, -⟩ | ⟨hgrowing, -, -, heq⟩
  · exact .inl (by rw [heq]; rfl)
  · exact .inr ⟨hgrowing, _, by rw [heq]; rfl⟩

/-- A change output is added with a claim, if at all. -/
theorem size_accept_le (t : Terms) (d : Draft) (growing : Bool) (c : Candidate) :
    d.change.size ≤ (d.accept t growing c).change.size ∧
      (d.accept t growing c).change.size ≤ d.change.size + 1 := by
  rw [(d.accept t growing c).change.size_eq, d.change.size_eq]
  rcases d.change_accept t growing c with heq | ⟨-, x, heq⟩
  · rw [heq]
    exact ⟨Nat.le_refl _, Nat.le_succ _⟩
  · rw [heq]
    exact ⟨Nat.le_succ _, Nat.le_refl _⟩

/-- The candidate accepted is the latest claim. -/
theorem claimed_accept (growing : Bool) (c : Candidate) :
    (d.accept t growing c).claimed = d.claimed.push c := by
  rcases accept_cases t d growing c with ⟨h, -⟩ | ⟨-, -, -, h⟩
  · rw [h, claim]
  · rw [h, claimed_addChange, claim]

/-- A run starts without claims. -/
theorem claimed_seed (t : Terms) : (seed t).claimed = .empty := by
  rw [seed]
  split
  · split <;> rfl
  · rfl

/-- Every change output is worth something. -/
def Paying (d : Draft) : Prop := ∀ amount ∈ d.change.items, 1 ≤ amount

/-- A change output added while there is an excess is worth something. -/
theorem Paying.addChange (h : d.Paying) (hinitial : 1 ≤ t.initialSatoshis)
    (hfirst : 1 ≤ t.firstSatoshis) (hover : 0 < d.excess t) : (d.addChange t).Paying := by
  have hnext : 1 ≤ d.nextAmount t := by
    rw [nextAmount]
    split <;> assumption
  have hclamp : 1 ≤ Word.clamp (d.excess t) :=
    Nat.le_min.2 ⟨by omega, by decide⟩
  intro amount hmem
  rcases List.mem_cons.1 hmem with rfl | hmem
  · exact Nat.le_min.2 ⟨hclamp, hnext⟩
  · exact h amount hmem

/-- Accepting a candidate leaves every change output worth something. -/
theorem Paying.accept (h : d.Paying) (hinitial : 1 ≤ t.initialSatoshis)
    (hfirst : 1 ≤ t.firstSatoshis) (growing : Bool) (c : Candidate) :
    (d.accept t growing c).Paying := by
  have hclaim : (d.claim c).Paying := h
  rcases accept_cases t d growing c with ⟨heq, -⟩ | ⟨-, hover, -, heq⟩
  · rw [heq]
    exact hclaim
  · rw [heq]
    exact hclaim.addChange hinitial hfirst hover

/-- Retreating leaves every change output worth something. -/
theorem Paying.retreat (h : d.Paying) : d.retreat.Paying := by
  intro amount hmem
  rw [Draft.retreat, Tally.items_pop] at hmem
  exact h amount (List.mem_of_mem_tail hmem)

/-- A run starts from change outputs that are worth something. -/
theorem paying_seed (hinitial : 1 ≤ t.initialSatoshis) (hfirst : 1 ≤ t.firstSatoshis) :
    (seed t).Paying := by
  intro amount hmem
  rw [seed] at hmem
  split at hmem
  · split at hmem
    · obtain rfl : amount = t.firstSatoshis := by simpa [blank, Tally.push, Tally.empty] using hmem
      exact hfirst
    · cases hmem
  · rw [Tally.items_ofList, List.mem_append, List.mem_replicate, List.mem_singleton] at hmem
    rcases hmem with ⟨-, rfl⟩ | rfl
    · exact hinitial
    · exact hfirst

end Draft

end CoinPurse
