import CoinPurse.Distribution
import CoinPurse.Total
import Mathlib.Data.List.Forall2

/-!
# What a distribution does to the amounts

Handing out a surplus neither loses nor makes a satoshi: the amounts grow by the surplus together
(`totalOf_spread`), none of them shrinks and none is added (`spread_grows`). This holds whatever is
drawn. All that matters about a random share is that it takes a part of what is left, at least one
satoshi, and that it goes to one of the amounts (`exists_scatter_succ`).
-/

namespace CoinPurse

/-- Adding to one of the numbers adds to their total. -/
theorem totalOf_modify {xs : List Nat} {i : Nat} (n : Nat) (h : i < xs.length) :
    totalOf (xs.modify i (· + n)) = totalOf xs + n := by
  induction xs generalizing i with
  | nil => simp at h
  | cons x xs ih =>
    cases i with
    | zero => rw [List.modify_zero_cons, totalOf_cons, totalOf_cons]; omega
    | succ i =>
      have hi : i < xs.length := by simpa using h
      rw [List.modify_succ_cons, totalOf_cons, totalOf_cons, ih hi]; omega

/-- Amount by amount, the second list has at least what the first has. -/
def Grows (xs ys : List Nat) : Prop := List.Forall₂ (· ≤ ·) xs ys

namespace Grows

variable {xs ys zs : List Nat}

theorem refl (xs : List Nat) : Grows xs xs := List.forall₂_same.2 fun _ _ => Nat.le_refl _

theorem trans (h₁ : Grows xs ys) (h₂ : Grows ys zs) : Grows xs zs := by
  induction h₁ generalizing zs with
  | nil => exact h₂
  | cons hxy _ ih =>
    rcases h₂ with _ | ⟨hyz, htail⟩
    exact .cons (Nat.le_trans hxy hyz) (ih htail)

theorem length_eq (h : Grows xs ys) : xs.length = ys.length := List.Forall₂.length_eq h

/-- The first of several amounts is still the first. -/
theorem exists_cons {x : Nat} {rest : List Nat} (h : Grows xs ys) (hxs : xs = x :: rest) :
    ∃ y rest', x ≤ y ∧ Grows rest rest' ∧ ys = y :: rest' := by
  subst hxs
  exact List.forall₂_cons_left_iff.1 h

/-- Amounts that have grown are worth no less together. -/
theorem totalOf_le (h : Grows xs ys) : totalOf xs ≤ totalOf ys := by
  induction h with
  | nil => exact Nat.le_refl _
  | cons hxy _ ih =>
    rw [totalOf_cons, totalOf_cons]
    omega

/-- What every amount has, it still has afterwards. -/
theorem forall_le {m : Nat} (h : Grows xs ys) (hm : ∀ x ∈ xs, m ≤ x) : ∀ y ∈ ys, m ≤ y := by
  induction h with
  | nil => intro y hy; cases hy
  | cons hxy _ ih =>
    rw [List.forall_mem_cons] at hm ⊢
    exact ⟨Nat.le_trans hm.1 hxy, ih hm.2⟩

/-- Adding to one of the amounts makes none of them smaller. -/
theorem modify (xs : List Nat) (i n : Nat) : Grows xs (xs.modify i (· + n)) := by
  induction xs generalizing i with
  | nil =>
    rw [List.modify_nil]
    exact refl []
  | cons x xs ih =>
    cases i with
    | zero =>
      rw [List.modify_zero_cons]
      exact .cons (Nat.le_add_right x n) (refl xs)
    | succ i =>
      rw [List.modify_succ_cons]
      exact .cons (Nat.le_refl x) (ih i)

end Grows

namespace Distribution

/-- **One share.** While something is left, a step takes two values and hands out a share of it to
one of the amounts. -/
theorem exists_scatter_succ (steps : Nat) {left : Nat} {amounts : List Nat} (draws : Draws)
    (hleft : 0 < left) (hne : amounts ≠ []) :
    ∃ percent place draws', 2500 ≤ percent ∧ percent ≤ 5000 ∧ place < amounts.length ∧
      draws'.taken = draws.taken + 2 ∧
      scatter (steps + 1) left amounts draws =
        scatter steps (left - share percent left) (amounts.modify place (· + share percent left))
          draws' := by
  have hlength : 0 < amounts.length := List.length_pos_iff.2 hne
  have hplace := Draws.between_le 0 (amounts.length - 1) (draws.between 2500 5000).2
  refine ⟨_, _, ((draws.between 2500 5000).2.between 0 (amounts.length - 1)).2,
    Draws.le_between (by decide) draws, Draws.between_le 2500 5000 draws,
    Nat.lt_of_le_of_lt hplace (Nat.sub_one_lt_of_lt hlength), rfl, ?_⟩
  simp only [scatter, if_neg (Nat.pos_iff_ne_zero.1 hleft)]

/-- As many steps as there are satoshis left hand out all of them. -/
theorem totalOf_scatter {steps left : Nat} {amounts : List Nat} (draws : Draws)
    (h : left ≤ steps) (hne : amounts ≠ []) :
    totalOf (scatter steps left amounts draws).1 = totalOf amounts + left := by
  -- every share takes at least one satoshi, so what is left never exceeds the steps that are left
  induction steps generalizing left amounts draws with
  | zero =>
    obtain rfl : left = 0 := by omega
    rfl
  | succ steps ih =>
    rcases Nat.eq_zero_or_pos left with rfl | hleft
    · rfl
    · obtain ⟨percent, place, draws', -, hpercent, hplace, -, heq⟩ :=
        exists_scatter_succ steps draws hleft hne
      have hone := one_le_share percent left
      have hpart := share_le (Nat.le_trans hpercent (by decide : 5000 ≤ 10000)) hleft
      have hne' : amounts.modify place (· + share percent left) ≠ [] := by simpa using hne
      rw [heq, ih draws' (by omega) hne', totalOf_modify _ hplace]
      omega

/-- Random shares make no amount smaller, and add none. -/
theorem scatter_grows (steps left : Nat) {amounts : List Nat} (draws : Draws)
    (hne : amounts ≠ []) :
    Grows amounts (scatter steps left amounts draws).1 := by
  induction steps generalizing left amounts draws with
  | zero => exact .refl amounts
  | succ steps ih =>
    rcases Nat.eq_zero_or_pos left with rfl | hleft
    · exact .refl amounts
    · obtain ⟨percent, place, draws', -, -, -, -, heq⟩ :=
        exists_scatter_succ steps draws hleft hne
      have hne' : amounts.modify place (· + share percent left) ≠ [] := by simpa using hne
      rw [heq]
      exact (Grows.modify amounts place _).trans (ih (left - share percent left) draws' hne')

/-- **Nothing is lost.** Unless there is nowhere to put it, all of the surplus ends up in the
amounts. -/
theorem totalOf_spread (initial : Nat) {surplus : Nat} {amounts : List Nat} (draws : Draws)
    (h : amounts = [] → surplus = 0) :
    totalOf (spread initial surplus amounts draws).1 = totalOf amounts + surplus := by
  rcases amounts with _ | ⟨first, _ | ⟨second, rest⟩⟩
  · rw [h rfl]
    rfl
  · simp only [spread, totalOf_cons, totalOf_nil]
    omega
  · simp only [spread]
    rw [totalOf_scatter draws (Nat.le_refl _) (by simp)]
    simp only [totalOf_cons]
    omega

/-- A distribution makes no amount smaller, and adds none. -/
theorem spread_grows (initial surplus : Nat) (amounts : List Nat) (draws : Draws) :
    Grows amounts (spread initial surplus amounts draws).1 := by
  rcases amounts with _ | ⟨first, _ | ⟨second, rest⟩⟩
  · exact .nil
  · exact .cons (Nat.le_add_right first surplus) .nil
  · -- the first amount is topped up before anything is shared out at random
    have htop : Grows (first :: second :: rest)
        ((first + min surplus (initial - first)) :: second :: rest) :=
      .cons (Nat.le_add_right _ _) (Grows.refl _)
    exact htop.trans (scatter_grows _ _ draws (by simp))

end Distribution

end CoinPurse
