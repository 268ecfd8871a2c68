/-!
# Totals

Amounts and sizes are natural numbers and are added up without any limit; whether a total still
fits a word is asked where it matters. -/

namespace CoinPurse

/-- What the numbers add up to. -/
def totalOf (xs : List Nat) : Nat := xs.foldr (· + ·) 0

@[simp] theorem totalOf_nil : totalOf [] = 0 := rfl
@[simp] theorem totalOf_cons (x : Nat) (xs : List Nat) : totalOf (x :: xs) = x + totalOf xs := rfl

@[simp] theorem totalOf_append (xs ys : List Nat) :
    totalOf (xs ++ ys) = totalOf xs + totalOf ys := by
  induction xs with
  | nil => simp
  | cons x xs ih => simp [ih, Nat.add_assoc]

@[simp] theorem totalOf_replicate (n x : Nat) : totalOf (List.replicate n x) = n * x := by
  induction n with
  | zero => simp
  | succ n ih => simp [List.replicate_succ, ih, Nat.succ_mul, Nat.add_comm]

/-- The order of the numbers does not matter. -/
theorem totalOf_perm {xs ys : List Nat} (h : xs.Perm ys) : totalOf xs = totalOf ys := by
  induction h with
  | nil => rfl
  | cons x _ ih => rw [totalOf_cons, totalOf_cons, ih]
  | swap x y _ => simp only [totalOf_cons, Nat.add_left_comm]
  | trans _ _ ih₁ ih₂ => rw [ih₁, ih₂]

/-- No number exceeds the total. -/
theorem le_totalOf_of_mem {x : Nat} {xs : List Nat} (h : x ∈ xs) : x ≤ totalOf xs := by
  induction xs with
  | nil => cases h
  | cons y ys ih =>
    rcases List.mem_cons.1 h with rfl | h
    · simp
    · exact Nat.le_trans (ih h) (Nat.le_add_left _ _)

end CoinPurse
