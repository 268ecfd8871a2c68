/-!
# Candidates and their selection

A *candidate* is an unspent change output that may serve as an input of a new transaction. A request
for funds names a target and, at times, an exact amount. Selection prefers

1. a candidate worth exactly the exact amount,
2. else the smallest candidate that covers the target,
3. else the largest candidate that does not.

Equal amounts are told apart by the lower id, so the choice does not hang on the order in which the
candidates are listed.
-/

namespace CoinPurse

/-- An unspent change output, known by the id under which it is stored. -/
structure Candidate where
  /-- the id under which the output is stored -/
  id : Int
  /-- what the output is worth -/
  satoshis : Nat
  deriving DecidableEq, Repr

/-- What is asked of a pool: an amount to reach, and at times an amount that would fit exactly. -/
structure Ask where
  /-- the amount one more input should be worth -/
  target : Nat
  /-- the amount that would need no change at all -/
  exact : Option Nat
  deriving DecidableEq, Repr

/-- The member that no other member beats; of several, the first. `beats` is a strict order. -/
def best? {α : Type} (beats : α → α → Bool) (xs : List α) : Option α :=
  xs.foldl (fun b x => match b with
    | none => some x
    | some y => if beats x y then some x else some y) none

section
variable {α : Type} {beats : α → α → Bool}

/-- One step of the search for the best member. -/
theorem best?_concat (xs : List α) (x : α) :
    best? beats (xs ++ [x]) = match best? beats xs with
      | none => some x
      | some y => if beats x y then some x else some y := by
  simp [best?]

/-- The best member is a member. -/
theorem mem_of_best? {xs : List α} {x : α} (h : best? beats xs = some x) : x ∈ xs := by
  rcases List.eq_nil_or_concat xs with rfl | ⟨ys, y, rfl⟩
  · simp [best?] at h
  · rw [List.concat_eq_append, best?_concat] at h
    cases hb : best? beats ys with
    | none => simp_all
    | some z =>
      have hz : z ∈ ys := mem_of_best? hb
      grind
termination_by xs.length
decreasing_by simp_all

/-- Only the empty list has no best member. -/
theorem best?_eq_none_iff {xs : List α} : best? beats xs = none ↔ xs = [] := by
  rcases List.eq_nil_or_concat xs with rfl | ⟨ys, y, rfl⟩
  · simp [best?]
  · rw [List.concat_eq_append, best?_concat]
    cases best? beats ys with
    | none => simp
    | some z => cases h : beats y z <;> simp [h]

end

namespace Candidate

/-- The lower id. -/
def earlier (a b : Candidate) : Bool := a.id < b.id

/-- The smaller amount, then the lower id. -/
def smaller (a b : Candidate) : Bool :=
  a.satoshis < b.satoshis || (a.satoshis == b.satoshis && a.id < b.id)

/-- The larger amount, then the lower id. -/
def larger (a b : Candidate) : Bool :=
  b.satoshis < a.satoshis || (a.satoshis == b.satoshis && a.id < b.id)

/-- The candidate that answers a request best, if there is any candidate at all. -/
def choose (cs : List Candidate) (ask : Ask) : Option Candidate :=
  (best? earlier (cs.filter fun c => ask.exact == some c.satoshis))
    <|> (best? smaller (cs.filter fun c => ask.target ≤ c.satoshis))
    <|> (best? larger (cs.filter fun c => c.satoshis < ask.target))

end Candidate

end CoinPurse
