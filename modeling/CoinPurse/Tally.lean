import CoinPurse.Total

/-!
# Stacks that know their total

A run of change generation claims inputs and proposes outputs one at a time, gives them back in the
opposite order, and asks at every step how many there are and what they are worth together. A
`Tally` is a stack that carries these two figures. They are fixed by the items, so two tallies with
the same items are equal (`Tally.ext_items`).
-/

namespace CoinPurse

/-- A stack of items, the last one pushed in front, with its height and its total worth. -/
structure Tally (α : Type) (worth : α → Nat) where
  /-- the items, most recent first -/
  items : List α
  /-- how many items there are -/
  size : Nat
  /-- what the items are worth together -/
  total : Nat
  size_eq : size = items.length
  total_eq : total = totalOf (items.map worth)

namespace Tally

variable {α : Type} {worth : α → Nat}

/-- The stack with nothing on it. -/
def empty : Tally α worth := ⟨[], 0, 0, rfl, rfl⟩

/-- The stack with these items, the first one on top. -/
def ofList (items : List α) : Tally α worth :=
  ⟨items, items.length, totalOf (items.map worth), rfl, rfl⟩

/-- One more item on top. -/
def push (t : Tally α worth) (x : α) : Tally α worth :=
  ⟨x :: t.items, t.size + 1, worth x + t.total, by simp [t.size_eq], by simp [t.total_eq]⟩

/-- The stack without its top item; the empty stack stays empty. -/
def pop (t : Tally α worth) : Tally α worth :=
  match h : t.items with
  | [] => t
  | x :: rest => ⟨rest, t.size - 1, t.total - worth x,
      by simp [t.size_eq, h], by simp [t.total_eq, h]⟩

/-- The items in the order in which they were pushed. -/
def toList (t : Tally α worth) : List α := t.items.reverse

/-- The figures are fixed by the items. -/
theorem ext_items {s t : Tally α worth} (h : s.items = t.items) : s = t := by
  cases s; cases t; simp_all

@[simp] theorem items_empty : (empty : Tally α worth).items = [] := rfl
@[simp] theorem items_ofList (xs : List α) : (ofList xs : Tally α worth).items = xs := rfl
@[simp] theorem items_push (t : Tally α worth) (x : α) : (t.push x).items = x :: t.items := rfl

@[simp] theorem items_pop (t : Tally α worth) : t.pop.items = t.items.tail := by
  unfold pop
  split <;> simp_all

end Tally

end CoinPurse
