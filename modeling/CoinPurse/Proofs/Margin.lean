import CoinPurse.Proofs.Cost
import CoinPurse.Proofs.Draft
import Mathlib.Data.List.Perm.Subperm

/-!
# What a selection of candidates leaves

Given the terms, a selection of candidates pays for the transaction without change, or it does not;
its `Terms.margin` is what it leaves, negative if it falls short. A draft without change outputs has
as its excess the margin of what it has claimed (`Draft.excess_eq_margin`).

A larger selection is not always a better one, since every input adds to the fee. But among
selections of one size the fee is the same, so the candidates that are worth most are as good as any
(`Terms.margin_le_of_subperm`).
-/

namespace CoinPurse

section
variable {xs ys zs : List Nat} {m : Nat}

/-- Numbers that are at most `m` each add up to at most as many times `m`. -/
theorem totalOf_le_mul (h : ∀ x ∈ xs, x ≤ m) : totalOf xs ≤ xs.length * m := by
  induction xs with
  | nil => exact Nat.zero_le _
  | cons x xs ih =>
    obtain ⟨hx, hxs⟩ := List.forall_mem_cons.1 h
    rw [totalOf_cons, List.length_cons, Nat.succ_mul, Nat.add_comm]
    exact Nat.add_le_add (ih hxs) hx

/-- What is left out of a list of numbers that are at least `m` each is worth at least as many times
`m`. -/
theorem totalOf_add_mul_le (h : xs.Sublist ys) (hm : ∀ y ∈ ys, m ≤ y) :
    totalOf xs + ys.length * m ≤ totalOf ys + xs.length * m := by
  induction h with
  | slnil => exact Nat.le_refl _
  | cons y hsub ih =>
    obtain ⟨hy, hys⟩ := List.forall_mem_cons.1 hm
    have hrest := ih hys
    rw [totalOf_cons, List.length_cons, Nat.succ_mul]
    omega
  | cons_cons y hsub ih =>
    obtain ⟨hy, hys⟩ := List.forall_mem_cons.1 hm
    have hrest := ih hys
    simp only [totalOf_cons, List.length_cons, Nat.succ_mul]
    omega

/-- **Exchange.** Of all numbers, those at least `m` add up to no less than any selection of no more
numbers: each one selected from below `m` makes room for one from above. -/
theorem totalOf_le_of_subperm (hxs : ∀ x ∈ xs, m ≤ x) (hys : ∀ y ∈ ys, y ≤ m)
    (hsub : zs.Subperm (xs ++ ys)) (hlength : zs.length ≤ xs.length) :
    totalOf zs ≤ totalOf xs := by
  obtain ⟨_, hperm, hsub⟩ := hsub
  -- up to order, a selection consists of some numbers from above `m` and some from below
  obtain ⟨above, below, rfl, habove, hbelow⟩ := List.sublist_append_iff.1 hsub
  have hupper : totalOf below ≤ below.length * m :=
    totalOf_le_mul fun y hy => hys y (hbelow.subset hy)
  have hlower := totalOf_add_mul_le habove hxs
  have hroom : below.length * m + above.length * m ≤ xs.length * m := by
    rw [← Nat.add_mul]
    apply Nat.mul_le_mul_right
    rw [← hperm.length_eq, List.length_append] at hlength
    omega
  rw [← totalOf_perm hperm, totalOf_append]
  omega

end

/-! ## What is claimed first -/

section
variable {held available : List Candidate} {c : Candidate}

/-- As long as nothing is claimed, some amount divides what is claimed from what is available. -/
theorem exists_dividing_nil (available : List Candidate) :
    ∃ m, (∀ x ∈ ([] : List Candidate), m ≤ x.satoshis) ∧ ∀ x ∈ available, x.satoshis ≤ m :=
  ⟨totalOf (available.map (·.satoshis)), fun _ hx => (nomatch hx),
    fun _ hx => le_totalOf_of_mem (List.mem_map_of_mem hx)⟩

/-- Where some amount divides them, a candidate that is claimed is worth no more than the claims
before it. -/
theorem forall_le_cons_of_dividing
    (h : ∃ m, (∀ x ∈ held, m ≤ x.satoshis) ∧ ∀ x ∈ available, x.satoshis ≤ m)
    (hc : c ∈ available) : ∀ x ∈ c :: held, c.satoshis ≤ x.satoshis := by
  obtain ⟨m, hheld, hm⟩ := h
  exact List.forall_mem_cons.2
    ⟨Nat.le_refl _, fun x hx => Nat.le_trans (hm c hc) (hheld x hx)⟩

end

namespace Terms

variable (t : Terms) {cs ds es : List Candidate}

/-- What candidates leave when they are all that is claimed for a transaction without change. -/
def margin (cs : List Candidate) : Int :=
  (t.inputTotal : Int) + totalOf (cs.map (·.satoshis)) - t.costFor cs.length 0

/-- The order of the candidates does not matter. -/
theorem margin_perm (h : cs.Perm ds) : t.margin cs = t.margin ds := by
  rw [margin, margin, totalOf_perm (h.map _), h.length_eq]

/-- Candidates that are worth at least `m`, while the others are worth at most `m`, leave no less
than any selection of as many. -/
theorem margin_le_of_subperm {m : Nat} (hcs : ∀ c ∈ cs, m ≤ c.satoshis)
    (hds : ∀ d ∈ ds, d.satoshis ≤ m) (hsub : es.Subperm (cs ++ ds))
    (hlength : es.length = cs.length) : t.margin es ≤ t.margin cs := by
  have hworth : totalOf (es.map (·.satoshis)) ≤ totalOf (cs.map (·.satoshis)) := by
    obtain ⟨es', hperm, hsub'⟩ := hsub
    refine totalOf_le_of_subperm (m := m) (List.forall_mem_map.2 hcs) (List.forall_mem_map.2 hds)
      ⟨es'.map (·.satoshis), hperm.map _, ?_⟩ (by simp only [List.length_map]; omega)
    rw [← List.map_append]
    exact hsub'.map _
  rw [margin, margin, hlength]
  omega

end Terms

namespace Draft

variable {t : Terms} {d : Draft}

/-- Without change outputs nothing is set aside for change. -/
theorem total_change_eq_zero (h : d.change.size = 0) : d.change.total = 0 := by
  rw [d.change.total_eq, Tally.items_eq_nil_iff.2 h]
  rfl

/-- Without change outputs, the excess of a draft is what its claims leave. -/
theorem excess_eq_margin (h : d.change.size = 0) : d.excess t = t.margin d.claimed.items := by
  rw [excess, excessWith_eq, h, total_change_eq_zero h, Terms.margin, ← d.claimed.size_eq,
    d.claimed.total_eq, Nat.add_zero, Nat.add_zero, Int.natCast_zero, Int.sub_zero]

end Draft

end CoinPurse
