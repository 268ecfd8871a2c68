import CoinPurse.Candidate
import Mathlib.Data.List.Induction

/-!
# What is selected

The search for the best member finds one that no other member beats, provided `beats` is a strict
weak order (`best?_unbeaten`). So a request is answered by a candidate that fits exactly, or covers
the target, or else by the largest candidate there is (`Candidate.choose_cases`); it goes unanswered
only if there is none (`Candidate.choose_eq_none_iff`).

The order of the members does not matter if any two of them are told apart (`best?_perm`), and
neither do members that are not the best. So a request is answered in the same way in whatever order
the candidates are (`Candidate.choose_perm`), and with fewer of them as long as the answer is left
(`Candidate.choose_of_subset`). The search may as well be made among what the members stand for
(`best?_filter_map`), and requests may be cut down to what no candidate exceeds
(`Candidate.choose_min`).
-/

namespace CoinPurse

/-- **The best member is unbeaten.** -/
theorem best?_unbeaten {α : Type} {beats : α → α → Bool}
    (hasymm : ∀ x y, beats x y = true → beats y x = false)
    (htrans : ∀ x y z, beats x y = false → beats y z = false → beats x z = false)
    {xs : List α} {b : α} (h : best? beats xs = some b) : ∀ x ∈ xs, beats x b = false := by
  have hirrefl : ∀ x, beats x x = false := by
    intro x
    cases hx : beats x x with
    | false => rfl
    | true => exact hx ▸ hasymm x x hx
  -- the search is a fold, so the induction takes members away at the end
  induction xs using List.reverseRecOn generalizing b with
  | nil => cases h
  | append_singleton ys y ih =>
    rw [best?_concat] at h
    intro x hx
    rw [List.mem_append, List.mem_singleton] at hx
    cases hbest : best? beats ys with
    | none =>
      simp only [hbest] at h
      obtain rfl := Option.some.inj h
      rw [best?_eq_none_iff] at hbest
      rcases hx with hx | rfl
      · rw [hbest] at hx
        cases hx
      · exact hirrefl x
    | some z =>
      simp only [hbest] at h
      split at h
      · rename_i hbeats
        obtain rfl := Option.some.inj h
        rcases hx with hx | rfl
        · exact htrans x z y (ih hbest x hx) (hasymm y z hbeats)
        · exact hirrefl x
      · rename_i hbeats
        obtain rfl := Option.some.inj h
        rcases hx with hx | rfl
        · exact ih hbest x hx
        · exact Bool.eq_false_iff.2 hbeats

/-- A member that no other beats is the best, if two that do not beat each other are the same. -/
theorem best?_eq_some {α : Type} {beats : α → α → Bool}
    (hasymm : ∀ x y, beats x y = true → beats y x = false)
    (htrans : ∀ x y z, beats x y = false → beats y z = false → beats x z = false)
    {xs : List α} {b : α}
    (hantisymm : ∀ x ∈ xs, ∀ y ∈ xs, beats x y = false → beats y x = false → x = y)
    (hmem : b ∈ xs) (hb : ∀ x ∈ xs, beats x b = false) : best? beats xs = some b := by
  cases hbest : best? beats xs with
  | none =>
    rw [best?_eq_none_iff.1 hbest] at hmem
    cases hmem
  | some c =>
    have hc := best?_unbeaten hasymm htrans hbest b hmem
    have hcmem := mem_of_best? hbest
    rw [hantisymm b hmem c hcmem hc (hb c hcmem)]

/-- The order of the members does not matter to the search. -/
theorem best?_perm {α : Type} {beats : α → α → Bool}
    (hasymm : ∀ x y, beats x y = true → beats y x = false)
    (htrans : ∀ x y z, beats x y = false → beats y z = false → beats x z = false)
    {xs ys : List α}
    (hantisymm : ∀ x ∈ xs, ∀ y ∈ xs, beats x y = false → beats y x = false → x = y)
    (h : xs.Perm ys) : best? beats xs = best? beats ys := by
  cases hbest : best? beats ys with
  | none =>
    rw [best?_eq_none_iff] at hbest ⊢
    exact List.Perm.eq_nil (hbest ▸ h)
  | some b =>
    exact best?_eq_some hasymm htrans hantisymm (h.mem_iff.2 (mem_of_best? hbest))
      fun x hx => best?_unbeaten hasymm htrans hbest x (h.mem_iff.1 hx)

/-- Members that are not the best do not matter to the search: the best of some is the best of
fewer, as long as it is one of them. -/
theorem best?_filter_of_subset {α : Type} {beats : α → α → Bool} {p : α → Bool}
    (hasymm : ∀ x y, beats x y = true → beats y x = false)
    (htrans : ∀ x y z, beats x y = false → beats y z = false → beats x z = false)
    {xs ys : List α} {b : α}
    (hantisymm : ∀ x ∈ xs.filter p, ∀ y ∈ xs.filter p,
      beats x y = false → beats y x = false → x = y)
    (hsub : ys ⊆ xs) (hb : b ∈ ys) (h : best? beats (xs.filter p) = some b) :
    best? beats (ys.filter p) = some b := by
  have hfilter : ys.filter p ⊆ xs.filter p := List.filter_subset p hsub
  refine best?_eq_some hasymm htrans
    (fun x hx y hy => hantisymm x (hfilter hx) y (hfilter hy)) ?_
    fun x hx => best?_unbeaten hasymm htrans h x (hfilter hx)
  exact List.mem_filter.2 ⟨hb, (List.mem_filter.1 (mem_of_best? h)).2⟩

/-- The search looks at members only to compare them. -/
theorem best?_map {α β : Type} {beats : α → α → Bool} {beats' : β → β → Bool} (f : α → β)
    {xs : List α} (hbeats : ∀ x ∈ xs, ∀ y ∈ xs, beats' (f x) (f y) = beats x y) :
    best? beats' (xs.map f) = (best? beats xs).map f := by
  induction xs using List.reverseRecOn with
  | nil => rfl
  | append_singleton ys y ih =>
    have hys := ih fun x hx x' hx' =>
      hbeats x (List.mem_append_left _ hx) x' (List.mem_append_left _ hx')
    rw [List.map_append, List.map_singleton, best?_concat, best?_concat, hys]
    cases hbest : best? beats ys with
    | none => rfl
    | some z =>
      have hz := hbeats y (List.mem_append_right _ (List.mem_singleton_self y)) z
        (List.mem_append_left _ (mem_of_best? hbest))
      simp only [Option.map_some, hz]
      split <;> rfl

/-- The search may be made among what the members stand for. -/
theorem best?_filter_map {α β : Type} {beats : α → α → Bool} {beats' : β → β → Bool} (f : α → β)
    {p : α → Bool} {q : β → Bool} {xs : List α}
    (hbeats : ∀ x ∈ xs, ∀ y ∈ xs, beats' (f x) (f y) = beats x y)
    (hfilter : ∀ x ∈ xs, q (f x) = p x) :
    best? beats' ((xs.map f).filter q) = (best? beats (xs.filter p)).map f := by
  rw [List.filter_map, List.filter_congr (p := q ∘ f) (q := p) hfilter]
  exact best?_map f fun x hx y hy =>
    hbeats x (List.mem_filter.1 hx).1 y (List.mem_filter.1 hy).1

namespace Candidate

variable {cs : List Candidate} {ask : Ask} {c : Candidate}

/-- Of two candidates at most one beats the other by its amount. -/
theorem larger_asymm (x y : Candidate) (h : larger x y = true) : larger y x = false := by
  simp [larger] at h ⊢
  omega

/-- A candidate not beaten by one that is not beaten by a third is not beaten by the third. -/
theorem larger_trans (x y z : Candidate) (hxy : larger x y = false) (hyz : larger y z = false) :
    larger x z = false := by
  simp [larger] at hxy hyz ⊢
  omega

/-- Two candidates that do not beat each other are the same. -/
theorem larger_antisymm (x y : Candidate) (hxy : larger x y = false) (hyx : larger y x = false) :
    x = y := by
  obtain ⟨i, n⟩ := x
  obtain ⟨j, m⟩ := y
  simp [larger] at hxy hyx ⊢
  omega

/-- Of two candidates at most one beats the other by being smaller. -/
theorem smaller_asymm (x y : Candidate) (h : smaller x y = true) : smaller y x = false := by
  simp [smaller] at h ⊢
  omega

/-- If a first candidate is not smaller than a second, nor that than a third, then the first is not
smaller than the third. -/
theorem smaller_trans (x y z : Candidate) (hxy : smaller x y = false) (hyz : smaller y z = false) :
    smaller x z = false := by
  simp [smaller] at hxy hyz ⊢
  omega

/-- Of any two different candidates one is smaller than the other. -/
theorem smaller_antisymm (x y : Candidate) (hxy : smaller x y = false)
    (hyx : smaller y x = false) : x = y := by
  obtain ⟨i, n⟩ := x
  obtain ⟨j, m⟩ := y
  simp [smaller] at hxy hyx ⊢
  omega

/-- Of two candidates at most one comes earlier. -/
theorem earlier_asymm (x y : Candidate) (h : earlier x y = true) : earlier y x = false := by
  simp [earlier] at h ⊢
  omega

/-- If one does not come before a second, nor this before a third, the first does not come before
the third. -/
theorem earlier_trans (x y z : Candidate) (hxy : earlier x y = false) (hyz : earlier y z = false) :
    earlier x z = false := by
  simp [earlier] at hxy hyz ⊢
  omega

/-- Candidates of one amount are told apart by it. -/
theorem earlier_antisymm (x y : Candidate) (hworth : x.satoshis = y.satoshis)
    (hxy : earlier x y = false) (hyx : earlier y x = false) : x = y := by
  obtain ⟨i, n⟩ := x
  obtain ⟨j, m⟩ := y
  simp [earlier] at hworth hxy hyx ⊢
  omega

/-- Of two candidates the larger amount wins, so no member is larger than the best. -/
theorem le_of_best?_larger (h : best? larger cs = some c) : ∀ x ∈ cs, x.satoshis ≤ c.satoshis := by
  intro x hx
  have hunbeaten := best?_unbeaten larger_asymm larger_trans h x hx
  simp [larger] at hunbeaten
  omega

/-- Candidates of the exact amount are told apart by their ids. -/
theorem eq_of_exact {x y : Candidate}
    (hx : x ∈ cs.filter fun c => ask.exact == some c.satoshis)
    (hy : y ∈ cs.filter fun c => ask.exact == some c.satoshis)
    (hxy : earlier x y = false) (hyx : earlier y x = false) : x = y := by
  have hxe := (List.mem_filter.1 hx).2
  have hye := (List.mem_filter.1 hy).2
  rw [beq_iff_eq] at hxe hye
  exact earlier_antisymm x y (Option.some.inj (hxe.symm.trans hye)) hxy hyx

/-- **Selection does not depend on the order of the candidates.** -/
theorem choose_perm {ds : List Candidate} (h : cs.Perm ds) (ask : Ask) :
    choose cs ask = choose ds ask := by
  rw [choose, choose,
    best?_perm earlier_asymm earlier_trans (fun x hx y hy => eq_of_exact hx hy) (h.filter _),
    best?_perm smaller_asymm smaller_trans (fun x _ y _ => smaller_antisymm x y) (h.filter _),
    best?_perm larger_asymm larger_trans (fun x _ y _ => larger_antisymm x y) (h.filter _)]

/-- **Selection does not depend on candidates that are not chosen.** What is chosen from some
candidates is chosen from fewer, as long as it is one of them. -/
theorem choose_of_subset {ds : List Candidate} (hsub : ds ⊆ cs) (h : choose cs ask = some c)
    (hc : c ∈ ds) : choose ds ask = some c := by
  have hnone : ∀ {beats : Candidate → Candidate → Bool} {p : Candidate → Bool},
      best? beats (cs.filter p) = none → best? beats (ds.filter p) = none := by
    intro beats p hcs
    rw [best?_eq_none_iff, List.filter_eq_nil_iff] at hcs ⊢
    exact fun x hx => hcs x (hsub hx)
  rw [choose] at h ⊢
  cases hexact : best? earlier (cs.filter fun c => ask.exact == some c.satoshis) with
  | some b =>
    rw [hexact] at h
    obtain rfl := Option.some.inj h
    rw [best?_filter_of_subset earlier_asymm earlier_trans (fun x hx y hy => eq_of_exact hx hy)
      hsub hc hexact]
    rfl
  | none =>
    rw [hexact] at h
    rw [hnone hexact]
    cases hcover : best? smaller (cs.filter fun c => ask.target ≤ c.satoshis) with
    | some b =>
      rw [hcover] at h
      obtain rfl := Option.some.inj h
      rw [best?_filter_of_subset smaller_asymm smaller_trans
        (fun x _ y _ => smaller_antisymm x y) hsub hc hcover]
      rfl
    | none =>
      rw [hcover] at h
      rw [hnone hcover]
      exact best?_filter_of_subset larger_asymm larger_trans
        (fun x _ y _ => larger_antisymm x y) hsub hc h

/-- If none of the candidates covers the target, all are below it. -/
theorem filter_below_eq_self {target : Nat}
    (h : best? smaller (cs.filter fun c => target ≤ c.satoshis) = none) :
    cs.filter (fun c => c.satoshis < target) = cs := by
  rw [best?_eq_none_iff, List.filter_eq_nil_iff] at h
  refine List.filter_eq_self.2 fun x hx => ?_
  simpa using h x hx

/-- **How a request is answered.** The candidate chosen fits exactly, or covers the target, or is
the largest there is while none covers the target. -/
theorem choose_cases (h : choose cs ask = some c) :
    c ∈ cs ∧ (ask.exact = some c.satoshis ∨ ask.target ≤ c.satoshis ∨
      ∀ x ∈ cs, x.satoshis ≤ c.satoshis) := by
  rw [choose] at h
  cases hexact : best? earlier (cs.filter fun c => ask.exact == some c.satoshis) with
  | some b =>
    rw [hexact] at h
    obtain rfl := Option.some.inj h
    obtain ⟨hmem, hfits⟩ := List.mem_filter.1 (mem_of_best? hexact)
    exact ⟨hmem, .inl (by simpa using hfits)⟩
  | none =>
    rw [hexact] at h
    cases hcover : best? smaller (cs.filter fun c => ask.target ≤ c.satoshis) with
    | some b =>
      rw [hcover] at h
      obtain rfl := Option.some.inj h
      obtain ⟨hmem, hcovers⟩ := List.mem_filter.1 (mem_of_best? hcover)
      exact ⟨hmem, .inr (.inl (by simpa using hcovers))⟩
    | none =>
      rw [hcover] at h
      have hlargest : best? larger cs = some c := by rwa [filter_below_eq_self hcover] at h
      exact ⟨mem_of_best? hlargest, .inr (.inr (le_of_best?_larger hlargest))⟩

/-- **An exact fit is chosen** if there is one, and of several the one with the lowest id, whatever
else there is. -/
theorem exists_choose_of_exact {n : Nat} {x : Candidate} (hexact : ask.exact = some n) (hx : x ∈ cs)
    (hworth : x.satoshis = n) :
    ∃ c ∈ cs, c.satoshis = n ∧ (∀ y ∈ cs, y.satoshis = n → c.id ≤ y.id) ∧
      choose cs ask = some c := by
  have hfit : ∀ y, y ∈ cs.filter (fun c => ask.exact == some c.satoshis)
      ↔ y ∈ cs ∧ y.satoshis = n := by
    intro y
    rw [List.mem_filter, hexact, beq_iff_eq, Option.some_inj]
    exact and_congr_right fun _ => eq_comm
  cases hbest : best? earlier (cs.filter fun c => ask.exact == some c.satoshis) with
  | none =>
    have hfits := (hfit x).2 ⟨hx, hworth⟩
    rw [best?_eq_none_iff.1 hbest] at hfits
    cases hfits
  | some c =>
    obtain ⟨hmem, hc⟩ := (hfit c).1 (mem_of_best? hbest)
    refine ⟨c, hmem, hc, ?_, ?_⟩
    · intro y hy hyworth
      have hfirst := best?_unbeaten earlier_asymm earlier_trans hbest y ((hfit y).2 ⟨hy, hyworth⟩)
      simpa [earlier] using hfirst
    · rw [choose, hbest]
      rfl

/-- Where no candidate exceeds the target, the largest is chosen: the smallest that covers the
target is as large as any. -/
theorem choose_largest {target : Nat} (hle : ∀ x ∈ cs, x.satoshis ≤ target) :
    ((best? smaller (cs.filter fun c => target ≤ c.satoshis))
      <|> (best? larger (cs.filter fun c => c.satoshis < target))) = best? larger cs := by
  cases hcover : best? smaller (cs.filter fun c => target ≤ c.satoshis) with
  | some b =>
    obtain ⟨hmem, hcovers⟩ := List.mem_filter.1 (mem_of_best? hcover)
    have hcovers : target ≤ b.satoshis := by simpa using hcovers
    refine (best?_eq_some larger_asymm larger_trans (fun x _ y _ => larger_antisymm x y) hmem
      fun x hx => ?_).symm
    have hx' := hle x hx
    by_cases hsame : target ≤ x.satoshis
    · have hfirst := best?_unbeaten smaller_asymm smaller_trans hcover x
        (List.mem_filter.2 ⟨hx, by simpa using hsame⟩)
      simp [smaller] at hfirst
      simp [larger]
      omega
    · simp [larger]
      omega
  | none =>
    rw [filter_below_eq_self hcover]
    rfl

/-- **Requests beyond every amount.** If no candidate exceeds a bound, a request may be cut down to
the bound: a target above it counts as the bound, and an exact amount above it is not named. -/
theorem choose_min {bound : Nat} (hbound : ∀ x ∈ cs, x.satoshis ≤ bound) :
    choose cs ⟨min ask.target bound, ask.exact.filter (· ≤ bound)⟩ = choose cs ask := by
  have hexact : cs.filter (fun c => ask.exact.filter (· ≤ bound) == some c.satoshis)
      = cs.filter fun c => ask.exact == some c.satoshis := by
    refine List.filter_congr fun c hc => ?_
    have hle := hbound c hc
    cases ask.exact with
    | none => rfl
    | some e =>
      by_cases he : e ≤ bound
      · simp [Option.filter, he]
      · simp [Option.filter, he]
        omega
  rw [choose, choose, hexact]
  congr 1
  rcases Nat.le_total ask.target bound with htarget | htarget
  · rw [Nat.min_eq_left htarget]
  · rw [Nat.min_eq_right htarget]
    funext
    rw [choose_largest hbound, choose_largest fun x hx => Nat.le_trans (hbound x hx) htarget]

/-- A request goes unanswered only if there is nothing to choose from. -/
theorem choose_eq_none_iff : choose cs ask = none ↔ cs = [] := by
  constructor
  · intro h
    simp only [choose, Option.orElse_eq_orElse, Option.orElse_eq_or, Option.or_eq_none_iff,
      best?_eq_none_iff, List.filter_eq_nil_iff] at h
    obtain ⟨-, hcover, hbelow⟩ := h
    refine List.eq_nil_iff_forall_not_mem.2 fun x hx => ?_
    have hc := hcover x hx
    have hb := hbelow x hx
    simp only [decide_eq_true_eq] at hc hb
    omega
  · rintro rfl
    rfl

end Candidate

end CoinPurse
