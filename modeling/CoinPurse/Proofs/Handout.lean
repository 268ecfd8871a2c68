import CoinPurse.Proofs.Balance
import CoinPurse.Proofs.Terms
import Mathlib.Logic.Relation

/-!
# Handing out a surplus, turn by turn

What a draft has in excess is handed out in turns, each of which looks at the draft as it stands. A
single output takes all that is left. Of several, the first is topped up if it is below the initial
amount, and otherwise a share of what is left goes to one of them, with two values drawn: one for
the share, one for the place. The turns end when nothing is left.

A relation describes the turns (`Handout.Deal`), and it allows every share and every place within
their bounds, whatever values would lead to them. Each turn hands out at least one satoshi and never
more than is left (`Deal.gives`), so no choice of shares goes on for ever (`acc_turn`) or hands out
too much. What a distribution does for all draws is said by `HandsOut`, and proved for every draft
that has an excess and outputs to take it (`finish_handsOut`). The distribution that runs is one of
those that the relation allows.
-/

namespace CoinPurse

open Relation (ReflTransGen)

namespace Draft

/-- The draft with these amounts of its change outputs, in order. -/
def withAmounts (d : Draft) (amounts : List Nat) : Draft :=
  { d with change := .ofList amounts.reverse }

/-- What a turn takes for what is left: the excess, read as a word. -/
def left (t : Terms) (d : Draft) : Nat := (d.excess t).toNat % Word.size64

/-- How a draft stands while its excess is handed out. -/
structure Enriches (t : Terms) (before after : Draft) : Prop where
  /-- the claims are the same -/
  claimed_eq : after.claimed = before.claimed
  /-- there are as many change outputs as before -/
  count_eq : after.change.size = before.change.size
  /-- with scripts as long as before -/
  scripts_eq : ∀ fee fee',
    (after.plan t after.change.toList fee).outputs.map (·.lockingScript)
      = (before.plan t before.change.toList fee').outputs.map (·.lockingScript)
  /-- so the transaction has the same size -/
  size_eq : after.size t = before.size t
  /-- no output is worth less than before -/
  grows : Grows before.change.toList after.change.toList
  /-- what the outputs have grown by is missing from the excess -/
  total_eq : (after.change.total : Int) + after.excess t = before.change.total + before.excess t
  /-- and no more than the excess was handed out -/
  covered : 0 ≤ after.excess t

/-- What a turn does: it hands out a part of what is left. -/
structure Gives (t : Terms) (before after : Draft) (part : Nat) : Prop where
  /-- the claims are the same -/
  claimed_eq : after.claimed = before.claimed
  /-- no output is worth less than before -/
  grows : Grows before.change.toList after.change.toList
  /-- together they are worth more by the part -/
  total_eq : after.change.total = before.change.total + part
  /-- which is not nothing -/
  one_le : 1 ≤ part
  /-- and not more than is left -/
  le_excess : (part : Int) ≤ before.excess t

end Draft

/-- A distribution under way. -/
structure Handout where
  /-- the draft as it stands -/
  draft : Draft
  /-- how many values have been drawn -/
  drawn : Nat

/-- One turn of a distribution. -/
inductive Handout.Deal (t : Terms) : Handout → Handout → Prop where
  /-- a single output takes all that is left -/
  | sole {d : Draft} {n only : Nat} (hover : 0 < d.excess t) (hchange : d.change.toList = [only]) :
      Deal t ⟨d, n⟩ ⟨d.withAmounts [only + d.left t], n⟩
  /-- the first of several is topped up -/
  | topUp {d : Draft} {n first : Nat} {others : List Nat} (hover : 0 < d.excess t)
      (hchange : d.change.toList = first :: others) (hothers : others ≠ [])
      (hlow : first < t.initialSatoshis) :
      Deal t ⟨d, n⟩
        ⟨d.withAmounts ((first + min (d.left t) (t.initialSatoshis - first)) :: others), n⟩
  /-- one of several takes a share -/
  | share {d : Draft} {n first percent place : Nat} {others : List Nat} (hover : 0 < d.excess t)
      (hchange : d.change.toList = first :: others) (hothers : others ≠ [])
      (hfull : t.initialSatoshis ≤ first) (hleast : 2500 ≤ percent) (hmost : percent ≤ 5000)
      (hplace : place < d.change.size) :
      Deal t ⟨d, n⟩
        ⟨d.withAmounts (d.change.toList.modify place (· + Distribution.share percent (d.left t))),
          n + 2⟩

/-- Turns that have come to an end. -/
def Handout.Done (t : Terms) (before after : Handout) : Prop :=
  ReflTransGen (Deal t) before after ∧ ∀ next, ¬ Deal t after next

open Handout

/-- What handing out the excess of a draft does, whatever is drawn. -/
structure Draft.HandsOut (t : Terms) (d : Draft) : Prop where
  /-- it does not go on for ever -/
  terminates : Acc (fun next h => Deal t h next) ⟨d, 0⟩
  /-- all the way, outputs only grow, and what they grow by comes out of the excess -/
  enriches : ∀ h, ReflTransGen (Deal t) ⟨d, 0⟩ h → Enriches t d h.draft
  /-- every turn hands out at least one satoshi, and never more than is left -/
  gives : ∀ h next, ReflTransGen (Deal t) ⟨d, 0⟩ h → Deal t h next →
    ∃ part, Gives t h.draft next.draft part
  /-- in the end nothing is left, and the outputs have grown by the excess exactly -/
  spent : ∀ h, Done t ⟨d, 0⟩ h → h.draft.excess t = 0 ∧
    (h.draft.change.total : Int) = d.change.total + d.excess t
  /-- a single output takes all of it, and nothing is drawn -/
  sole : ∀ only, d.change.toList = [only] → ∀ h, Done t ⟨d, 0⟩ h →
    h = ⟨d.withAmounts [only + (d.excess t).toNat], 0⟩
  /-- the first of several is topped up as far as the excess goes, before anything is drawn -/
  topUp : ∀ first others, d.change.toList = first :: others → others ≠ [] →
    first < t.initialSatoshis → ∀ h, Done t ⟨d, 0⟩ h →
      ReflTransGen (Deal t)
        ⟨d.withAmounts (min t.initialSatoshis (first + (d.excess t).toNat) :: others), 0⟩ h
  /-- and the distribution that runs does nothing else, with as many values as it draws -/
  finish : ∀ draws, ∃ n, (d.finish t draws).2.taken = draws.taken + n ∧
    Done t ⟨d, 0⟩ ⟨d.withAmounts (d.finish t draws).1, n⟩

namespace Draft

variable {t : Terms} {d before after : Draft} {amounts : List Nat} {part : Nat}

/-! ## Drafts with other amounts -/

@[simp] theorem toList_withAmounts (d : Draft) (amounts : List Nat) :
    (d.withAmounts amounts).change.toList = amounts := List.reverse_reverse amounts

@[simp] theorem withAmounts_withAmounts (d : Draft) (amounts amounts' : List Nat) :
    (d.withAmounts amounts).withAmounts amounts' = d.withAmounts amounts' := rfl

/-- With its own amounts, a draft is as it was. -/
@[simp] theorem withAmounts_toList (d : Draft) : d.withAmounts d.change.toList = d := by
  have hitems : d.change.toList.reverse = d.change.items := List.reverse_reverse _
  rw [withAmounts, hitems]
  exact congrArg (Draft.mk d.claimed) (Tally.ext_items rfl)

/-- What is left is the excess, as long as it is a word. -/
theorem left_eq (h : d.excess t < Word.size64) : d.left t = (d.excess t).toNat := by
  have hpos : 0 < Word.size64 := by decide
  rw [left, Nat.mod_eq_of_lt]
  omega

/-- Where amounts have only grown there are as many change outputs. -/
theorem size_of_grows (h : Grows before.change.toList after.change.toList) :
    after.change.size = before.change.size := by
  rw [← after.change.length_toList, ← h.length_eq, before.change.length_toList]

/-- As long as claims and change outputs are as many, satoshis only move between the change and the
excess. -/
theorem total_add_excess (hclaimed : after.claimed = before.claimed)
    (hcount : after.change.size = before.change.size) :
    (after.change.total : Int) + after.excess t = before.change.total + before.excess t := by
  rw [excess_eq, excess_eq, hclaimed, hcount]
  omega

/-- What the amounts gain, the excess loses. -/
theorem excess_withAmounts (t : Terms) (d : Draft) (amounts : List Nat)
    (h : amounts.length = d.change.toList.length) :
    (d.withAmounts amounts).excess t = d.excess t + totalOf d.change.toList - totalOf amounts := by
  have hcount : (d.withAmounts amounts).change.size = d.change.size := by
    rw [← Tally.length_toList, toList_withAmounts, h, d.change.length_toList]
  have hmoved : ((d.withAmounts amounts).change.total : Int) + (d.withAmounts amounts).excess t
      = d.change.total + d.excess t := total_add_excess rfl hcount
  rw [← totalOf_change, ← totalOf_change, toList_withAmounts] at hmoved
  omega

/-- A draft whose outputs have grown, out of its excess, stands as it should. -/
theorem Enriches.of_grows (hclaimed : after.claimed = before.claimed)
    (hgrows : Grows before.change.toList after.change.toList) (hcovered : 0 ≤ after.excess t) :
    Enriches t before after := by
  have hcount := size_of_grows hgrows
  refine ⟨hclaimed, hcount, fun fee fee' => ?_, ?_, hgrows, total_add_excess hclaimed hcount,
    hcovered⟩
  · simp only [plan, List.map_map, Function.comp_def, List.map_const']
    rw [hgrows.length_eq]
  · rw [size, size, sizeWith_eq, sizeWith_eq, hclaimed, hcount]

/-- What has been handed out is no longer left. -/
theorem Enriches.excess_le (h : Enriches t before after) : after.excess t ≤ before.excess t := by
  have hgrown := h.grows.totalOf_le
  rw [totalOf_change, totalOf_change] at hgrown
  have := h.total_eq
  omega

/-- A part that is handed out is no longer left. -/
theorem Gives.excess_eq (h : Gives t before after part) :
    after.excess t = before.excess t - part := by
  have hmoved := total_add_excess (t := t) h.claimed_eq (size_of_grows h.grows)
  rw [h.total_eq] at hmoved
  omega

/-- A turn leaves a draft as it should stand. -/
theorem Enriches.gives (h : Enriches t d before) (hgives : Gives t before after part) :
    Enriches t d after := by
  refine .of_grows (hgives.claimed_eq.trans h.claimed_eq) (h.grows.trans hgives.grows) ?_
  rw [hgives.excess_eq]
  have := hgives.le_excess
  omega

/-- A part is handed out by amounts that have grown by it. -/
theorem Gives.of_amounts (hgrows : Grows d.change.toList amounts)
    (htotal : totalOf amounts = totalOf d.change.toList + part) (hone : 1 ≤ part)
    (hle : (part : Int) ≤ d.excess t) : Gives t d (d.withAmounts amounts) part := by
  refine ⟨rfl, by rwa [toList_withAmounts], ?_, hone, hle⟩
  rw [← totalOf_change, ← totalOf_change, toList_withAmounts, htotal]

end Draft

namespace Handout

open Draft

variable {t : Terms} {d : Draft} {h next : Handout} {n first only : Nat} {others : List Nat}

/-! ## One turn -/

/-- A share is a part of what is left. -/
theorem gives_share {percent place : Nat} (hover : 0 < d.excess t)
    (hword : d.excess t < Word.size64) (hmost : percent ≤ 5000) (hplace : place < d.change.size) :
    Gives t d
      (d.withAmounts (d.change.toList.modify place (· + Distribution.share percent (d.left t))))
      (Distribution.share percent (d.left t)) := by
  have hleft := left_eq hword
  have hplace' : place < d.change.toList.length := by rwa [d.change.length_toList]
  have hshare : Distribution.share percent (d.left t) ≤ d.left t :=
    Distribution.share_le (Nat.le_trans hmost (by decide)) (by omega)
  exact .of_amounts (.modify _ _ _) (totalOf_modify _ hplace') (Distribution.one_le_share _ _)
    (by omega)

/-- **What a turn does.** It hands out a part of what is left. -/
theorem Deal.gives (hturn : Deal t ⟨d, n⟩ next) (hword : d.excess t < Word.size64) :
    ∃ part, Gives t d next.draft part := by
  have hleft := left_eq hword
  cases hturn with
  | @sole _ _ only hover hchange =>
    refine ⟨d.left t, .of_amounts ?_ ?_ (by omega) (by omega)⟩
    · rw [hchange]
      exact .cons (Nat.le_add_right _ _) .nil
    · rw [hchange, totalOf_cons, totalOf_cons]
      omega
  | @topUp _ _ first others hover hchange hothers hlow =>
    refine ⟨min (d.left t) (t.initialSatoshis - first), .of_amounts ?_ ?_ (by omega) (by omega)⟩
    · rw [hchange]
      exact .cons (Nat.le_add_right _ _) (Grows.refl others)
    · rw [hchange, totalOf_cons, totalOf_cons]
      omega
  | @share _ _ first percent place others hover hchange hothers hfull hleast hmost hplace =>
    exact ⟨_, gives_share hover hword hmost hplace⟩

/-- Where a single output takes all, nothing else can happen. -/
theorem Deal.eq_of_sole (hturn : Deal t ⟨d, n⟩ next) (hchange : d.change.toList = [only]) :
    next = ⟨d.withAmounts [only + d.left t], n⟩ := by
  cases hturn with
  | sole _ hchange' =>
    obtain rfl := List.singleton_injective (hchange'.symm.trans hchange)
    rfl
  | topUp _ hchange' hothers => exact absurd (List.cons.inj (hchange'.symm.trans hchange)).2 hothers
  | share _ hchange' hothers => exact absurd (List.cons.inj (hchange'.symm.trans hchange)).2 hothers

/-- Where the first of several outputs is below the initial amount, nothing else can happen than
that it is topped up. -/
theorem Deal.eq_of_low (hturn : Deal t ⟨d, n⟩ next) (hchange : d.change.toList = first :: others)
    (hothers : others ≠ []) (hlow : first < t.initialSatoshis) :
    next = ⟨d.withAmounts ((first + min (d.left t) (t.initialSatoshis - first)) :: others), n⟩ := by
  cases hturn with
  | sole _ hchange' => exact absurd (List.cons.inj (hchange.symm.trans hchange')).2 hothers
  | topUp _ hchange' =>
    obtain ⟨rfl, rfl⟩ := List.cons.inj (hchange'.symm.trans hchange)
    rfl
  | share _ hchange' _ hfull =>
    obtain ⟨rfl, -⟩ := List.cons.inj (hchange'.symm.trans hchange)
    omega

/-- While something is left there is a turn. -/
theorem exists_turn (n : Nat) (hover : 0 < d.excess t) (hchange : d.change.size ≠ 0) :
    ∃ next, Deal t ⟨d, n⟩ next := by
  rcases hlist : d.change.toList with _ | ⟨first, others⟩
  · rw [← d.change.length_toList, hlist] at hchange
    exact absurd rfl hchange
  · by_cases hothers : others = []
    · exact ⟨_, .sole hover (hothers ▸ hlist)⟩
    · rcases Nat.lt_or_ge first t.initialSatoshis with hlow | hfull
      · exact ⟨_, .topUp hover hlist hothers hlow⟩
      · exact ⟨_, .share hover hlist hothers hfull (Nat.le_refl 2500) (by decide)
          (Nat.pos_of_ne_zero hchange)⟩

/-- With nothing left there is none. -/
theorem not_turn (hspent : d.excess t = 0) : ¬ Deal t ⟨d, n⟩ next := by
  intro hturn
  cases hturn <;> omega

/-! ## All turns -/

/-- **No turns without end**: each of them leaves less. -/
theorem acc_turn (hword : h.draft.excess t < Word.size64) :
    Acc (fun next h => Deal t h next) h := by
  induction hleft : (h.draft.excess t).toNat using Nat.strongRecOn generalizing h with
  | _ left ih =>
    refine Acc.intro h fun next hturn => ?_
    obtain ⟨part, hgives⟩ := Deal.gives hturn hword
    have hexcess := hgives.excess_eq
    have hone := hgives.one_le
    have hle := hgives.le_excess
    exact ih (next.draft.excess t).toNat (by omega) (by omega) rfl

/-- **All the way**, outputs only grow, and what they grow by comes out of the excess. -/
theorem enriches_of_turns (hturns : ReflTransGen (Deal t) ⟨d, n⟩ h) (hcovered : 0 ≤ d.excess t)
    (hword : d.excess t < Word.size64) : Enriches t d h.draft := by
  induction hturns with
  | refl => exact .of_grows rfl (.refl _) hcovered
  | tail _ hturn ih =>
    obtain ⟨part, hgives⟩ := Deal.gives hturn (Int.lt_of_le_of_lt ih.excess_le hword)
    exact ih.gives hgives

/-- Turns that have come to an end have left nothing. -/
theorem excess_of_done (hdone : Done t ⟨d, n⟩ h) (hcovered : 0 ≤ d.excess t)
    (hword : d.excess t < Word.size64) (hchange : d.change.size ≠ 0) : h.draft.excess t = 0 := by
  obtain ⟨hturns, hlast⟩ := hdone
  have henriches := enriches_of_turns hturns hcovered hword
  by_contra hne
  have hover : 0 < h.draft.excess t := by
    have := henriches.covered
    omega
  obtain ⟨next, hturn⟩ := exists_turn h.drawn hover (henriches.count_eq ▸ hchange)
  exact hlast next hturn

/-- Turns that have come to an end went by way of what the first of them has to lead to. -/
theorem turns_of_only (first : Handout) (hdone : Done t ⟨d, n⟩ h) (hcovered : 0 ≤ d.excess t)
    (hword : d.excess t < Word.size64) (hchange : d.change.size ≠ 0)
    (honly : ∀ next, Deal t ⟨d, n⟩ next → next = first)
    (hnone : d.excess t = 0 → first = ⟨d, n⟩) : ReflTransGen (Deal t) first h := by
  rcases ReflTransGen.cases_head hdone.1 with rfl | ⟨next, hturn, hturns⟩
  · have hspent := excess_of_done hdone hcovered hword hchange
    obtain rfl := hnone hspent
    exact .refl
  · exact honly next hturn ▸ hturns

/-- The first of several outputs has been topped up as far as the excess goes. -/
theorem turns_topUp (n : Nat) (hword : d.excess t < Word.size64)
    (hchange : d.change.toList = first :: others) (hothers : others ≠ []) :
    ReflTransGen (Deal t) ⟨d, n⟩
      ⟨d.withAmounts
        ((first + min (d.excess t).toNat (t.initialSatoshis - first)) :: others), n⟩ := by
  by_cases hneeded : 0 < d.excess t ∧ first < t.initialSatoshis
  · obtain ⟨hover, hlow⟩ := hneeded
    rw [← left_eq hword]
    exact .single (.topUp hover hchange hothers hlow)
  · have hnone : min (d.excess t).toNat (t.initialSatoshis - first) = 0 := by omega
    rw [hnone, Nat.add_zero, ← hchange, withAmounts_toList]

/-- **Random shares are turns**, as soon as the first of several outputs is worth the initial
amount. -/
theorem turns_scatter {steps : Nat} (n : Nat) (draws : Draws) (hsteps : (d.excess t).toNat ≤ steps)
    (hcovered : 0 ≤ d.excess t) (hword : d.excess t < Word.size64)
    (hchange : d.change.toList = first :: others) (hothers : others ≠ [])
    (hfull : 0 < d.excess t → t.initialSatoshis ≤ first) :
    ∃ m, (Distribution.scatter steps (d.excess t).toNat d.change.toList draws).2.taken
        = draws.taken + m ∧
      ReflTransGen (Deal t) ⟨d, n⟩
        ⟨d.withAmounts (Distribution.scatter steps (d.excess t).toNat d.change.toList draws).1,
          n + m⟩ := by
  -- a step is a turn, and what is left afterwards needs one step less
  induction steps generalizing d n draws first others with
  | zero => exact ⟨0, rfl, by simpa [Distribution.scatter] using ReflTransGen.refl⟩
  | succ steps ih =>
    rcases Nat.eq_zero_or_pos (d.excess t).toNat with hnone | hleft
    · rw [hnone]
      exact ⟨0, rfl, by simpa [Distribution.scatter] using ReflTransGen.refl⟩
    · have hover : 0 < d.excess t := by omega
      have hne : d.change.toList ≠ [] := by simp [hchange]
      obtain ⟨percent, place, draws', hleast, hmost, hplace, htaken, heq⟩ :=
        Distribution.exists_scatter_succ steps draws hleft hne
      have hplace' : place < d.change.size := d.change.length_toList ▸ hplace
      have hturn : Deal t ⟨d, n⟩ _ :=
        .share hover hchange hothers (hfull hover) hleast hmost hplace'
      have hgives := gives_share hover hword hmost hplace'
      rw [left_eq hword] at hturn hgives
      have hexcess := hgives.excess_eq
      have hle := hgives.le_excess
      have hone := hgives.one_le
      -- the first output is still worth the initial amount, so the next turn is a share too
      obtain ⟨first', others', hfirst, hrest, hchange'⟩ := hgives.grows.exists_cons hchange
      have hothers' : others' ≠ [] := by
        rintro rfl
        exact hothers (List.forall₂_nil_right_iff.1 hrest)
      obtain ⟨m, htaken', hturns⟩ := ih (n + 2) draws' (by omega) (by omega) (by omega) hchange'
        hothers' fun _ => Nat.le_trans (hfull hover) hfirst
      have hleft' : (d.excess t).toNat - Distribution.share percent (d.excess t).toNat
          = ((d.withAmounts (d.change.toList.modify place
            (· + Distribution.share percent (d.excess t).toNat))).excess t).toNat := by omega
      rw [toList_withAmounts, ← hleft', ← heq] at htaken' hturns
      rw [withAmounts_withAmounts, Nat.add_assoc] at hturns
      exact ⟨2 + m, by omega, .head hturn hturns⟩

/-- **The distribution that runs** is one that the relation allows. -/
theorem turns_finish (draws : Draws) (hcovered : 0 ≤ d.excess t) (hword : d.excess t < Word.size64)
    (hchange : d.change.size ≠ 0) :
    ∃ n, (d.finish t draws).2.taken = draws.taken + n ∧
      ReflTransGen (Deal t) ⟨d, 0⟩ ⟨d.withAmounts (d.finish t draws).1, n⟩ := by
  rw [finish]
  rcases hlist : d.change.toList with _ | ⟨first, _ | ⟨second, rest⟩⟩
  · rw [← d.change.length_toList, hlist] at hchange
    exact absurd rfl hchange
  · refine ⟨0, rfl, ?_⟩
    rcases Int.le_iff_eq_or_lt.1 hcovered with hnone | hover
    · simp only [Distribution.spread, ← hnone]
      rw [Int.toNat_zero, Nat.add_zero, ← hlist, withAmounts_toList]
    · simp only [Distribution.spread]
      rw [← left_eq hword]
      exact .single (.sole hover hlist)
  · have hothers : second :: rest ≠ [] := List.cons_ne_nil _ _
    have htopUp := turns_topUp 0 hword hlist hothers
    simp only [Distribution.spread]
    generalize hpart : min (d.excess t).toNat (t.initialSatoshis - first) = part at htopUp ⊢
    have hexcess := excess_withAmounts t d ((first + part) :: second :: rest) (by rw [hlist]; rfl)
    rw [hlist, totalOf_cons, totalOf_cons (first + part)] at hexcess
    -- unless the excess is used up, the first output is worth the initial amount by now
    obtain ⟨m, htaken, hturns⟩ := turns_scatter (t := t) 0 draws (Nat.le_refl _) (by omega)
      (by omega) (toList_withAmounts d ((first + part) :: second :: rest)) hothers (by omega)
    have hleft : ((d.withAmounts ((first + part) :: second :: rest)).excess t).toNat
        = (d.excess t).toNat - part := by omega
    rw [toList_withAmounts, hleft, Nat.zero_add] at hturns
    rw [toList_withAmounts, hleft] at htaken
    exact ⟨m, htaken, htopUp.trans hturns⟩

end Handout

/-- **Handing out an excess**, whatever is drawn. Every draft that has an excess, and change outputs
to take it, hands it out turn by turn until nothing is left. -/
theorem Draft.finish_handsOut (t : Terms) (d : Draft) (hcovered : 0 ≤ d.excess t)
    (hword : d.excess t < Word.size64) (hchange : d.change.size ≠ 0) : HandsOut t d where
  terminates := acc_turn hword
  enriches h hturns := enriches_of_turns hturns hcovered hword
  gives h next hturns hturn :=
    Deal.gives hturn
      (Int.lt_of_le_of_lt (enriches_of_turns hturns hcovered hword).excess_le hword)
  spent h hdone := by
    have hspent := excess_of_done hdone hcovered hword hchange
    have htotal := (enriches_of_turns hdone.1 hcovered hword).total_eq
    exact ⟨hspent, by omega⟩
  sole only hlist h hdone := by
    have hturns := turns_of_only ⟨d.withAmounts [only + (d.excess t).toNat], 0⟩ hdone hcovered hword
      hchange (fun next hturn => by rw [hturn.eq_of_sole hlist, left_eq hword])
      fun hnone => by rw [hnone, Int.toNat_zero, Nat.add_zero, ← hlist, withAmounts_toList]
    have hexcess := excess_withAmounts t d [only + (d.excess t).toNat] (by rw [hlist]; rfl)
    rw [hlist, totalOf_cons, totalOf_cons] at hexcess
    rcases ReflTransGen.cases_head hturns with heq | ⟨next, hturn, -⟩
    · exact heq.symm
    · exact absurd hturn (not_turn (by omega))
  topUp first others hlist hothers hlow h hdone := by
    refine turns_of_only _ hdone hcovered hword hchange (fun next hturn => ?_) fun hnone => ?_
    · have hpart : min t.initialSatoshis (first + (d.excess t).toNat)
          = first + min (d.left t) (t.initialSatoshis - first) := by
        rw [left_eq hword]
        omega
      rw [hturn.eq_of_low hlist hothers hlow, hpart]
    · have hfirst : min t.initialSatoshis (first + (d.excess t).toNat) = first := by omega
      rw [hfirst, ← hlist, withAmounts_toList]
  finish draws := by
    obtain ⟨n, htaken, hturns⟩ := turns_finish draws hcovered hword hchange
    refine ⟨n, htaken, hturns, fun next => not_turn ?_⟩
    have htotal := totalOf_finish draws hcovered fun hnone => absurd hnone hchange
    have hlength : (d.finish t draws).1.length = d.change.toList.length := by
      rw [length_finish, d.change.length_toList]
    rw [excess_withAmounts t d _ hlength, htotal, totalOf_change]
    omega

/-- A draft with two change outputs, the first of which is below the initial amount. -/
def Draft.pair : Draft := ⟨.ofList [⟨1, 6000⟩], .ofList [1000, 285]⟩

/-- Of an excess of 3689 satoshis 715 top up the first output, and the rest is handed out at
random. -/
theorem Draft.finish_handsOut_pair :
    0 ≤ Draft.pair.excess (.payment 100 1000) ∧
    Draft.pair.excess (.payment 100 1000) < Word.size64 ∧ Draft.pair.change.size ≠ 0 ∧
    Draft.pair.excess (.payment 100 1000) = 3689 ∧ Draft.pair.change.toList = [285, 1000] ∧
    HandsOut (.payment 100 1000) Draft.pair :=
  ⟨by decide, by decide, by decide, by decide, rfl,
    Draft.finish_handsOut (.payment 100 1000) Draft.pair (by decide) (by decide) (by decide)⟩

end CoinPurse
