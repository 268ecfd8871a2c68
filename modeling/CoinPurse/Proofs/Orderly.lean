import CoinPurse.Funding
import Mathlib.Data.List.Induction

/-!
# Orderly histories

What a run holds can be read off its history: `Event.outstanding` are the claims that have not been
given back. A history is `Orderly` if every event in it may follow what came before: nothing follows
a failure, and what is given back is the latest claim outstanding. So at no time more is given back
than was claimed (`Orderly.countP_claims`).

A `Tidy` history is an orderly one that has not failed, so that it may go on.
-/

namespace CoinPurse

variable {σ ε : Type}

namespace Event

/-- The claims not given back after one more event, the latest first. -/
def track (held : List Candidate) : Event ε → List Candidate
  | asked _ (.ok (some c)) => c :: held
  | returned id (.ok ()) => held.eraseP (·.id == id)
  | _ => held

/-- The claims that are not given back at the end of a history, the latest first. -/
def outstanding (history : List (Event ε)) : List Candidate := history.foldl track []

/-- Whether the allocator was asked for a candidate. -/
def isAsk : Event ε → Bool
  | asked _ _ => true
  | _ => false

/-- Whether a claim was given back, or was to be. -/
def isReturn : Event ε → Bool
  | returned _ _ => true
  | _ => false

/-- Whether the allocator failed. -/
def failed : Event ε → Bool
  | asked _ (.error _) | returned _ (.error _) => true
  | _ => false

/-- Whether the candidate with this id was claimed. -/
def claims (id : Int) : Event ε → Bool
  | asked _ (.ok (some c)) => c.id == id
  | _ => false

/-- Whether the claim on this id was given back. -/
def returns (id : Int) : Event ε → Bool
  | returned i (.ok ()) => i == id
  | _ => false

/-- What is given back has to be the latest claim that is not given back yet. -/
def InTurn (past : List (Event ε)) : Event ε → Prop
  | returned id _ => (outstanding past).head?.map (·.id) = some id
  | _ => True

/-- The latest claim is given back. -/
theorem track_returned (c : Candidate) (rest : List Candidate) :
    track (c :: rest) (.returned c.id (.ok ()) : Event ε) = rest := by
  simp [track]

theorem outstanding_concat (past : List (Event ε)) (e : Event ε) :
    outstanding (past ++ [e]) = e.track (outstanding past) := by
  simp only [outstanding, List.foldl_append, List.foldl_cons, List.foldl_nil]

end Event

/-- A history, in order, in which nothing follows a failure and every claim is given back in
turn. -/
inductive Orderly : List (Event ε) → Prop where
  /-- nothing has happened -/
  | nil : Orderly []
  /-- one more event -/
  | concat {past : List (Event ε)} {e : Event ε} (hpast : Orderly past)
      (hfailed : ∀ e ∈ past, e.failed = false) (hturn : e.InTurn past) : Orderly (past ++ [e])

namespace Orderly

variable {past later : List (Event ε)} {e : Event ε}

/-- An orderly history was orderly all along. -/
theorem of_append (h : Orderly (past ++ later)) : Orderly past := by
  generalize heq : past ++ later = history at h
  induction h generalizing later with
  | nil =>
    rw [(List.append_eq_nil_iff.1 heq).1]
    exact .nil
  | concat hpast hfailed hturn ih =>
    rcases List.eq_nil_or_concat later with rfl | ⟨later, x, rfl⟩
    · rw [List.append_nil] at heq
      rw [heq]
      exact .concat hpast hfailed hturn
    · rw [List.concat_eq_append, ← List.append_assoc] at heq
      exact ih (List.append_inj_left' heq rfl)

/-- In an orderly history every event comes in turn, and nothing follows a failure. -/
theorem of_append_cons (h : Orderly (past ++ e :: later)) :
    e.InTurn past ∧ (e.failed = true → later = []) := by
  -- by the last event: it is this one, or the history without it is orderly already
  generalize heq : past ++ e :: later = history at h
  induction h generalizing later with
  | nil => simp at heq
  | concat hpast hfailed hturn ih =>
    rcases List.eq_nil_or_concat later with rfl | ⟨later, x, rfl⟩
    · obtain ⟨rfl, hcons⟩ := List.append_inj' heq rfl
      obtain ⟨rfl, -⟩ := List.cons.inj hcons
      exact ⟨hturn, fun _ => rfl⟩
    · rw [List.concat_eq_append, ← List.cons_append, ← List.append_assoc] at heq
      have hinit := List.append_inj_left' heq rfl
      refine ⟨(ih hinit).1, fun he => ?_⟩
      have hmem : e ∈ past ++ e :: later := List.mem_append_right past (List.mem_cons_self ..)
      rw [hinit] at hmem
      exact absurd he (by rw [hfailed e hmem]; decide)

/-- In an orderly history every claim is outstanding or has been given back once. -/
theorem countP_claims (h : Orderly past) (id : Int) :
    past.countP (Event.claims id)
      = past.countP (Event.returns id) + (Event.outstanding past).countP (·.id == id) := by
  induction h with
  | nil => rfl
  | @concat past e hpast hfailed hturn ih =>
    rw [List.countP_append, List.countP_append, Event.outstanding_concat, ih]
    rcases e with ⟨ask, e | _ | c⟩ | ⟨i, e | ⟨⟩⟩ | left
    · rfl
    · rfl
    · simp only [Event.track, List.countP_cons, List.countP_nil, Event.claims, Event.returns,
        beq_iff_eq, Bool.false_eq_true, if_false]
      omega
    · rfl
    · obtain ⟨c, hhead, rfl⟩ := Option.map_eq_some_iff.1 hturn
      obtain ⟨rest, hheld⟩ := List.head?_eq_some_iff.1 hhead
      rw [hheld, Event.track_returned]
      simp only [List.countP_cons, List.countP_nil, Event.claims, Event.returns, beq_iff_eq,
        Bool.false_eq_true, if_false]
      omega
    · rfl

end Orderly

/-- A history, the latest event first, that is orderly so far and may go on, with what it leaves
outstanding. -/
structure Tidy (history : List (Event ε)) (held : List Candidate) : Prop where
  /-- the history is orderly -/
  orderly : Orderly history.reverse
  /-- nothing has failed in it -/
  unfailed : ∀ e ∈ history, e.failed = false
  /-- this is what it leaves outstanding -/
  outstanding_eq : Event.outstanding history.reverse = held

namespace Tidy

variable {history : List (Event ε)} {held : List Candidate} {e : Event ε}

/-- One more event in turn keeps a history orderly. -/
theorem orderly_cons (h : Tidy history held) (hturn : e.InTurn history.reverse) :
    Orderly (e :: history).reverse := by
  rw [List.reverse_cons]
  exact .concat h.orderly (fun x hx => h.unfailed x (List.mem_reverse.1 hx)) hturn

/-- A history may go on after an event that is no failure. -/
theorem cons (h : Tidy history held) (hturn : e.InTurn history.reverse)
    (hfailed : e.failed = false) : Tidy (e :: history) (e.track held) where
  orderly := h.orderly_cons hturn
  unfailed := List.forall_mem_cons.2 ⟨hfailed, h.unfailed⟩
  outstanding_eq := by rw [List.reverse_cons, Event.outstanding_concat, h.outstanding_eq]

/-- The latest claim may be given back. -/
theorem inTurn_returned {c : Candidate} {rest : List Candidate} (h : Tidy history (c :: rest))
    (reply : Except ε Unit) : (Event.returned c.id reply).InTurn history.reverse := by
  rw [Event.InTurn, h.outstanding_eq]
  rfl

/-- The latest claim is given back. -/
theorem returned {c : Candidate} {rest : List Candidate} (h : Tidy history (c :: rest)) :
    Tidy (.returned c.id (.ok ()) :: history) rest := by
  have hnext := h.cons (h.inTurn_returned (.ok ())) rfl
  rwa [Event.track_returned] at hnext

end Tidy

end CoinPurse
