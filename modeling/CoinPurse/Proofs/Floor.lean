import CoinPurse.Pool.History
import CoinPurse.Proofs.Generation
import CoinPurse.Proofs.Pool

/-!
# Every pool tells its candidates apart

However a pool is used, and by however many sessions, no two of its candidates ever have one id
(`Floor.distinct_after`). No step of a floor but an insertion brings a candidate into the pool, and
an insertion looks for the id first.
-/

namespace CoinPurse

/-- Whatever is asked of a session, the candidates of its pool stay the same. -/
theorem Holding.allocator_keeps (cs : List Candidate) :
    Holding.allocator.Keeps (fun h => h.pool.candidates = cs) where
  claim ask h hcs := (Holding.candidates_claim ask h).trans hcs
  release id h hcs := (Holding.candidates_release id h).trans hcs

namespace Floor

variable {f : Floor}

/-- A session sees the pool of its floor. -/
theorem pool_of_holding? {name : String} {h : Holding} (hname : f.holding? name = some h) :
    h.pool = f.pool := by
  obtain ⟨⟨_, session⟩, -, rfl⟩ := Option.map_eq_some_iff.1 hname
  rfl

/-- What is true of the pool stays true when a session does something that keeps it true. -/
theorem keeps_withSession {P : Pool → Prop} (name : String) (act : Holding → Pool.Answer × Holding)
    (hf : P f.pool) (hact : ∀ h : Holding, P h.pool → P (act h).2.pool) :
    P (f.withSession name act).2.pool := by
  rw [withSession]
  cases hname : f.holding? name with
  | none => exact hf
  | some h => exact hact h (by rwa [pool_of_holding? hname])

/-- No step brings an id into the pool twice. -/
theorem distinct_step (hf : f.pool.Distinct) (s : Pool.Step) : (f.step s).2.pool.Distinct := by
  cases s with
  | insert c => exact hf.insert c
  | openSession name => exact hf
  | claim name ask =>
    exact keeps_withSession name _ hf fun h hp => hp.congr (Holding.candidates_claim ask h)
  | release name id =>
    exact keeps_withSession name _ hf fun h hp => hp.congr (Holding.candidates_release id h)
  | abort name =>
    exact keeps_withSession name _ hf fun h hp => hp.congr (Holding.candidates_abort h)
  | finalize name =>
    simp only [step]
    cases hname : f.holding? name with
    | none => exact hf
    | some h =>
      have hsub := (Holding.candidates_finalize h).map (·.id)
      rw [pool_of_holding? hname] at hsub
      exact hsub.nodup hf
  | generate name entropy rounds t =>
    exact keeps_withSession name _ hf fun h hp =>
      hp.congr ((Holding.allocator_keeps _).generate entropy rounds t rfl)

/-- **Ids stay distinct.** Whatever has happened on a floor, no two candidates of its pool have one
id. -/
theorem distinct_after (cs : List Candidate) (history : List Pool.Step) :
    ((ofList cs).after history).pool.Distinct := by
  suffices h : ∀ f : Floor, f.pool.Distinct → (f.after history).pool.Distinct from
    h (ofList cs) (Pool.distinct_ofList cs)
  induction history with
  | nil => exact fun _ hf => hf
  | cons s history ih => exact fun f hf => ih _ (distinct_step hf s)

/-- No two candidates of the pool that a session sees have one id. -/
theorem distinct_of_holding? {cs : List Candidate} {history : List Pool.Step} {name : String}
    {h : Holding} (hname : ((ofList cs).after history).holding? name = some h) :
    h.pool.Distinct := by
  rw [pool_of_holding? hname]
  exact distinct_after cs history

end Floor

end CoinPurse
