import CoinPurse.Generation
import CoinPurse.Pool

/-!
# Histories of a pool

A pool is used by many sessions, one after another and side by side. A *floor* is a pool with its
live sessions, each under a name of its own. The steps of a history open sessions, use them, and
end them; opening a session under a name that is taken replaces the one that had it, whose claims
stay in the pool. -/

namespace CoinPurse

/-- A pool and its live sessions, by name, in the order in which they were opened. -/
structure Floor where
  /-- the pool -/
  pool : Pool
  /-- the live sessions -/
  sessions : List (String × Session)
  deriving DecidableEq, Repr

namespace Floor

/-- A pool of these candidates, without sessions. -/
def ofList (cs : List Candidate) : Floor := ⟨.ofList cs, []⟩

/-- Opens a session under a name. -/
def openSession (name : String) (f : Floor) : Floor :=
  let h := f.pool.openSession
  ⟨h.pool, f.sessions.filter (·.1 != name) ++ [(name, h.session)]⟩

/-- The pool as the session with this name sees it. -/
def holding? (name : String) (f : Floor) : Option Holding :=
  (f.sessions.find? (·.1 == name)).map fun (_, session) => ⟨f.pool, session⟩

/-- The floor after the session with this name has done something. -/
def put (name : String) (h : Holding) (f : Floor) : Floor :=
  ⟨h.pool, f.sessions.map fun (n, session) => if n == name then (n, h.session) else (n, session)⟩

/-- The floor after the session with this name has ended. -/
def close (name : String) (pool : Pool) (f : Floor) : Floor :=
  ⟨pool, f.sessions.filter (·.1 != name)⟩

end Floor

namespace Pool

/-- What may be done on a floor. -/
inductive Step where
  /-- add a candidate to the pool -/
  | insert (candidate : Candidate)
  /-- open a session -/
  | openSession (name : String)
  /-- claim a candidate -/
  | claim (name : String) (ask : Ask)
  /-- give back a candidate -/
  | release (name : String) (id : Int)
  /-- give back everything -/
  | abort (name : String)
  /-- take what is held out of the pool, and end -/
  | finalize (name : String)
  /-- run change generation -/
  | generate (name : String) (entropy : Nat → Float) (rounds : Nat) (terms : Terms)

/-- What comes of a step. -/
inductive Answer where
  /-- whether the candidate was added -/
  | inserted (added : Bool)
  /-- the session is open -/
  | opened
  /-- the candidate claimed, if there was one -/
  | claimed (candidate : Option Candidate)
  /-- the candidate is given back, or was not held -/
  | released (result : Except NotHeld Unit)
  /-- how many candidates were given back -/
  | aborted (released : Nat)
  /-- the candidates taken out of the pool -/
  | finalized (candidates : List Candidate)
  /-- the run has ended -/
  | generated (report : Report Holding NotHeld)
  /-- there is no session of this name -/
  | noSession

end Pool

namespace Floor

/-- Lets the session with this name do something. -/
def withSession (name : String) (f : Floor) (act : Holding → Pool.Answer × Holding) :
    Pool.Answer × Floor :=
  match f.holding? name with
  | none => (.noSession, f)
  | some h =>
    let (answer, h) := act h
    (answer, f.put name h)

/-- Takes a step. -/
def step (f : Floor) : Pool.Step → Pool.Answer × Floor
  | .insert c =>
    let (added, pool) := f.pool.insert c
    (.inserted added, { f with pool })
  | .openSession name => (.opened, f.openSession name)
  | .claim name ask => f.withSession name fun h =>
    let (c, h) := h.claim ask
    (.claimed c, h)
  | .release name id => f.withSession name fun h =>
    let (result, h) := h.release id
    (.released result, h)
  | .abort name => f.withSession name fun h =>
    let (released, h) := h.abort
    (.aborted released, h)
  | .finalize name =>
    match f.holding? name with
    | none => (.noSession, f)
    | some h =>
      let (candidates, pool) := h.finalize
      (.finalized candidates, f.close name pool)
  | .generate name entropy rounds t => f.withSession name fun h =>
    let report := CoinPurse.generate Holding.allocator entropy rounds t h
    (.generated report, report.source)

/-- The floor a history leads to. -/
def after (f : Floor) (history : List Pool.Step) : Floor :=
  history.foldl (fun f s => (f.step s).2) f

end Floor

end CoinPurse
