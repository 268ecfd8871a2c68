import CoinPurse.Allocator

/-!
# Pools in memory

A pool is a list of candidates, each free or held by a session. A *session* stands for one run: it
claims free candidates, and it alone can give back what it holds. Sessions are numbered, and a
number is never used twice.

A session keeps a list of what it holds, in the order of the claims, beside the marks in the pool.
-/

namespace CoinPurse

/-- A candidate in a pool, and the number of the session that holds it. -/
structure Entry where
  /-- the candidate -/
  candidate : Candidate
  /-- the session that holds it; `none` if it is free -/
  holder : Option Nat
  deriving DecidableEq, Repr

/-- Candidates shared by several runs. -/
structure Pool where
  /-- the candidates, in the order in which they were added -/
  entries : List Entry
  /-- the number of the next session -/
  nextSession : Nat
  deriving DecidableEq, Repr

/-- One run's hold on a pool. -/
structure Session where
  /-- the number under which its entries are marked -/
  number : Nat
  /-- the candidates it holds, in the order of their claims -/
  held : List Candidate
  deriving DecidableEq, Repr

/-- A candidate that the session does not hold was to be given back. -/
structure NotHeld where
  /-- the id named -/
  id : Int
  deriving DecidableEq, Repr

/-- The sentence that reports it. -/
def NotHeld.message (e : NotHeld) : String := s!"output {e.id} is not allocated to this session"

/-- A pool seen from one of its sessions. -/
structure Holding where
  /-- the pool -/
  pool : Pool
  /-- the session -/
  session : Session
  deriving DecidableEq, Repr

namespace Pool

/-- A pool without candidates. -/
def empty : Pool := ⟨[], 0⟩

/-- Adds a candidate, unless there is one with its id; says whether it was added. -/
def insert (c : Candidate) (p : Pool) : Bool × Pool :=
  if p.entries.any (·.candidate.id == c.id) then (false, p)
  else (true, { p with entries := p.entries ++ [⟨c, none⟩] })

/-- A pool of these candidates; of several with one id the first. -/
def ofList (cs : List Candidate) : Pool := cs.foldl (fun p c => (p.insert c).2) empty

/-- The candidates that no session holds. -/
def available (p : Pool) : List Candidate :=
  (p.entries.filter (·.holder.isNone)).map (·.candidate)

/-- The candidates that some session holds. -/
def allocated (p : Pool) : List Candidate :=
  (p.entries.filter (·.holder.isSome)).map (·.candidate)

/-- Opens a session. -/
def openSession (p : Pool) : Holding :=
  ⟨{ p with nextSession := p.nextSession + 1 }, ⟨p.nextSession, []⟩⟩

/-- Marks the entry with this id as held by a session, or as free. -/
def mark (id : Int) (holder : Option Nat) (p : Pool) : Pool :=
  { p with entries := p.entries.map fun e => if e.candidate.id == id then { e with holder } else e }

/-- Whether the entry with this id is marked with the session. -/
def isHeldBy (p : Pool) (number : Nat) (id : Int) : Bool :=
  p.entries.any fun e => e.candidate.id == id && e.holder == some number

end Pool

namespace Holding

/-- Claims the free candidate that answers the request best. -/
def claim (ask : Ask) (h : Holding) : Option Candidate × Holding :=
  match Candidate.choose h.pool.available ask with
  | none => (none, h)
  | some c =>
    (some c,
      { pool := h.pool.mark c.id (some h.session.number)
        session := { h.session with held := h.session.held ++ [c] } })

/-- Gives back a candidate the session holds. -/
def release (id : Int) (h : Holding) : Except NotHeld Unit × Holding :=
  if h.session.held.any (·.id == id) && h.pool.isHeldBy h.session.number id then
    (.ok (),
      { pool := h.pool.mark id none
        session := { h.session with held := h.session.held.eraseP (·.id == id) } })
  else (.error ⟨id⟩, h)

/-- Frees every entry marked with the session; says how many there were. -/
def abort (h : Holding) : Nat × Holding :=
  let mine (e : Entry) : Bool := e.holder == some h.session.number
  (h.pool.entries.countP mine,
    { pool :=
        { h.pool with
          entries := h.pool.entries.map fun e => if mine e then { e with holder := none } else e }
      session := { h.session with held := [] } })

/-- Removes every entry marked with the session, which ends; hands over what it held. -/
def finalize (h : Holding) : List Candidate × Pool :=
  (h.session.held,
    { h.pool with entries := h.pool.entries.filter (·.holder != some h.session.number) })

/-- A session as the allocator of a run. -/
def allocator : Allocator Holding NotHeld where
  claim ask h :=
    let (answer, h) := h.claim ask
    (.ok answer, h)
  release := release

end Holding

end CoinPurse
