import CoinPurse.Candidate

/-!
# Allocators

Change generation does not own the pool it draws on. It speaks to an *allocator*, which claims one
candidate at a time for the run and takes claims back. An allocator is given by its two answers; its
state may be anything, and either answer may fail.

Nothing is assumed about the answers. What generation guarantees, it guarantees for every allocator.
-/

namespace CoinPurse

/-- Access to a pool of candidates on behalf of one run. The state is handed from call to call. -/
structure Allocator (σ ε : Type) where
  /-- claims a candidate for the run; `none` if the pool has nothing left -/
  claim : Ask → σ → Except ε (Option Candidate) × σ
  /-- takes back a candidate the run has claimed -/
  release : Int → σ → Except ε Unit × σ

namespace Allocator

/-- A prepared answer: a candidate, nothing, or a failure with a text. -/
abbrev Reply := Except String (Option Candidate)

/-- An allocator that gives prepared answers in order, whatever it is asked; the last one is given
again and again, and without any there is nothing to claim. It takes every claim back, except that
with the id `stuck`. -/
def prepared (stuck : Option Int) : Allocator (List Reply) String where
  claim _ replies :=
    match replies with
    | [] => (.ok none, [])
    | [last] => (last, [last])
    | reply :: rest => (reply, rest)
  release id replies :=
    if stuck = some id then (.error s!"cannot release {id}", replies) else (.ok (), replies)

end Allocator

end CoinPurse
