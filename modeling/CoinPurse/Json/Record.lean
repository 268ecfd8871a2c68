import CoinPurse.Json.Basic

/-!
# Reading records

A record is read from an object with its fields by name, or from a list with its fields in order.
In an object, names the record does not know are passed over, and a name it knows may stand only
once. A list may be shorter than the record, but not longer. Either way a field may be missing;
whether that is acceptable, and what it then is, is decided field by field.

All reasons for not reading a value count as one, so readers give an option.
-/

namespace CoinPurse.Json

/-- Reads a value of some type. -/
abbrev Reader (α : Type) := Json → Option α

/-- The fields of a record that are present. -/
abbrev Fields := String → Option Json

/-- The fields of a record with these names. -/
def record (names : List String) : Reader Fields
  | obj fields =>
    if names.all fun n => (fields.filter (·.1 == n)).length ≤ 1 then
      some fun n => (fields.find? (·.1 == n)).map (·.2)
    else none
  | arr items =>
    if items.length ≤ names.length then some fun n => items[names.idxOf n]? else none
  | _ => none

namespace Fields

/-- A field that has to be present. -/
def need {α : Type} (f : Fields) (name : String) (read : Reader α) : Option α := (f name).bind read

/-- A field that may be missing. -/
def orElse {α : Type} (f : Fields) (name : String) (read : Reader α) (missing : α) : Option α :=
  match f name with
  | none => some missing
  | some j => read j

end Fields

/-- A natural number up to a limit. -/
def natUpTo (limit : Nat) : Reader Nat
  | int n => if 0 ≤ n && n ≤ (limit : Int) then some n.toNat else none
  | _ => none

/-- An unsigned 64-bit word. -/
def word64 : Reader Nat := natUpTo Word.max64

/-- An unsigned 32-bit word. -/
def word32 : Reader Nat := natUpTo Word.max32

/-- A signed 64-bit word. -/
def signed64 : Reader Int
  | int n => if Word.minSigned64 ≤ n && n ≤ (Word.maxSigned64 : Int) then some n else none
  | _ => none

/-- A truth value. -/
def flag : Reader Bool
  | bool b => some b
  | _ => none

/-- A text. -/
def text : Reader String
  | str s => some s
  | _ => none

/-- A float, written in any way a number can be. -/
def float : Reader Float
  | int n => (Literal.mk (n < 0) n.natAbs 0).toFloat?
  | decimal l => l.toFloat?
  | _ => none

/-- A list of values. -/
def list {α : Type} (read : Reader α) : Reader (List α)
  | arr items => items.mapM read
  | _ => none

/-- A value, or `null`. -/
def option {α : Type} (read : Reader α) : Reader (Option α)
  | null => some none
  | j => (read j).map some

end CoinPurse.Json
