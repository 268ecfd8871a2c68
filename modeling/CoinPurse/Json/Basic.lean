import CoinPurse.Decimal.FloatText
import CoinPurse.Word

/-!
# Values of data notation

`Json` is the data of the usual object notation, with three distinctions that readers need. An
integer literal is kept apart from a literal with a point or an exponent, since a field for an
integer takes only the former. A decimal literal keeps its digits, and becomes a float only where
one is asked for. And a text that cannot be represented, because an escape in it names half of a
surrogate pair, is `garbled`: it may be skipped, but not used. The same holds of an object with
such a key. -/

namespace CoinPurse

/-- A number literal with a point or an exponent: `± digits · 10 ^ exponent`. -/
structure Literal where
  /-- whether it has a minus sign -/
  negative : Bool
  /-- its digits, without the point -/
  digits : Nat
  /-- the power of ten they are multiplied by -/
  exponent : Int
  deriving DecidableEq, Repr

/-- A value of data notation. -/
inductive Json where
  /-- no value -/
  | null
  /-- a truth value -/
  | bool (value : Bool)
  /-- an integer literal -/
  | int (value : Int)
  /-- a literal with a point or an exponent, or a negative zero -/
  | decimal (literal : Literal)
  /-- a text -/
  | str (text : String)
  /-- something well-formed that has no value -/
  | garbled
  /-- a list -/
  | arr (items : List Json)
  /-- fields with names, in order; a name may occur twice -/
  | obj (fields : List (String × Json))
  deriving Repr

namespace Literal

/-- `10 ^ n` as a float, for `n ≤ 308`. -/
def powerOfTen (n : Nat) : Float := Float.ofScientific 1 false n

/-- A number with as many further digits as leave it a 64-bit word, and how many digits are left
over. -/
def extend : Nat → List Nat → Nat × Nat
  | n, [] => (n, 0)
  | n, digit :: rest =>
    if 10 * n + digit ≤ Word.max64 then extend (10 * n + digit) rest
    else (n, rest.length + 1)

/-- The literal written with these digits before and after the point. It keeps the digits that fit
a 64-bit word. A digit left over before the point raises the exponent, so the digits after the point
still follow those that were kept; one left over after the point is dropped. -/
def ofDigits (negative : Bool) (whole fraction : List Nat) (exponent : Int) : Literal :=
  let (kept, raised) := extend 0 whole
  let (digits, dropped) := extend kept fraction
  ⟨negative, digits, exponent + raised - (fraction.length - dropped : Nat)⟩

/-- The leading digits that fit a 64-bit word; every digit dropped raises the exponent. The number
of steps bounds the digits dropped. -/
def leadingDigits : Nat → Nat → Int → Nat × Int
  | 0, digits, exponent => (digits, exponent)
  | steps + 1, digits, exponent =>
    if digits ≤ Word.max64 then (digits, exponent)
    else leadingDigits steps (digits / 10) (exponent + 1)

/-- A float divided by `10 ^ n`, in parts of at most `10 ^ 308`; the number of steps bounds the
parts. -/
def scaleDown : Nat → Float → Nat → Float
  | 0, x, n => x / powerOfTen n
  | steps + 1, x, n =>
    if n ≤ 308 then x / powerOfTen n
    else if x == 0.0 then x
    else scaleDown steps (x / powerOfTen 308) (n - 308)

/-- The float a literal stands for: its leading digits as a float, multiplied or divided by a
power of ten. `none` if that exceeds every float. -/
def toFloat? (l : Literal) : Option Float :=
  let (digits, exponent) := leadingDigits (Nat.log2 l.digits) l.digits l.exponent
  let x := (UInt64.ofNat digits).toFloat
  let magnitude : Option Float :=
    if exponent < 0 then some (scaleDown 3 x (-exponent).toNat)
    else if digits = 0 then some x
    else if 308 < exponent then none
    else
      let y := x * powerOfTen exponent.toNat
      if y.isInf then none else some y
  magnitude.map fun y => if l.negative then -y else y

/-- The literal of a float: the fewest digits that read back. -/
def ofFloat (x : Float) : Literal :=
  let bits := x.toBits.toNat
  match Binary.ofBits bits with
  | none => ⟨FloatText.isNegative bits, 0, 0⟩
  | some b =>
    let d := if b.mantissa = 0 then ⟨0, 0⟩ else b.shortest
    ⟨FloatText.isNegative bits, d.digits, d.exponent⟩

/-- The literal as text. -/
def text (l : Literal) : String :=
  (if l.negative then "-" else "") ++ Decimal.listed ⟨l.digits, l.exponent⟩

end Literal

end CoinPurse
