import CoinPurse.Decimal.Shortest
import CoinPurse.Word

/-!
# Floats in messages

Random values turn up in two kinds of text. A complaint about a value writes it out in full,
however long that gets, and drops a fraction of zero. A list of used values keeps the fraction and
turns to a power of ten for very small and very large values. Both use the fewest digits that read
back. -/

namespace CoinPurse

namespace Decimal

/-- The digits as characters. -/
def digitChars (d : Decimal) : List Char := Nat.toDigits 10 d.digits

/-- The digits before and after the point, written out in full. -/
def split (d : Decimal) : List Char × List Char :=
  let cs := d.digitChars
  if 0 ≤ d.exponent then (cs ++ List.replicate d.exponent.toNat '0', [])
  else
    let places := (-d.exponent).toNat
    if places < cs.length then (cs.take (cs.length - places), cs.drop (cs.length - places))
    else (['0'], List.replicate (places - cs.length) '0' ++ cs)

/-- Written out in full; a whole number has no point. -/
def inFull (d : Decimal) : String :=
  match d.split with
  | (whole, []) => String.ofList whole
  | (whole, fraction) => String.ofList (whole ++ '.' :: fraction)

/-- Written out in full, with a point even in a whole number. -/
def pointed (d : Decimal) : String :=
  match d.split with
  | (whole, []) => String.ofList (whole ++ ['.', '0'])
  | (whole, fraction) => String.ofList (whole ++ '.' :: fraction)

/-- One digit, the other digits as a fraction, and a power of ten. -/
def scientific (d : Decimal) : String :=
  let cs := d.digitChars
  let power := toString (d.exponent + (cs.length - 1 : Nat))
  match cs with
  | [] => "0e0"
  | [c] => String.ofList [c] ++ "e" ++ power
  | c :: rest => String.ofList (c :: '.' :: rest) ++ "e" ++ power

/-- The power of ten of the first digit. -/
def magnitude (d : Decimal) : Int := d.exponent + (d.digitChars.length : Int) - 1

/-- With a point, or with a power of ten below `0.0001` and from `10 ^ 16` on. -/
def listed (d : Decimal) : String :=
  if d.digits = 0 then "0.0"
  else if d.magnitude < -4 || 16 ≤ d.magnitude then d.scientific
  else d.pointed

end Decimal

namespace FloatText

/-- The sign of the float with these bits. -/
def isNegative (bits : Nat) : Bool := Word.maxSigned64 < bits

/-- A float as text, given the text of a finite positive one. -/
def signed (text : Decimal → String) (x : Float) : String :=
  let bits := x.toBits.toNat
  let sign := if isNegative bits then "-" else ""
  match Binary.ofBits bits with
  | none => if x.isNaN then "NaN" else sign ++ "inf"
  | some b => sign ++ text (if b.mantissa = 0 then ⟨0, 0⟩ else b.shortest)

/-- A float in a sentence: `1`, `0.25`, `1000000000000000000000`. -/
def inFull (x : Float) : String := signed Decimal.inFull x

/-- A float in a list of values: `1.0`, `0.25`, `1e21`. -/
def listed (x : Float) : String := signed Decimal.listed x

/-- A list of floats between square brackets. -/
def list (xs : List Float) : String := "[" ++ ", ".intercalate (xs.map listed) ++ "]"

end FloatText

end CoinPurse
