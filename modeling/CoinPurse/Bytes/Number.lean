import CoinPurse.Bytes.Hex
import CoinPurse.Word

/-!
# Numbers at the front of bytes

A text that is not a number may still begin with one. Reading stops at the first byte that is no
digit, and a text without digits in front counts as zero. -/

namespace CoinPurse.Bytes

/-- Whether the byte is a blank: a space, or one of the five controls from tab to return. -/
def isBlank (b : UInt8) : Bool := b = 32 || (9 ≤ b && b ≤ 13)

/-- The value of a byte as a decimal digit. -/
def decimal? (b : UInt8) : Option Nat := if 48 ≤ b && b ≤ 57 then some (b.toNat - 48) else none

/-- The number that the digits at the front write to a base, after the digits already read. -/
def digitsFrom (base : Nat) (digit? : UInt8 → Option Nat) : Nat → Bytes → Nat
  | n, [] => n
  | n, b :: rest =>
    match digit? b with
    | some digit => digitsFrom base digit? (base * n + digit) rest
    | none => n

/-- The natural number that a text begins with, in decimal. -/
def leadingNatural (bytes : Bytes) : Nat := digitsFrom 10 decimal? 0 bytes

/-- The number that a text begins with, after blanks and perhaps a sign. It stops at the limits of
signed 64-bit words. -/
def leadingInteger (bytes : Bytes) : Int :=
  match bytes.dropWhile isBlank with
  | 45 :: rest => max (-(leadingNatural rest : Int)) Word.minSigned64
  | 43 :: rest => min (leadingNatural rest : Int) Word.maxSigned64
  | rest => min (leadingNatural rest : Int) Word.maxSigned64

end CoinPurse.Bytes
