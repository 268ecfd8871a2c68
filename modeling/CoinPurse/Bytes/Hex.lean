/-!
# Bytes in hexadecimal

Bytes are written as two lower-case digits each; digits of either case are read. A text with an
odd number of bytes is refused before any digit of it is looked at, and otherwise the first byte
that is no digit is named, as the character of its own number. -/

namespace CoinPurse

/-- A string of bytes. -/
abbrev Bytes := List UInt8

namespace Bytes

/-- The bytes of a text. -/
def ofText (s : String) : Bytes := s.toUTF8.data.toList

/-- The text with these bytes, if they are those of a text. -/
def text? (bytes : Bytes) : Option String := String.fromUTF8? ⟨bytes.toArray⟩

/-- The bytes of a text are read as that text. -/
theorem text?_ofText (s : String) : text? (ofText s) = some s := by
  simp [text?, ofText, String.fromUTF8?, s.isValidUTF8]
  rfl

end Bytes

namespace Hex

/-- Why a text is not hexadecimal. -/
inductive Fault where
  /-- a digit is left over -/
  | oddLength
  /-- a byte is no digit -/
  | notADigit (byte : UInt8) (position : Nat)
  deriving DecidableEq, Repr

/-- The lower-case digits of a number. -/
def lower (n : Nat) : List Char := Nat.toDigits 16 n

/-- A character below 256 between single quotes; what cannot be shown is escaped. -/
def quoted (byte : UInt8) : String :=
  let n := byte.toNat
  let shown : List Char :=
    if n = 0 then ['\\', '0']
    else if n = 9 then ['\\', 't']
    else if n = 10 then ['\\', 'n']
    else if n = 13 then ['\\', 'r']
    else if n = 39 then ['\\', '\'']
    else if n = 92 then ['\\', '\\']
    else if n < 32 || (127 ≤ n && n ≤ 160) || n = 173 then
      ['\\', 'u', '\x7b'] ++ lower n ++ ['\x7d']
    else [Char.ofNat n]
  String.ofList ('\'' :: shown ++ ['\''])

/-- The sentence that reports the fault. -/
def Fault.message : Fault → String
  | oddLength => "Odd number of digits"
  | notADigit byte position => s!"Invalid character {quoted byte} at position {position}"

/-- The value of a digit. -/
def digitValue (byte : UInt8) : Option Nat :=
  let n := byte.toNat
  if 48 ≤ n && n ≤ 57 then some (n - 48)
  else if 97 ≤ n && n ≤ 102 then some (n - 87)
  else if 65 ≤ n && n ≤ 70 then some (n - 55)
  else none

/-- The bytes written by these digits, the first of which stands at the given position. -/
def decodeFrom (position : Nat) : Bytes → Except Fault Bytes
  | high :: low :: rest =>
    match digitValue high, digitValue low with
    | none, _ => .error (.notADigit high position)
    | some _, none => .error (.notADigit low (position + 1))
    | some h, some l =>
      match decodeFrom (position + 2) rest with
      | .ok bytes => .ok (UInt8.ofNat (16 * h + l) :: bytes)
      | .error fault => .error fault
  | _ => .ok []

/-- The bytes written by a text. -/
def decode (s : String) : Except Fault Bytes :=
  let digits := Bytes.ofText s
  if digits.length % 2 = 1 then .error .oddLength else decodeFrom 0 digits

/-- The digits of bytes. -/
def encode (bytes : Bytes) : String :=
  String.ofList (bytes.flatMap fun b =>
    [Nat.digitChar (b.toNat / 16), Nat.digitChar (b.toNat % 16)])

end Hex

end CoinPurse
