import CoinPurse.Bytes.Hex

/-!
# Paths

A path is a string of bytes without a fixed meaning. Most paths are text; one that is not can
still be shown, with a replacement character for every part that makes no sense.

The replacement rule is the usual one. Reading goes on as long as the bytes can begin a character;
the longest such beginning that is not completed, or else a single byte, is replaced. -/

namespace CoinPurse

/-- The path of a file, as bytes. -/
structure Path where
  /-- the bytes -/
  bytes : Bytes
  deriving DecidableEq, Repr

namespace Utf8

/-- The character shown in place of bytes that make no sense. -/
def replacement : Char := '\uFFFD'

/-- Whether the byte can follow the first one of a character. -/
def isContinuation (b : UInt8) : Bool := 0x80 ≤ b && b ≤ 0xBF

/-- How many bytes follow the first one of a character. -/
def followers (first : UInt8) : Option Nat :=
  if first < 0x80 then some 0
  else if 0xC2 ≤ first && first ≤ 0xDF then some 1
  else if 0xE0 ≤ first && first ≤ 0xEF then some 2
  else if 0xF0 ≤ first && first ≤ 0xF4 then some 3
  else none

/-- Whether the byte can come second; this rules out overlong forms, surrogates and what lies beyond
the last character. -/
def isSecond (first second : UInt8) : Bool :=
  isContinuation second
    && (first != 0xE0 || 0xA0 ≤ second) && (first != 0xED || second ≤ 0x9F)
    && (first != 0xF0 || 0x90 ≤ second) && (first != 0xF4 || second ≤ 0x8F)

/-- Reads so many further bytes of a character. -/
def readRest : Nat → Nat → Bytes → Char × Bytes
  | 0, value, rest => (Char.ofNat value, rest)
  | n + 1, value, b :: rest =>
    if isContinuation b then readRest n (value * 64 + b.toNat % 64) rest
    else (replacement, b :: rest)
  | _ + 1, _, [] => (replacement, [])

/-- Reads a character that begins with the given byte, or its replacement. -/
def readChar (first : UInt8) (rest : Bytes) : Char × Bytes :=
  match followers first with
  | none => (replacement, rest)
  | some 0 => (Char.ofNat first.toNat, rest)
  | some (n + 1) =>
    match rest with
    | [] => (replacement, [])
    | second :: after =>
      if isSecond first second then
        readRest n (first.toNat % Nat.pow 2 (5 - n) * 64 + second.toNat % 64) after
      else (replacement, rest)

/-- The characters of some bytes, read in at most so many steps. -/
def charsWithin : Nat → Bytes → List Char
  | 0, _ => []
  | _, [] => []
  | n + 1, first :: rest =>
    let (c, rest) := readChar first rest
    c :: charsWithin n rest

/-- The text of some bytes, with replacements where they make no sense. -/
def lossy (bytes : Bytes) : String := String.ofList (charsWithin bytes.length bytes)

end Utf8

namespace Path

/-- The path with this text. -/
def ofText (s : String) : Path := ⟨Bytes.ofText s⟩

/-- The path as text, if it is text. -/
def text? (p : Path) : Option String := p.bytes.text?

/-- The path as it is shown. -/
def display (p : Path) : String := Utf8.lossy p.bytes

end Path

end CoinPurse
