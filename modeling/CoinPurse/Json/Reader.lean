import CoinPurse.Json.Basic

/-!
# Reading data notation

`Json.parse?` reads a text that is exactly one value, with blanks around it and between its parts.
It is strict: no leading zeros, no trailing commas, no bare control characters in a text, and only
the escapes that the notation knows.

Reading is by recursion on a number of steps, which is never used up: every second step reads a
character, and twice as many steps as there are characters are allowed.
-/

namespace CoinPurse.Json

/-- The characters that may stand between the parts of a value. -/
def isBlank (c : Char) : Bool := c = ' ' || c = '\t' || c = '\n' || c = '\r'

/-- The characters from the first one on that is not blank. -/
def skipBlanks (cs : List Char) : List Char := cs.dropWhile isBlank

/-- The value of a decimal digit. -/
def digitValue (c : Char) : Nat := c.toNat - 48

/-- The number written with these decimal digits. -/
def digitsValue (cs : List Char) : Nat := cs.foldl (fun n c => 10 * n + digitValue c) 0

/-- The value of a hexadecimal digit. -/
def hexValue (c : Char) : Option Nat :=
  if '0' ≤ c && c ≤ '9' then some (c.toNat - 48)
  else if 'a' ≤ c && c ≤ 'f' then some (c.toNat - 87)
  else if 'A' ≤ c && c ≤ 'F' then some (c.toNat - 55)
  else none

/-- The value of four hexadecimal digits. -/
def hexUnit (a b c d : Char) : Option Nat := do
  return ((← hexValue a) * 16 + (← hexValue b)) * 256 + (← hexValue c) * 16 + (← hexValue d)

/-- The character after a backslash that stands for the given one. -/
def unescape (c : Char) : Option Char :=
  match c with
  | '"' => some '"'
  | '\\' => some '\\'
  | '/' => some '/'
  | 'b' => some '\x08'
  | 'f' => some '\x0c'
  | 'n' => some '\n'
  | 'r' => some '\r'
  | 't' => some '\t'
  | _ => none

/-- What has been read of a quoted text: its characters, last first, whether it has a value so far,
and the first half of a surrogate pair whose second half has to come next. -/
structure Quoted where
  /-- the characters, last first -/
  chars : List Char
  /-- whether every surrogate so far is part of a pair -/
  sound : Bool
  /-- a first half that waits for its second -/
  half : Option Nat

namespace Quoted

/-- Nothing read yet. -/
def start : Quoted := ⟨[], true, none⟩

/-- One more character. -/
def push (q : Quoted) (c : Char) : Quoted := ⟨c :: q.chars, q.sound && q.half.isNone, none⟩

/-- One more unit given by an escape. -/
def pushUnit (q : Quoted) (u : Nat) : Quoted :=
  let isHigh := 0xD800 ≤ u && u ≤ 0xDBFF
  let isLow := 0xDC00 ≤ u && u ≤ 0xDFFF
  match q.half with
  | some h =>
    if isLow then
      ⟨Char.ofNat (0x10000 + (h - 0xD800) * 0x400 + (u - 0xDC00)) :: q.chars, q.sound, none⟩
    else ⟨q.chars, false, none⟩
  | none =>
    if isHigh then { q with half := some u }
    else if isLow then { q with sound := false }
    else q.push (Char.ofNat u)

/-- The text, if it has a value. -/
def text? (q : Quoted) : Option String :=
  if q.sound && q.half.isNone then some (String.ofList q.chars.reverse) else none

end Quoted

/-- Reads a text up to its closing quote, and gives what is left. -/
def readText (q : Quoted) : List Char → Option (Option String × List Char)
  | [] => none
  | '\\' :: 'u' :: a :: b :: c :: d :: rest =>
    match hexUnit a b c d with
    | none => none
    | some u => readText (q.pushUnit u) rest
  | '\\' :: c :: rest =>
    match unescape c with
    | none => none
    | some c => readText (q.push c) rest
  | c :: rest =>
    if c = '"' then some (q.text?, rest)
    else if c.toNat < 32 then none
    else readText (q.push c) rest

/-- Reads an exponent, if there is one; `none` if it has no digits. -/
def readExponent (cs : List Char) : Option (Option Int × List Char) :=
  match cs with
  | c :: rest =>
    if c = 'e' || c = 'E' then
      let (negative, rest) := match rest with
        | '-' :: rest => (true, rest)
        | '+' :: rest => (false, rest)
        | rest => (false, rest)
      let digits := rest.takeWhile Char.isDigit
      if digits.isEmpty then none
      else
        let n : Int := digitsValue digits
        some (some (if negative then -n else n), rest.dropWhile Char.isDigit)
    else some (none, cs)
  | [] => some (none, [])

/-- Reads the part of a number after its sign. -/
def readMagnitude (negative : Bool) (cs : List Char) : Option (Json × List Char) :=
  let whole := cs.takeWhile Char.isDigit
  let rest := cs.dropWhile Char.isDigit
  if whole.isEmpty || (whole.head? = some '0' && 1 < whole.length) then none
  else match rest with
  | '.' :: rest =>
    let fraction := rest.takeWhile Char.isDigit
    if fraction.isEmpty then none
    else match readExponent (rest.dropWhile Char.isDigit) with
    | none => none
    | some (exponent, rest) =>
      some (decimal (.ofDigits negative (whole.map digitValue) (fraction.map digitValue)
        (exponent.getD 0)), rest)
  | rest =>
    match readExponent rest with
    | none => none
    | some (some exponent, rest) =>
      some (decimal (.ofDigits negative (whole.map digitValue) [] exponent), rest)
    | some (none, rest) =>
      let n := digitsValue whole
      if negative then some (if n = 0 then decimal ⟨true, 0, 0⟩ else int (-n), rest)
      else some (int n, rest)

/-- Reads a number. -/
def readNumber (cs : List Char) : Option (Json × List Char) :=
  match cs with
  | '-' :: rest => readMagnitude true rest
  | cs => readMagnitude false cs

mutual

/-- Reads a value, after blanks, and gives what is left. -/
def readValue : Nat → List Char → Option (Json × List Char)
  | 0, _ => none
  | steps + 1, cs =>
    match skipBlanks cs with
    | '"' :: rest =>
      match readText .start rest with
      | none => none
      | some (some text, rest) => some (str text, rest)
      | some (none, rest) => some (garbled, rest)
    | '[' :: rest =>
      match skipBlanks rest with
      | ']' :: rest => some (arr [], rest)
      | rest => readItems steps [] rest
    | '\x7b' :: rest =>
      match skipBlanks rest with
      | '\x7d' :: rest => some (obj [], rest)
      | rest => readFields steps [] true rest
    | 't' :: 'r' :: 'u' :: 'e' :: rest => some (bool true, rest)
    | 'f' :: 'a' :: 'l' :: 's' :: 'e' :: rest => some (bool false, rest)
    | 'n' :: 'u' :: 'l' :: 'l' :: rest => some (null, rest)
    | cs => readNumber cs

/-- Reads the items of a list that are left, and its end; the items read so far come last first. -/
def readItems : Nat → List Json → List Char → Option (Json × List Char)
  | 0, _, _ => none
  | steps + 1, items, cs =>
    match readValue steps cs with
    | none => none
    | some (j, rest) =>
      match skipBlanks rest with
      | ',' :: rest => readItems steps (j :: items) rest
      | ']' :: rest => some (arr (j :: items).reverse, rest)
      | _ => none

/-- Reads the fields of an object that are left, and its end; the fields read so far come last
first. It says whether every name so far has a value. -/
def readFields : Nat → List (String × Json) → Bool → List Char → Option (Json × List Char)
  | 0, _, _, _ => none
  | steps + 1, fields, sound, cs =>
    match skipBlanks cs with
    | '"' :: rest =>
      match readText .start rest with
      | none => none
      | some (name, rest) =>
        match skipBlanks rest with
        | ':' :: rest =>
          match readValue steps rest with
          | none => none
          | some (j, rest) =>
            let fields := (name.getD "", j) :: fields
            let sound := sound && name.isSome
            match skipBlanks rest with
            | ',' :: rest => readFields steps fields sound rest
            | '\x7d' :: rest => some (if sound then obj fields.reverse else garbled, rest)
            | _ => none
        | _ => none
    | _ => none

end

/-- Reads a text that is exactly one value. -/
def parse? (text : String) : Option Json :=
  let cs := text.toList
  match readValue (2 * cs.length + 2) cs with
  | some (j, rest) => if (skipBlanks rest).isEmpty then some j else none
  | none => none

end CoinPurse.Json
