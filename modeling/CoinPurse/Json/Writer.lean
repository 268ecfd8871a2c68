import CoinPurse.Json.Basic

/-!
# Writing data notation

Values are written without any space (`Json.compact`) or over several lines, two spaces to a level
(`Json.pretty`). Texts are written with a backslash before quotes and backslashes, the usual
letters for the common control characters, and four hexadecimal digits for the others; everything
else stands for itself.

Both writers append to a text, so long lists are written in constant stack.
-/

namespace CoinPurse.Json

/-- The digit characters of hexadecimal notation. -/
def hexDigit (n : Nat) : Char := Nat.digitChar n

/-- One character of a quoted text. -/
def escape (c : Char) : List Char :=
  if c = '"' then ['\\', '"']
  else if c = '\\' then ['\\', '\\']
  else if c = '\x08' then ['\\', 'b']
  else if c = '\x0c' then ['\\', 'f']
  else if c = '\n' then ['\\', 'n']
  else if c = '\r' then ['\\', 'r']
  else if c = '\t' then ['\\', 't']
  else if c.toNat < 32 then
    ['\\', 'u', '0', '0', hexDigit (c.toNat / 16), hexDigit (c.toNat % 16)]
  else [c]

/-- Appends characters to a text. -/
def pushAll (out : String) (cs : List Char) : String := cs.foldl String.push out

/-- Appends a quoted text. -/
def writeText (out : String) (text : String) : String :=
  ((text.toList.foldl (fun out c => pushAll out (escape c)) (out.push '"'))).push '"'

/-- Appends the text of a value without parts; a value with parts is given as `null`. -/
def writeAtom (out : String) : Json → String
  | bool true => out ++ "true"
  | bool false => out ++ "false"
  | int n => out ++ toString n
  | decimal l => out ++ l.text
  | str s => writeText out s
  | _ => out ++ "null"

mutual

/-- Appends a value without any space. -/
def writeCompact (out : String) : Json → String
  | arr items => writeItems (out.push '[') items
  | obj fields => writeFields (out.push '\x7b') fields
  | null => writeAtom out null
  | bool b => writeAtom out (bool b)
  | int n => writeAtom out (int n)
  | decimal l => writeAtom out (decimal l)
  | str s => writeAtom out (str s)
  | garbled => writeAtom out garbled

/-- Appends the items of a list, and its end. -/
def writeItems (out : String) : List Json → String
  | [] => out.push ']'
  | [j] => (writeCompact out j).push ']'
  | j :: rest => writeItems ((writeCompact out j).push ',') rest

/-- Appends the fields of an object, and its end. -/
def writeFields (out : String) : List (String × Json) → String
  | [] => out.push '\x7d'
  | [(name, j)] => (writeCompact ((writeText out name).push ':') j).push '\x7d'
  | (name, j) :: rest =>
    writeFields ((writeCompact ((writeText out name).push ':') j).push ',') rest

end

/-- Starts a new line, this many levels deep. -/
def newline (out : String) (depth : Nat) : String :=
  pushAll out ('\n' :: List.replicate (2 * depth) ' ')

mutual

/-- Appends a value over several lines; its own first line is already begun. -/
def writePretty (out : String) (depth : Nat) : Json → String
  | arr [] => out ++ "[]"
  | arr (j :: rest) =>
    let body := writePrettyItems (newline (out.push '[') (depth + 1)) depth (j :: rest)
    (newline body depth).push ']'
  | obj [] => (out.push '\x7b').push '\x7d'
  | obj (f :: rest) =>
    let body := writePrettyFields (newline (out.push '\x7b') (depth + 1)) depth (f :: rest)
    (newline body depth).push '\x7d'
  | null => writeAtom out null
  | bool b => writeAtom out (bool b)
  | int n => writeAtom out (int n)
  | decimal l => writeAtom out (decimal l)
  | str s => writeAtom out (str s)
  | garbled => writeAtom out garbled

/-- Appends the items of a list, one line each. -/
def writePrettyItems (out : String) (depth : Nat) : List Json → String
  | [] => out
  | [j] => writePretty out (depth + 1) j
  | j :: rest =>
    writePrettyItems (newline ((writePretty out (depth + 1) j).push ',') (depth + 1)) depth rest

/-- Appends the fields of an object, one line each. -/
def writePrettyFields (out : String) (depth : Nat) : List (String × Json) → String
  | [] => out
  | [(name, j)] => writePretty (writeText out name ++ ": ") (depth + 1) j
  | (name, j) :: rest =>
    writePrettyFields
      (newline ((writePretty (writeText out name ++ ": ") (depth + 1) j).push ',') (depth + 1))
      depth rest

end

/-- A value without any space. -/
def compact (j : Json) : String := writeCompact "" j

/-- A value over several lines. -/
def pretty (j : Json) : String := writePretty "" 0 j

end CoinPurse.Json
