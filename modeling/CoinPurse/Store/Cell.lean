import CoinPurse.Bytes.Number

/-!
# Cells of a store

The library writes numbers into columns for numbers and bytes into columns for bytes. Someone else
may have written either kind into either column, or nothing, so what a row holds in a column is a
`Cell`. A cell can be read as a number and as bytes whatever it is: bytes count as the number that
their text begins with, and a number as the bytes of its decimal text.

Cells are told apart and put in order as they were written, not as they are read: nothing comes
first, then numbers, then bytes.

A database can hold two more kinds in any column, fractions and text. The library writes neither of
them, and stores are changed from outside by numbers, bytes and nothing only (`Edit`), so no cell is
of these kinds. -/

namespace CoinPurse

namespace Bytes

/-- Whether bytes come before others: at the first byte that differs theirs is smaller, or they are
where the others begin. -/
def before : Bytes → Bytes → Bool
  | [], [] => false
  | [], _ :: _ => true
  | _ :: _, [] => false
  | a :: as, b :: bs => a < b || (a == b && before as bs)

end Bytes

namespace Store

/-- What a row holds in a column. -/
inductive Cell where
  /-- nothing -/
  | null
  /-- a number -/
  | int (value : Int)
  /-- bytes -/
  | bytes (value : Bytes)
  deriving DecidableEq, Repr

namespace Cell

/-- The cell read as a number. -/
def number : Cell → Int
  | null => 0
  | int n => n
  | bytes b => Bytes.leadingInteger b

/-- The cell read as bytes. -/
def content : Cell → Bytes
  | null => []
  | int n => Bytes.ofText (toString n)
  | bytes b => b

/-- Whether a cell comes before another. -/
def before : Cell → Cell → Bool
  | null, null => false
  | null, _ => true
  | int _, null => false
  | int m, int n => m < n
  | int _, bytes _ => true
  | bytes _, null | bytes _, int _ => false
  | bytes a, bytes b => a.before b

/-- A cell put into its place in a list in ascending order. -/
def place (c : Cell) : List Cell → List Cell
  | [] => [c]
  | d :: rest => if d.before c then d :: place c rest else c :: d :: rest

/-- The cells in ascending order. -/
def ascending (cells : List Cell) : List Cell := cells.foldr place []

/-- Placing a cell adds it and nothing else. -/
theorem place_perm (c : Cell) (cells : List Cell) : (place c cells).Perm (c :: cells) := by
  induction cells with
  | nil => exact .refl _
  | cons d rest ih =>
    unfold place
    split
    · exact (ih.cons d).trans (.swap c d rest)
    · exact .refl _

/-- Putting cells in order keeps all of them. -/
theorem ascending_perm (cells : List Cell) : (ascending cells).Perm cells := by
  induction cells with
  | nil => exact .refl _
  | cons c rest ih => exact (place_perm c (ascending rest)).trans (ih.cons c)

end Cell

end Store

end CoinPurse
