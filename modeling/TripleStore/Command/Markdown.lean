import TripleStore.Text.Letters
import TripleStore.Text.Width

/-!
# Tables

Rows of cells between vertical lines.  A column is as wide as its widest cell, and cells stand in
the middle of it; of an odd number of spaces the last goes to the right.  A space can be taken in by
a sign at the end of a cell, so that the cell is narrower with its spaces than it should be; then
spaces are added on both sides once more.
-/

namespace TripleStore.Markdown

/-- Spaces. -/
def spaces (n : Nat) : Text := List.replicate n Ascii.space

/-- A cell with as many spaces on both sides as it lacks to be `width` columns wide. -/
def centred (width : Nat) (cell : Text) : Text :=
  let free := width - displayWidth cell
  spaces (free / 2) ++ cell ++ spaces (free - free / 2)

/-- A line that opens with a vertical line. -/
def line (parts : List Text) : Text := "|" ++ parts.flatten ++ "\n"

/-- A cell up to the next vertical line. -/
def closedCell (width : Nat) (cell : Text) : Text :=
  centred (width + 2) (" " ++ centred width cell ++ " ") ++ "|"

/-- The rule below the head of a column, up to the next vertical line. -/
def closedRule (width : Nat) : Text := ":" ++ List.replicate width Ascii.minus ++ ":|"

/-- A line of cells. -/
def row (widths : List Nat) (cells : List Text) : Text :=
  line (List.zipWith closedCell widths cells)

/-- The line below the head of a table. -/
def rule (widths : List Nat) : Text := line (widths.map closedRule)

/-- The width of the column with a number. -/
def widthOf (rows : List (List Text)) (column : Nat) : Nat :=
  (rows.map fun r => displayWidth (r.getD column [])).foldl max 0

/-- A table with a head. -/
def table (head : List Text) (rows : List (List Text)) : Text :=
  let rows := rows.map fun r => r.map trimmed
  let widths := (List.range head.length).map (widthOf (head :: rows))
  row widths head ++ rule widths ++ rows.flatMap (row widths)

end TripleStore.Markdown
