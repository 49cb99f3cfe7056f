import TripleStore.Database.Basic

/-!
# Databases as lines

The entries of a database as text: on each line a key and its value in hexadecimal, with a space
between them.
-/

namespace TripleStore.Entries

/-- An entry on a line. -/
def line (e : Text × Text) : Text := Hex.encode e.1 ++ " " ++ Hex.encode e.2 ++ "\n"

/-- The entries, each on a line. -/
def toLines (e : Entries) : Text := e.flatMap line

/-- The entry on a line. -/
def ofLine? (t : Text) : Option (Text × Text) := do
  let (key, value) ← Text.cut Ascii.space t
  return (← Hex.decode key, ← Hex.decode value)

/-- The entries on lines; lines that hold none are passed over. -/
def ofLines (t : Text) : Entries := (Text.splitOn Ascii.lineFeed t).filterMap ofLine?

end TripleStore.Entries
