import TripleStore.Text.Basic

/-!
# Tables

The keys of the database are divided into tables by their first byte.
-/

namespace TripleStore

/-- The tables of the archive. -/
inductive Table
  /-- The text of a term under its key. -/
  | terms
  /-- The name of a collection under its key. -/
  | collections
  /-- Statements; the values are empty. -/
  | statements
  /-- Registered nodes; the values are empty. -/
  | subjects
  deriving DecidableEq, Repr

namespace Table

/-- The first byte of the keys of a table. -/
def code : Table → UInt8
  | .terms => 0
  | .collections => 1
  | .statements => 2
  | .subjects => 3

/-- The name of a table in messages. -/
def name : Table → Text
  | .terms => "terms"
  | .collections => "collections"
  | .statements => "statements"
  | .subjects => "subjects"

/-- The table with a first byte. -/
def ofCode? (b : UInt8) : Option Table :=
  if b = 0 then some .terms
  else if b = 1 then some .collections
  else if b = 2 then some .statements
  else if b = 3 then some .subjects
  else none

/-- The name of the table with a first byte; other bytes are unknown. -/
def nameOfCode (b : UInt8) : Text := ((ofCode? b).map name).getD "unknown"

/-- A key as it stands in the database. -/
def fullKey (code : UInt8) (key : Text) : Text := code :: key

end Table

end TripleStore
