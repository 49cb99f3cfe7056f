import TripleStore.Graph.Merge
import TripleStore.Log.Level
import TripleStore.Text.Quoted

/-!
# Log records

A record has a level, a message and named values.

Records are written in one of two formats: `level=INFO msg=...` with quotes only where needed, or
one object per line.
-/

namespace TripleStore

/-- Something worth noting. -/
structure Record where
  level : Int
  text : Text
  values : List (Text × Text) := []
  deriving DecidableEq, Repr

namespace Record

/-- The merge of a graph into another. -/
def merged (r : MergeReport) : Record :=
  ⟨Level.debug, "merged model",
    [("subjects", Text.ofNat r.subjects), ("statements", Text.ofNat r.statements),
      ("renamed_blank_nodes", Text.ofNat r.renamed)]⟩

/-- A named value behind a space. -/
def named (name value : Text) : Text := " " ++ name ++ "=" ++ value

/-- A record on one line, nothing quoted. -/
def plain (r : Record) : Text :=
  Level.name r.level ++ " " ++ r.text ++ r.values.flatMap fun v => named v.1 v.2

/-- Whether a value needs quotes: it is empty or holds a space, a quote, an equals sign or something
that cannot be printed. -/
def needsQuotes (t : Text) : Bool :=
  t.isEmpty || (Utf8.scalars t).any fun c =>
    if c < 0x80 then c == 32 || c == 61 || c == 34 || c < 32
    else c == replacementScalar || Letters.isWhite c || !isPrintable c

/-- A value in the format with bare words. -/
def bareValue (t : Text) : Text := if needsQuotes t then quoted t else t

/-- A character inside a quoted value of the format with objects. -/
def objectEscape (c : Nat) : Text :=
  match c with
  | 34 => "\\\""
  | 92 => "\\\\"
  | 10 => "\\n"
  | 13 => "\\r"
  | 9 => "\\t"
  | _ =>
    if c < 32 ∨ c = 0x2028 ∨ c = 0x2029 then "\\u" ++ Hex.padded 4 c else encodeScalar c

/-- A value inside quotes in the format with objects, after `skip` bytes. -/
def objectBody : Nat → Text → Text
  | _, [] => []
  | skip + 1, _ :: rest => objectBody skip rest
  | 0, a :: rest => match Utf8.sequence? a rest with
    | some (c, width) => objectEscape c ++ objectBody (width - 1) rest
    | none => "\\ufffd" ++ objectBody 0 rest

/-- A value in the format with objects. -/
def objectValue (t : Text) : Text := "\"" ++ objectBody 0 t ++ "\""

/-- A record as a line of bare words. -/
def bareLine (r : Record) : Text :=
  "level=" ++ Level.name r.level ++ " msg=" ++ bareValue r.text
    ++ (r.values.flatMap fun v => named v.1 (bareValue v.2)) ++ "\n"

/-- A named value of an object, behind a comma. -/
def member (name value : Text) : Text := "," ++ objectValue name ++ ":" ++ objectValue value

/-- A record as a line with one object. -/
def objectLine (r : Record) : Text :=
  "\x7b\"level\":" ++ objectValue (Level.name r.level) ++ ",\"msg\":" ++ objectValue r.text
    ++ (r.values.flatMap fun v => member v.1 v.2) ++ "\x7d\n"

end Record

end TripleStore
