import TripleStore.Error
import TripleStore.NTriples.Parser
import TripleStore.Text.Letters
import TripleStore.Turtle.Parser

/-!
# Formats of documents

A document's format is told by a content type, whose parameters and letter case do not matter, or by
the extension of a file name.
-/

namespace TripleStore

/-- The formats that can be read. -/
inductive Format
  | ntriples
  | turtle
  deriving DecidableEq, Repr

namespace Format

/-- The content type of a format. -/
def contentType : Format → Text
  | .ntriples => "application/n-triples"
  | .turtle => "text/turtle"

/-- The name of a format in messages. -/
def title : Format → Text
  | .ntriples => "N-Triples"
  | .turtle => "Turtle"

/-- All content types that name a format. -/
def supported : List Text :=
  ["application/n-triples", "text/turtle", "application/x-turtle", "text/plain"]

/-- A content type without parameters, in small letters. -/
def normalize (contentType : Text) : Text :=
  let t := lowered (trimmed contentType)
  match Text.cut Ascii.semicolon t with
  | some (front, _) => trimmed front
  | none => t

/-- The format that a content type names. -/
def ofContentType (contentType : Text) : Outcome Format :=
  let t := normalize contentType
  if t = ("application/n-triples" : Text) ∨ t = ("text/plain" : Text) then .ok .ntriples
  else if t = ("text/turtle" : Text) ∨ t = ("application/x-turtle" : Text) then .ok .turtle
  else .error (.unsupportedType contentType)

/-- The extension of a file name with its dot: what follows the last dot of the last part. -/
def extension (path : Text) : Text :=
  let back := path.reverse.takeWhile fun b => b ≠ Ascii.slash
  match Text.cut Ascii.dot back with
  | some (front, _) => Ascii.dot :: front.reverse
  | none => []

/-- The format that a file name tells. -/
def ofPath (path : Text) : Outcome Format :=
  let e := lowered (extension path)
  if e = (".nt" : Text) then .ok .ntriples
  else if e = (".ttl" : Text) then .ok .turtle
  else .error (.unknownFormat path)

/-- Delivers the statements of a document. -/
def read : Format → Text → Supply → Delivery
  | .ntriples => NTriples.read
  | .turtle => Turtle.read

end Format

end TripleStore
