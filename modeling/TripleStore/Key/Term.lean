import TripleStore.Key.Digest
import TripleStore.NTriples.Parser
import TripleStore.Error

/-!
# Keys of terms and statements

A term is stored under a key of 17 bytes: the byte of its variant and the digest of its canonical
text.  The text itself is kept in a dictionary, from which the term is read back.

A statement is stored under the keys of its collection, subject, predicate and object, one after
the other, so that the order of keys is that of the four parts.
-/

namespace TripleStore

/-- A key of 17 bytes. -/
structure TermKey where
  bytes : Text
  size : bytes.length = 17
  deriving DecidableEq

namespace TermKey

/-- The length of a term key. -/
def width : Nat := 17

/-- The first 17 bytes of a text, filled up with zeros. -/
def ofBytes (t : Text) : TermKey := ⟨(t ++ List.replicate 17 0).take 17, by simp⟩

/-- The variant byte of a key. -/
def code (k : TermKey) : UInt8 := k.bytes.headD 0

/-- The key of a term. -/
def ofTerm (t : Term) : TermKey := ⟨t.kind.code :: digest t.render, by simp⟩

end TermKey

/-- The key of a term and the text to keep for it; a missing term has none. -/
def encodeTerm : Option Term → Outcome (TermKey × Text)
  | none => .error .nothingToEncode
  | some t => .ok (.ofTerm t, t.render)

/-- The term whose text is kept under a key; its variant must be that of the key. -/
def decodeTerm (key : TermKey) (text : Text) : Outcome Term :=
  match NTriples.parseTerm text with
  | .error e => .error (.within ("failed to decode term " ++ quoted text) (.read e))
  | .ok t => if t.kind.code = key.code then .ok t else .error (.kindMismatch key.code t.kind)

/-- Keys one after the other. -/
def joinKeys (keys : List TermKey) : Text := keys.flatMap TermKey.bytes

/-- The key of a statement in a collection. -/
def statementKey (collection subject predicate object : TermKey) : Text :=
  joinKeys [collection, subject, predicate, object]

/-- The four keys of a statement key; any other length is refused. -/
def splitStatementKey (key : Text) : Outcome (TermKey × TermKey × TermKey × TermKey) :=
  if key.length = 4 * TermKey.width then
    .ok (.ofBytes key, .ofBytes (key.drop 17), .ofBytes (key.drop 34), .ofBytes (key.drop 51))
  else .error (.keyLength key.length)

end TripleStore
