import TripleStore.Text.Hex
import TripleStore.Text.Utf8
import TripleStore.Term.Vocabulary

/-!
# Terms as text

The canonical spelling of terms and statements: IRIs in angle brackets, blank nodes after `_:`,
literals in double quotes with their tag or datatype; the datatype of plain strings is left out.

Characters that would end a literal or an IRI early are escaped.  A text without such a character
is kept byte for byte; in any other text every ill-formed byte becomes U+FFFD.
-/

namespace TripleStore

namespace Render

/-- The escape of a character inside a literal, for those that need one. -/
def literalEscape? (c : Nat) : Option Text :=
  match c with
  | 34 => some "\\\""
  | 92 => some "\\\\"
  | 10 => some "\\n"
  | 13 => some "\\r"
  | 9 => some "\\t"
  | 8 => some "\\b"
  | 12 => some "\\f"
  | _ => none

/-- The escape of a character inside an IRI, for those that need one. -/
def iriEscape? (c : Nat) : Option Text :=
  if c = 60 ∨ c = 62 ∨ c = 34 ∨ c = 123 ∨ c = 125 ∨ c = 124 ∨ c = 94 ∨ c = 96 ∨ c = 92 ∨ c = 32 then
    some ("\\u" ++ Hex.paddedUpper 4 c)
  else none

/-- Applies an escape to every character of a text that holds one to be escaped. -/
def escapeWith (escape? : Nat → Option Text) (t : Text) : Text :=
  if t.any fun b => (escape? b.toNat).isSome then
    (Utf8.scalars t).flatMap fun c => (escape? c).getD (encodeScalar c)
  else t

end Render

/-- The value of a literal as it is written between quotes. -/
def escapeLiteral (value : Text) : Text := Render.escapeWith Render.literalEscape? value

/-- An IRI as it is written between angle brackets. -/
def escapeIri (iri : Iri) : Text := Render.escapeWith Render.iriEscape? iri

/-- An IRI in angle brackets. -/
def renderIri (iri : Iri) : Text := "<" ++ escapeIri iri ++ ">"

/-- The canonical text of a term. -/
def Term.render : Term → Text
  | .iri i => renderIri i
  | .blank l => "_:" ++ l
  | .lang v tag => "\"" ++ escapeLiteral v ++ "\"@" ++ tag
  | .typed v datatype =>
    let suffix : Text := if datatype = Vocabulary.string then [] else "^^" ++ renderIri datatype
    "\"" ++ escapeLiteral v ++ "\"" ++ suffix

/-- The canonical text of a node. -/
def Node.render (n : Node) : Text := n.toTerm.render

namespace Draft

/-- What stands for a missing part of a statement. -/
def missing : Text := "%!s(<nil>)"

/-- The subject of a draft. -/
def renderSubject (d : Draft) : Text := (d.subject.map Node.render).getD missing

/-- The object of a draft. -/
def renderObject (d : Draft) : Text := (d.object.map Term.render).getD missing

/-- The three parts of a draft, its graph left out, as one line without its end. -/
def renderTriple (d : Draft) : Text :=
  d.renderSubject ++ " " ++ renderIri d.predicate ++ " " ++ d.renderObject ++ " ."

/-- All parts of a draft as one line without its end. -/
def render (d : Draft) : Text :=
  match d.graph with
  | none => d.renderTriple
  | some g =>
    d.renderSubject ++ " " ++ renderIri d.predicate ++ " " ++ d.renderObject ++ " "
      ++ g.render ++ " ."

end Draft

/-- The three parts of a statement, its graph left out, as one line without its end. -/
def Statement.renderTriple (s : Statement) : Text := s.toDraft.renderTriple

/-- All parts of a statement as one line without its end. -/
def Statement.render (s : Statement) : Text := s.toDraft.render

end TripleStore
