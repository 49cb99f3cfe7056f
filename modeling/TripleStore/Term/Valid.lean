import TripleStore.Text.Quoted
import TripleStore.Term.Basic

/-!
# Validity of terms and statements

IRIs and blank node labels begin with an ASCII letter or a low line and hold no white space, quotes,
brackets or backslash.  Language tags are groups of letters and digits joined by hyphens, the first
of letters only.

* `Term.violation?` gives the first rule that a term breaks.
* `Draft.check` gives the statement of a draft, or the first rule that it breaks, looking at
  subject, predicate, object and graph in this order.
-/

namespace TripleStore

/-- A byte that may not occur in an IRI or a label. -/
def isForbidden (b : UInt8) : Bool :=
  b = 9 ∨ b = 10 ∨ b = 12 ∨ b = 13 ∨ b = 32 ∨ b = 40 ∨ b = 41 ∨ b = 91 ∨ b = 93 ∨ b = 123 ∨ b = 125
    ∨ b = 39 ∨ b = 34 ∨ b = 96 ∨ b = 60 ∨ b = 62 ∨ b = 92

/-- Whether a text may be an IRI or a blank node label. -/
def isIdentifier : Text → Bool
  | [] => false
  | b :: rest => (Ascii.isLetter b || b == Ascii.underscore) && !rest.any isForbidden

/-- Whether a text is a language tag. -/
def isLanguageTag (t : Text) : Bool :=
  match Text.splitOn Ascii.minus t with
  | [] => false
  | first :: groups =>
    !first.isEmpty && first.all Ascii.isLetter
      && groups.all fun g => !g.isEmpty && g.all fun b => Ascii.isLetter b || Ascii.isDigit b

/-- A rule that a term or statement breaks. -/
inductive Violation
  | iri (iri : Iri)
  | label (label : Text)
  | languageTag (value tag : Text)
  | datatype (value : Text) (datatype : Iri)
  | missingTerm
  | missingSubject
  | other (reason : Text)
  deriving DecidableEq, Repr

namespace Violation

/-- The term that breaks the rule, if there is one. -/
def term : Violation → Option Term
  | .iri i => some (.iri i)
  | .label l => some (.blank l)
  | .languageTag v tag => some (.lang v tag)
  | .datatype v d => some (.typed v d)
  | .missingTerm => none
  | .missingSubject => none
  | .other _ => none

/-- What is wrong. -/
def reason : Violation → Text
  | .iri i => "invalid IRI " ++ quoted i
  | .label l => "invalid blank node label " ++ quoted l
  | .languageTag _ tag => "invalid language tag " ++ quoted tag
  | .datatype _ d => "invalid datatype IRI " ++ quoted d
  | .missingTerm => "missing term"
  | .missingSubject => "missing subject"
  | .other r => r

/-- The words of a violation. -/
def message (v : Violation) : Text := "validation error: " ++ v.reason

end Violation

/-- The rule that a term breaks, if any. -/
def Term.violation? : Term → Option Violation
  | .iri i => if isIdentifier i then none else some (.iri i)
  | .blank l => if isIdentifier l then none else some (.label l)
  | .lang v tag => if isLanguageTag tag then none else some (.languageTag v tag)
  | .typed v d => if isIdentifier d then none else some (.datatype v d)

/-- Whether a literal obeys the rule of its variant; nothing else is a literal. -/
def Term.isValidLiteral : Term → Bool
  | .lang _ tag => isLanguageTag tag
  | .typed _ d => isIdentifier d
  | _ => false

/-- The rule that a term, or its absence, breaks. -/
def violationOf (t : Option Term) : Option Violation :=
  match t with
  | some t => t.violation?
  | none => some .missingTerm

/-- The first rule that a draft breaks. -/
def Draft.violation? (d : Draft) : Option Violation :=
  match d.subject with
  | none => some .missingSubject
  | some s =>
    s.toTerm.violation?
      <|> (Term.iri d.predicate).violation?
      <|> violationOf d.object
      <|> (d.graph.bind fun g => g.toTerm.violation?)

/-- The first rule that a statement breaks. -/
def Statement.violation? (s : Statement) : Option Violation := s.toDraft.violation?

/-- The statement of a draft that breaks no rule. -/
def Draft.check (d : Draft) : Except Violation Statement :=
  match d.violation?, d.complete? with
  | some v, _ => .error v
  | none, some s => .ok s
  | none, none => .error .missingTerm

end TripleStore
