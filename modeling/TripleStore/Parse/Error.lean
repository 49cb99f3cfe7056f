import TripleStore.Term.Valid
import TripleStore.Token.Stream

/-!
# Errors of reading

A text fails to be read either because no token can be read at some place or because the tokens do
not fit the grammar.
-/

namespace TripleStore

/-- Tokens that do not fit: what was expected and found, or a remark, or a rule that is broken.
Texts that are empty are left out of the message. -/
structure ParseError where
  format : Text
  position : Position
  expected : Text := []
  found : Text := []
  remark : Text := []
  cause : Option Violation := none
  deriving DecidableEq, Repr

namespace ParseError

/-- The place, unless it is unknown. -/
def place (e : ParseError) : Text :=
  if 0 < e.position.line then ":" ++ e.position.render else []

/-- What the error says before its cause. -/
def complaint (e : ParseError) : Text :=
  if e.expected ≠ [] then
    let remark : Text := if e.remark ≠ [] then " (" ++ e.remark ++ ")" else []
    "expected " ++ e.expected ++ ", found " ++ e.found ++ remark
  else e.remark

/-- The words of the error. -/
def message (e : ParseError) : Text :=
  let reason : Text := match e.cause with
    | none => e.complaint
    | some v =>
      if e.expected ≠ [] ∨ e.remark ≠ [] then e.complaint ++ ": " ++ v.message else v.message
  e.format ++ e.place ++ ": " ++ reason

end ParseError

/-- Why a text could not be read. -/
inductive ReadError
  | lexical (e : LexError)
  | grammar (e : ParseError)
  deriving DecidableEq, Repr

/-- The words of the error. -/
def ReadError.message : ReadError → Text
  | .lexical e => e.message
  | .grammar e => e.message

end TripleStore
