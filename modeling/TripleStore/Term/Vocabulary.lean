import TripleStore.Term.Basic

/-!
# Vocabulary

The datatypes and the list vocabulary that the formats refer to, and literals of the common
datatypes.
-/

namespace TripleStore

namespace Vocabulary

/-- The namespace of the common datatypes. -/
def datatypes : Text := "http://www.w3.org/2001/XMLSchema#"

/-- The namespace of the data model itself. -/
def model : Text := "http://www.w3.org/1999/02/22-rdf-syntax-ns#"

/-- The datatype of plain strings. -/
def string : Iri := datatypes ++ "string"

/-- The datatype of integers. -/
def integer : Iri := datatypes ++ "integer"

/-- The datatype of decimal numbers. -/
def decimal : Iri := datatypes ++ "decimal"

/-- The datatype of numbers with an exponent. -/
def double : Iri := datatypes ++ "double"

/-- The datatype of truth values. -/
def boolean : Iri := datatypes ++ "boolean"

/-- The predicate that the word `a` abbreviates. -/
def type : Iri := model ++ "type"

/-- The predicate from a list cell to its item. -/
def first : Iri := model ++ "first"

/-- The predicate from a list cell to the rest of the list. -/
def rest : Iri := model ++ "rest"

/-- The empty list. -/
def nil : Iri := model ++ "nil"

end Vocabulary

namespace Term

/-- A plain string literal. -/
def plain (value : Text) : Term := .typed value Vocabulary.string

/-- An integer literal. -/
def integer (lexical : Text) : Term := .typed lexical Vocabulary.integer

/-- A decimal literal. -/
def decimal (lexical : Text) : Term := .typed lexical Vocabulary.decimal

/-- A literal with an exponent. -/
def double (lexical : Text) : Term := .typed lexical Vocabulary.double

/-- A truth value as a literal. -/
def boolean (value : Bool) : Term := .typed (Text.ofBool value) Vocabulary.boolean

end Term

end TripleStore
