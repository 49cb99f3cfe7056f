import TripleStore.Command.Usage
import TripleStore.Parse.Error
import TripleStore.Term.Render
import TripleStore.Text.Numeral

/-!
# Errors

Everything that can go wrong outside the readers, as causes.  An error may be wrapped in what was
being done when it arose, and a step that goes on after an error may end with several.

`Error.message` holds all the wording.
-/

namespace TripleStore

/-- What went wrong. -/
inductive Error
  /-- A text could not be read. -/
  | read (e : ReadError)
  /-- A term or statement breaks a rule. -/
  | invalid (v : Violation)
  /-- There is no collection of this name. -/
  | collectionNotFound (name : Iri)
  /-- The transaction was committed or cancelled before. -/
  | transactionClosed
  /-- The repository was closed before. -/
  | storeClosed
  /-- The caller gave up. -/
  | cancelled
  /-- The caller's time ran out. -/
  | deadlineExceeded
  /-- A key has no value. -/
  | keyNotFound
  /-- A write in a transaction for reading. -/
  | readOnly
  /-- A database transaction was used after its end. -/
  | discarded
  /-- A database transaction with writes was committed after its end. -/
  | commitDiscarded
  /-- A key that was read has been written by another transaction since. -/
  | conflict
  /-- A key of the database itself. -/
  | reservedKey
  /-- A key or value longer than the database takes. -/
  | oversize (what : Text) (size limit : Nat) (beginning : Text)
  /-- A failure that was asked for. -/
  | injectedFault
  /-- The data directory cannot be opened. -/
  | unopenable
  /-- A term that is missing has no key. -/
  | nothingToEncode
  /-- A statement key of the wrong length. -/
  | keyLength (length : Nat)
  /-- The variant in a key is not that of the term stored under it. -/
  | kindMismatch (code : UInt8) (found : TermKind)
  /-- A key without a stored term. -/
  | absentTerm (key : Text)
  /-- A stored subject that is a literal. -/
  | subjectNotNode (term : Term)
  /-- A stored predicate that is no IRI. -/
  | predicateNotIri (term : Term)
  /-- A content type that no reader knows. -/
  | unsupportedType (contentType : Text)
  /-- A file name that does not tell the format. -/
  | unknownFormat (path : Text)
  /-- A file that does not exist. -/
  | noSuchFile (path : Text)
  /-- A directory where a file is wanted. -/
  | isDirectory (path : Text)
  /-- A file where a directory is wanted. -/
  | notDirectory (path : Text)
  /-- A path, or a part of one, that is longer than any can be. -/
  | nameTooLong (path : Text)
  /-- A text that can be no path. -/
  | invalidPath (path : Text)
  /-- A sink without room for a whole call. -/
  | sinkFull
  /-- A text that is no integer. -/
  | numeral (reader text : Text) (fault : Numeral.Fault)
  /-- A file of settings that is malformed. -/
  | malformedSettings
  /-- A log level that is none. -/
  | logLevel (text : Text)
  /-- A log format that is none. -/
  | logFormat (text : Text)
  /-- A number of workers below one. -/
  | workers (count : Int)
  /-- Arguments that make no command. -/
  | usage (u : UsageError)
  /-- A failure outside this library, in its own words. -/
  | other (text : Text)
  /-- A failure and what was being done. -/
  | within (doing : Text) (cause : Error)
  /-- Two failures, one after the other. -/
  | both (first second : Error)
  deriving DecidableEq, Repr

namespace Error

/-- The words of an error. -/
def message : Error → Text
  | .read e => e.message
  | .invalid v => v.message
  | .collectionNotFound name => "collection " ++ renderIri name ++ " not found"
  | .transactionClosed => "transaction is closed"
  | .storeClosed => "store is closed"
  | .cancelled => "context canceled"
  | .deadlineExceeded => "context deadline exceeded"
  | .keyNotFound => "key not found"
  | .readOnly => "transaction is read-only"
  | .discarded => "This transaction has been discarded. Create a new one"
  | .commitDiscarded => "Trying to commit a discarded txn"
  | .conflict => "Transaction Conflict. Please retry"
  | .reservedKey => "Key is using a reserved !badger! prefix"
  | .oversize what size limit beginning =>
    what ++ " with size " ++ Text.ofNat size ++ " exceeded " ++ Text.ofNat limit ++ " limit. "
      ++ what ++ ":\n" ++ Hex.page beginning
  | .injectedFault => "injected fault"
  | .unopenable => "failed to open badger db"
  | .nothingToEncode => "cannot encode nil term"
  | .keyLength n => "invalid statement key length " ++ Text.ofNat n
  | .kindMismatch code found =>
    "term type mismatch: key has " ++ TermKind.nameOfCode code ++ ", dictionary has " ++ found.name
  | .absentTerm key => "term " ++ Hex.encode key ++ " missing from dictionary"
  | .subjectNotNode t => "stored subject " ++ t.render ++ " is not a node"
  | .predicateNotIri t => "stored predicate " ++ t.render ++ " is not an IRI"
  | .unsupportedType t => "unsupported content type: " ++ t
  | .unknownFormat path => "cannot infer format of " ++ path
  | .noSuchFile path => "open " ++ path ++ ": no such file or directory"
  | .isDirectory path => "read " ++ path ++ ": is a directory"
  | .notDirectory path => "open " ++ path ++ ": not a directory"
  | .nameTooLong path => "open " ++ path ++ ": file name too long"
  | .invalidPath path => "open " ++ path ++ ": invalid argument"
  | .sinkFull => "sink is full"
  | .numeral reader text fault => reader ++ ": parsing " ++ quoted text ++ ": " ++ fault.message
  | .malformedSettings => "failed to parse config"
  | .logLevel t => "invalid log level " ++ quoted t
  | .logFormat t => "invalid log format " ++ quoted t
  | .workers n => "load workers must be positive, got " ++ Text.ofInt n
  | .usage u => u.message
  | .other t => t
  | .within doing cause => doing ++ ": " ++ cause.message
  | .both first second => first.message ++ "\n" ++ second.message

/-- The causes at the bottom of an error, in order. -/
def causes : Error → List Error
  | .within _ cause => cause.causes
  | .both first second => first.causes ++ second.causes
  | e => [e]

/-- All of a list of errors as one, if there are any. -/
def all : List Error → Option Error
  | [] => none
  | [e] => some e
  | e :: f :: rest => match all (f :: rest) with
    | some later => some (.both e later)
    | none => some e

end Error

/-- A result or an error of this library. -/
abbrev Outcome := Except Error

end TripleStore
