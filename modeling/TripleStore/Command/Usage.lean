import TripleStore.Text.Numeral
import TripleStore.Text.Quoted

/-!
# Mistakes on the command line

Arguments that make no command, as causes.  `UsageError.message` holds the wording.
-/

namespace TripleStore

/-- Why arguments make no command. -/
inductive UsageError
  /-- A word that is no command, and commands that may have been meant. -/
  | unknownCommand (word program : Text) (meant : List Text)
  /-- A flag that the command does not have. -/
  | unknownFlag (name : Text)
  /-- A letter that is no flag, in the letters that begin with it. -/
  | unknownLetter (letters : Text)
  /-- A flag without its value. -/
  | missingValue (word : Text)
  /-- A word that looks like a flag without a name. -/
  | namelessFlag (word : Text)
  /-- A value that the flag does not take. -/
  | unfitValue (value flag reader : Text) (fault : Numeral.Fault)
  /-- Another number of arguments than the command takes. -/
  | argumentCount (wanted given : Nat)
  /-- Fewer arguments than the command takes. -/
  | tooFewArguments (least given : Nat)
  deriving DecidableEq, Repr

namespace UsageError

/-- A name on a line of its own. -/
def indented (name : Text) : Text := "\t" ++ name ++ "\n"

/-- The commands that may have been meant, each on a line. -/
def suggestion : List Text → Text
  | [] => []
  | meant => "\n\nDid you mean this?\n" ++ meant.flatMap indented

/-- The words of a mistake. -/
def message : UsageError → Text
  | .unknownCommand word program meant =>
    "unknown command " ++ quoted word ++ " for " ++ quoted program ++ suggestion meant
  | .unknownFlag name => "unknown flag: --" ++ name
  | .unknownLetter letters =>
    let first := ((letters.head?.map UInt8.toNat).getD 0 : Nat)
    "unknown shorthand flag: " ++ quotedScalar first ++ " in -" ++ letters
  | .missingValue word => "flag needs an argument: " ++ word
  | .namelessFlag word => "bad flag syntax: " ++ word
  | .unfitValue value flag reader fault =>
    "invalid argument " ++ quoted value ++ " for " ++ quoted flag ++ " flag: " ++ reader
      ++ ": parsing " ++ quoted value ++ ": " ++ fault.message
  | .argumentCount wanted given =>
    "accepts " ++ Text.ofNat wanted ++ " arg(s), received " ++ Text.ofNat given
  | .tooFewArguments least given =>
    "requires at least " ++ Text.ofNat least ++ " arg(s), only received " ++ Text.ofNat given

end UsageError

end TripleStore
