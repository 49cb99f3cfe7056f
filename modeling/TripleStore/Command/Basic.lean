import TripleStore.Command.Options
import TripleStore.Repository.Basic
import TripleStore.Text.Letters

/-!
# Commands

The program has one command for each job, and two of them stand below another.  The command is found
before the flags are read: the first argument that is neither a flag nor the value of one names it,
looking at the flags that are known so far.

`Invocation.read` turns arguments into a command with its options and arguments.
-/

namespace TripleStore

/-- The commands; `program` is what is run when no command is named. -/
inductive Command
  | program
  | version
  | load
  | query
  | dump
  | collections
  | create
  | delete
  | details
  | help
  | completion
  deriving DecidableEq, Repr

namespace Command

/-- The name of a command. -/
def name : Command → Text
  | .program => "ligature"
  | .version => "version"
  | .load => "load"
  | .query => "match"
  | .dump => "dump"
  | .collections => "collections"
  | .create => "create"
  | .delete => "delete"
  | .details => "details"
  | .help => "help"
  | .completion => "completion"

/-- The commands right below another. -/
def below : Command → List Command
  | .program => [.version, .load, .query, .dump, .collections, .details, .help, .completion]
  | .collections => [.create, .delete]
  | _ => []

/-- The flags that every command has. -/
def sharedFlags : List Flag := [.config, .dataDir, .collection]

/-- The flags of a command that are known while commands are looked for. -/
def flags : Command → List Flag
  | .load => [.format, .workers] ++ sharedFlags
  | .query => [.subject, .predicate, .object, .all] ++ sharedFlags
  | _ => sharedFlags

/-- Whether a command does something itself; the others show how they are used. -/
def isRunnable : Command → Bool
  | .program => false
  | .help => false
  | .completion => false
  | _ => true

/-! ### Finding a command -/

/-- Whether a word is a flag whose value is the next word; unknown flags count as such. -/
def takesNext (flags : List Flag) (word : Text) : Bool :=
  let isKnownSwitch : Bool := (Flag.find? flags (word.drop 2)).any Flag.isSwitch
  match word with
  | Ascii.minus :: Ascii.minus :: _ => !word.contains Ascii.equals && !isKnownSwitch
  | [Ascii.minus, b] => b ≠ Ascii.equals
  | _ => false

/-- The words that are neither flags nor values of flags.  A flag in front of the last word ends
them. -/
def operands (flags : List Flag) : List Text → List Text
  | [] => []
  | word :: rest =>
    if word = ("--" : Text) then []
    else if takesNext flags word then
      match rest with
      | _ :: next :: more => operands flags (next :: more)
      | _ => []
    else if word.isEmpty || word.head? == some Ascii.minus then operands flags rest
    else word :: operands flags rest

/-- The words without the first one that is `x` and no flag or value of a flag. -/
def dropFirst (flags : List Flag) (x : Text) : List Text → List Text
  | [] => []
  | word :: rest =>
    if word = ("--" : Text) then word :: rest
    else if takesNext flags word then
      match rest with
      | value :: more => word :: value :: dropFirst flags x more
      | [] => [word]
    else if word = x ∧ word.head? ≠ some Ascii.minus then rest
    else word :: dropFirst flags x rest

/-- The command that words name from a command downwards, at most `depth` steps down, and the words
that do not name it. -/
def descend : (depth : Nat) → Command → List Text → Command × List Text
  | 0, c, words => (c, words)
  | depth + 1, c, words =>
    match operands c.flags words with
    | [] => (c, words)
    | first :: _ => match c.below.find? fun d => d.name = first with
      | some d => descend depth d (dropFirst c.flags first words)
      | none => (c, words)

/-- The command that words name.  No command is more than two steps down. -/
def find (words : List Text) : Command × List Text := descend 2 .program words

/-! ### Commands that may have been meant -/

/-- The next row of the table of edit distances: `diagonal` is the entry above and left of the rest
of the row, `left` the new entry before it. -/
def distanceRow (b : UInt8) : (diagonal left : Nat) → Text → List Nat → List Nat
  | diagonal, left, c :: t, above :: row =>
    let next := if b = c then diagonal else min (min above left) diagonal + 1
    next :: distanceRow b above next t row
  | _, _, _, _ => []

/-- The least number of bytes to insert, delete or replace to get from one text to another. -/
def distance (s t : Text) : Nat :=
  let last := s.foldl (fun (row : List Nat) b =>
    match row with
    | [] => []
    | corner :: above => (corner + 1) :: distanceRow b corner (corner + 1) t above)
    (List.range (t.length + 1))
  last.getLastD 0

/-- Whether a command may have been meant by a word: the word is close to its name or begins it. -/
def mayBeMeant (word : Text) (c : Command) : Bool :=
  c ≠ .help && (distance (lowered word) c.name ≤ 2 || (lowered word).isPrefixOf c.name)

/-- The names of the commands that may have been meant by a word. -/
def meantBy (word : Text) : List Text :=
  (program.below.filter (mayBeMeant word)).map name

/-- Checks the number of arguments of a command. -/
def checkArguments (c : Command) (arguments : List Text) : Outcome Unit :=
  let given := arguments.length
  match c with
  | .load => if given < 1 then .error (.usage (.tooFewArguments 1 given)) else .ok ()
  | .create | .delete => if given ≠ 1 then .error (.usage (.argumentCount 1 given)) else .ok ()
  | _ => .ok ()

end Command

/-- What arguments ask for. -/
inductive Invocation
  /-- To show how a command is used. -/
  | explain (c : Command)
  /-- To run a command. -/
  | run (c : Command) (options : Options) (arguments : List Text)
  deriving DecidableEq, Repr

namespace Invocation

/-- Reads arguments. -/
def read (words : List Text) : Outcome Invocation :=
  let (c, rest) := Command.find words
  match c, Command.operands c.flags rest with
  | .program, word :: _ =>
    .error (.usage (.unknownCommand word Command.program.name (Command.meantBy word)))
  | _, _ =>
    (Options.read (.help :: c.flags) {} rest).bind fun p =>
      if p.1.help || !c.isRunnable then .ok (.explain c)
      else (c.checkArguments p.2).map fun _ => .run c p.1 p.2

end Invocation

end TripleStore
