import TripleStore.Error

/-!
# Flags and their values

A flag is written `--name value` or `--name=value`.  A switch takes a value only in the second form;
without one it is on.  When a flag is given twice, the last value counts.

`Options.read` goes through arguments once: it sets flags and collects what is no flag.  Two hyphens
alone end the flags.
-/

namespace TripleStore

/-- The flags of all commands. -/
inductive Flag
  | config
  | dataDir
  | collection
  | format
  | workers
  | subject
  | predicate
  | object
  | all
  | help
  deriving DecidableEq, Repr

namespace Flag

/-- The name of a flag. -/
def name : Flag → Text
  | .config => "config"
  | .dataDir => "data-dir"
  | .collection => "collection"
  | .format => "format"
  | .workers => "workers"
  | .subject => "subject"
  | .predicate => "predicate"
  | .object => "object"
  | .all => "all"
  | .help => "help"

/-- Whether a flag is on without a value. -/
def isSwitch : Flag → Bool
  | .all => true
  | .help => true
  | _ => false

/-- The flag in messages. -/
def title : Flag → Text
  | .help => "-h, --help"
  | f => "--" ++ f.name

/-- The flag of a name among those of a command. -/
def find? (flags : List Flag) (name : Text) : Option Flag := flags.find? fun f => f.name = name

end Flag

/-- The values of the flags. -/
structure Options where
  config : Text := []
  /-- The data directory, if it was given. -/
  dataDir : Option Text := none
  collection : Text := []
  format : Text := []
  workers : Int := 0
  subject : Text := []
  predicate : Text := []
  object : Text := []
  all : Bool := false
  help : Bool := false
  deriving DecidableEq, Repr

namespace Options

/-- The words for a truth value. -/
def truthOf? (t : Text) : Option Bool :=
  if (["1", "t", "T", "TRUE", "true", "True"] : List Text).contains t then some true
  else if (["0", "f", "F", "FALSE", "false", "False"] : List Text).contains t then some false
  else none

/-- The truth value that a switch is set to. -/
def readTruth (f : Flag) (value : Text) : Outcome Bool :=
  match truthOf? value with
  | some b => .ok b
  | none => .error (.usage (.unfitValue value f.title "strconv.ParseBool" .malformed))

/-- The integer that a flag is set to. -/
def readNumber (f : Flag) (value : Text) : Outcome Int :=
  match readLiteral value with
  | .ok n => .ok n
  | .error fault => .error (.usage (.unfitValue value f.title "strconv.ParseInt" fault))

/-- The options with a flag set. -/
def set (o : Options) (f : Flag) (value : Text) : Outcome Options :=
  match f with
  | .config => .ok { o with config := value }
  | .dataDir => .ok { o with dataDir := some value }
  | .collection => .ok { o with collection := value }
  | .format => .ok { o with format := value }
  | .workers => (readNumber f value).map fun n => { o with workers := n }
  | .subject => .ok { o with subject := value }
  | .predicate => .ok { o with predicate := value }
  | .object => .ok { o with object := value }
  | .all => (readTruth f value).map fun b => { o with all := b }
  | .help => (readTruth f value).map fun b => { o with help := b }

/-- The options after letters behind one hyphen.  Only `h` is a flag; behind an equals sign follows
its value. -/
def setLetters (o : Options) : Text → Outcome Options
  | [] => .ok o
  | 104 :: Ascii.equals :: b :: value => o.set .help (b :: value)
  | 104 :: rest => setLetters { o with help := true } rest
  | letters => .error (.usage (.unknownLetter letters))

/-- What a word behind two hyphens asks for. -/
inductive Request
  | set (f : Flag) (value : Text)
  | setNext (f : Flag)

/-- What a word behind two hyphens asks for. -/
def request (flags : List Flag) (word : Text) : Outcome Request :=
  let body := word.drop 2
  let (name, value) := match Text.cut Ascii.equals body with
    | some (name, value) => (name, some value)
    | none => (body, none)
  if body.head? = some Ascii.minus ∨ body.head? = some Ascii.equals then
    .error (.usage (.namelessFlag word))
  else match Flag.find? flags name with
    | none => .error (.usage (.unknownFlag name))
    | some f => .ok <| match value with
      | some v => .set f v
      | none => if f.isSwitch then .set f "true" else .setNext f

/-- Goes through arguments: the options, and the arguments that are no flags, in order. -/
def read (flags : List Flag) (o : Options) : List Text → Outcome (Options × List Text)
  | [] => .ok (o, [])
  | word :: rest =>
    match word with
    | Ascii.minus :: b :: more =>
      if b ≠ Ascii.minus then
        (o.setLetters (b :: more)).bind fun o => read flags o rest
      else if more.isEmpty then .ok (o, rest)
      else (request flags word).bind fun
        | .set f value => (o.set f value).bind fun o => read flags o rest
        | .setNext f => match rest with
          | [] => .error (.usage (.missingValue word))
          | value :: rest => (o.set f value).bind fun o => read flags o rest
    | _ => (read flags o rest).map fun p => (p.1, word :: p.2)

end Options

end TripleStore
