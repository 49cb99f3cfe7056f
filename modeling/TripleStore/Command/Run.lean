import TripleStore.Command.Session
import TripleStore.Command.Task

/-!
# Running commands

What can be checked without a repository is checked before one is opened; then a command runs its
task in a session.

`Command.execute` runs the command that arguments ask for.
-/

namespace TripleStore.Command

/-- Runs an action in a session, unless its argument is an error. -/
def runWith {α : Type} (o : Options) (argument : Outcome α) (body : α → Settings → Action Text)
    (s : Surroundings) : Report × Surroundings :=
  match argument with
  | .error e => ({ error := some e }, s)
  | .ok a => Session.run o (fun settings _ => body a settings) s

/-- Runs a command. -/
def run (c : Command) (o : Options) (arguments : List Text) (s : Surroundings) :
    Report × Surroundings :=
  let named := Task.collectionName (arguments.headD [])
  match c with
  | .version => ({ output := Task.versionLine }, s)
  | .load => Session.run o (Task.load o arguments) s
  | .query => runWith o (Task.patternOf o) (Task.query o) s
  | .dump => Session.run o (fun settings _ => Task.dump o settings) s
  | .collections => Session.run o (fun _ _ => Task.collections) s
  | .create => runWith o named (fun name _ => Task.create name) s
  | .delete => runWith o named (fun name _ => Task.delete name) s
  | .details => Session.run o (fun _ _ => Task.details) s
  | .program => ({}, s)
  | .help => ({}, s)
  | .completion => ({}, s)

/-- Runs what arguments ask for. -/
def execute (words : List Text) (s : Surroundings) : Report × Surroundings :=
  match Invocation.read words with
  | .error e => ({ error := some e }, s)
  | .ok (.explain _) => ({}, s)
  | .ok (.run c o arguments) => run c o arguments s

end TripleStore.Command
