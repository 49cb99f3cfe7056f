import TripleStore.Command.Basic
import TripleStore.Repository.Whole
import TripleStore.Settings.Load

/-!
# Sessions

A command works on a repository that is opened for it and closed after it.  Between commands remain
the files, the environment, the databases in their directories and the supply of labels.
-/

namespace TripleStore

/-- What a command finds and leaves behind. -/
structure Surroundings where
  tree : Tree
  environment : Environment
  /-- The databases and the places of their directories. -/
  databases : List (Place × Database) := []
  supply : Supply := {}

/-- What a command came to. -/
structure Report where
  output : Text := []
  error : Option Error := none
  log : Text := []
  deriving DecidableEq, Repr

namespace Surroundings

/-- Opens the database in a directory, which is made if it does not exist: its place and the
database, or nothing if there can be no such directory. -/
def openDatabase (s : Surroundings) (directory : Text) :
    Option (Place × Database) × Surroundings :=
  let (place, tree) := s.tree.makeDirectories directory
  (place.map fun p => (p, (s.databases.lookup p).getD {}), { s with tree })

/-- The surroundings with a database at a place. -/
def keep (s : Surroundings) (place : Place) (database : Database) : Surroundings :=
  { s with databases := (place, database) :: s.databases.filter (·.1 ≠ place) }

/-- The surroundings after a session, whose database has a place if it is to be kept. -/
def leave (s : Surroundings) (place : Option Place) (host : Host) : Surroundings :=
  let s := { s with supply := host.supply }
  match place, host.backing with
  | some place, .archive m => s.keep place m.database
  | _, _ => s

end Surroundings

namespace Session

/-- What an action came to: its result or the error it failed with.  A session has no second writer,
so there is nobody to wait for. -/
def perform {α : Type} (a : Action α) (w : World) : Outcome α × World :=
  match a.run w with
  | .ok result w => (.ok result, w)
  | .error (.failed e) w => (.error e, w)
  | .error .waiting w => (.error .deadlineExceeded, w)

/-- The settings of a session; a flag for the data directory counts before all else. -/
def settings (o : Options) (s : Surroundings) : Outcome Settings :=
  (Settings.load s.tree s.environment o.config).map fun settings =>
    { settings with dataDir := o.dataDir.getD settings.dataDir }

/-- The record of the beginning of a session. -/
def began (settings : Settings) : Record :=
  ⟨Level.debug, "store opened", [("data_dir", settings.dataDir)]⟩

/-- Runs an action on an open repository and closes that.  The output of the action stays when the
closing fails. -/
def conduct (settings : Settings) (body : Action Text) (w : World) : Report × Host :=
  let (answer, w) := perform (do Repository.log [began settings]; body) w
  let (closing, w) := perform Repository.close w
  let report : Report := match answer, closing with
    | .error e, _ => { error := some e }
    | .ok output, .error e => { output, error := some e }
    | .ok output, .ok _ => { output }
  ({ report with log := settings.logged w.host.journal }, w.host)

/-- Runs an action on a repository that is opened on a backing, whose place is given if it is to be
kept. -/
def runOn (settings : Settings) (body : Tree → Action Text) (place : Option Place)
    (backing : Backing) (s : Surroundings) : Report × Surroundings :=
  match Repository.openOn .unlimited { backing, supply := s.supply } with
  | (.error e, host) =>
    ({ error := some e, log := settings.logged host.journal }, s.leave place host)
  | (.ok repository, host) =>
    let (report, host) := conduct settings (body s.tree) ⟨repository, host⟩
    (report, s.leave place host)

/-- Runs an action in a session of its own.  Without a data directory nothing is kept. -/
def run (o : Options) (body : Settings → Tree → Action Text) (s : Surroundings) :
    Report × Surroundings :=
  match settings o s with
  | .error e => ({ error := some e }, s)
  | .ok settings =>
    if settings.dataDir.isEmpty then runOn settings (body settings) none .memory s
    else match s.openDatabase settings.dataDir with
      | (none, s) => ({ error := some .unopenable }, s)
      | (some (place, database), s) =>
        runOn settings (body settings) (some place) (.archive ⟨database, none⟩) s

end Session

namespace Invocation

/-- The files that a command reads. -/
def paths : Invocation → List Text
  | .explain _ => []
  | .run c o arguments =>
    (if o.config.isEmpty then [] else [o.config]) ++ (if c = .load then arguments else [])

/-- The directory of the database that a command works on. -/
def directory? (s : Surroundings) : Invocation → Option Text
  | .explain _ => none
  | .run c o _ =>
    if c = .version then none
    else ((Session.settings o s).toOption.map Settings.dataDir).filter fun d => !d.isEmpty

end Invocation

end TripleStore
