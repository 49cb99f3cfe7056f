import TripleStore.Error
import TripleStore.Log.Record

/-!
# Settings

What a user may choose: where data is kept, what is logged and how, the collection that commands
work on, and the number of files that are read at a time.

* `Settings.check` says whether the choices make sense.
* `Settings.logged` is the text of those records that are important enough.
-/

namespace TripleStore

/-- The choices of a user.  Left alone, they keep everything in memory. -/
structure Settings where
  /-- The directory of the database; if it is empty, nothing is kept. -/
  dataDir : Text := []
  /-- The least level that is logged. -/
  logLevel : Text := "info"
  /-- The format of log records: `text` or `json`. -/
  logFormat : Text := "text"
  /-- The collection of commands that name none. -/
  defaultCollection : Text := "urn:ligature:default"
  /-- The number of files that are read at a time. -/
  workers : Int := 4
  deriving DecidableEq, Repr

namespace Settings

/-- The least level that is logged. -/
def level (s : Settings) : Outcome Int :=
  match Level.ofText? s.logLevel with
  | some n => .ok n
  | none => .error (.logLevel s.logLevel)

/-- The names of the log formats. -/
def formats : List Text := ["text", "json"]

/-- Checks level, format and number of workers, in this order. -/
def check (s : Settings) : Outcome Unit :=
  match s.level with
  | .error e => .error e
  | .ok _ =>
    if ¬ formats.contains (lowered s.logFormat) then .error (.logFormat s.logFormat)
    else if s.workers < 1 then .error (.workers s.workers)
    else .ok ()

/-- The level from which on records are logged; one that makes no sense counts as `info`. -/
def threshold (s : Settings) : Int :=
  match s.level with
  | .ok n => n
  | .error _ => Level.info

/-- A record in the chosen format. -/
def line (s : Settings) (r : Record) : Text :=
  if sameLetters s.logFormat "json" then r.objectLine else r.bareLine

/-- The lines of the records that are logged. -/
def logged (s : Settings) (records : List Record) : Text :=
  (records.filter fun r => s.threshold ≤ r.level).flatMap s.line

end Settings

end TripleStore
