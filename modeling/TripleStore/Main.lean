import TripleStore.Command.Run
import TripleStore.Database.Lines

/-!
# The program

All that a command needs is read before it runs, and all that it leaves behind is written after it.
A database is one file of lines in its directory.
-/

namespace TripleStore.Program

/-- The bytes of a text. -/
def bytes (t : Text) : ByteArray := ⟨t.toArray⟩

/-- A text as a path. -/
def path (t : Text) : String := (String.fromUTF8? (bytes t)).getD ""

/-- What stands at a path. -/
def look (t : Text) : IO (Option Entry) := do
  try return some (.file (← IO.FS.readBinFile (path t)).toList)
  catch e => match e with
    | .inappropriateType none _ _ => return some .directory
    | _ => return none

/-- The tree as far as some paths lead through it. -/
def treeAlong (paths : List Text) : IO Tree := do
  let here := Text.ofString (← IO.currentDir).toString
  let empty : Tree := { home := Path.essential here }
  (paths.flatMap Path.beginnings).foldlM (fun t p => do
    match ← look p with
    | some e => return t.putAt p e
    | none => return t) empty

/-- The variables that are looked at. -/
def watchedNames : List String :=
  ["LIGATURE_DATA_DIR", "LIGATURE_LOG_LEVEL", "LIGATURE_LOG_FORMAT", "LIGATURE_DEFAULT_COLLECTION",
    "LIGATURE_LOAD_WORKERS"]

/-- The environment of the process. -/
def environment : IO Environment := do
  let values ← watchedNames.filterMapM fun name => do
    return (← IO.getEnv name).map fun v => (Text.ofString name, Text.ofString v)
  return fun name => values.lookup name

/-- The file of the database in a directory. -/
def databaseFile (directory : Text) : Text := directory ++ "/entries"

/-- The surroundings of a command, and the directory of the database that it works on. -/
def surroundings (words : List Text) : IO (Surroundings × Option Text) := do
  let environment ← environment
  match Invocation.read words with
  | .error _ => return ({ tree := {}, environment }, none)
  | .ok invocation =>
    let s : Surroundings := { tree := ← treeAlong invocation.paths, environment }
    match invocation.directory? s with
    | none => return (s, none)
    | some directory =>
      let s := { s with tree := ← treeAlong (directory :: invocation.paths) }
      match ← look (databaseFile directory) with
      | some (.file content) =>
        let database : Database := { entries := Entries.ofLines content }
        return (s.keep (s.tree.placeNamed directory) database, some directory)
      | _ => return (s, some directory)

/-- Writes the database that a command left behind. -/
def keep (s : Surroundings) (directory : Text) : IO Unit := do
  match s.databases with
  | [] => return ()
  | (_, database) :: _ =>
    IO.FS.createDirAll (path directory)
    IO.FS.writeBinFile (path (databaseFile directory)) (bytes database.entries.toLines)

/-- Runs a command: the code that the process ends with. -/
def run (words : List Text) : IO UInt32 := do
  let (s, directory) ← surroundings words
  let (report, s) := Command.execute words s
  if let some directory := directory then keep s directory
  (← IO.getStdout).write (bytes report.output)
  let errors ← IO.getStderr
  errors.write (bytes report.log)
  match report.error with
  | none => return 0
  | some e =>
    errors.write (bytes ("Error: " ++ e.message ++ "\n"))
    return 1

end TripleStore.Program

/-- Runs the command that the arguments ask for. -/
def main (arguments : List String) : IO UInt32 :=
  TripleStore.Program.run (arguments.map TripleStore.Text.ofString)
