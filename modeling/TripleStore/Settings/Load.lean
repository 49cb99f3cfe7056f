import TripleStore.Files.Tree
import TripleStore.Settings.Basic
import TripleStore.Yaml.Field

/-!
# Where settings come from

Settings start from the choices of the library.  A file changes those that it names, and variables
of the environment change them again.  What results is checked.  Keys of a file that are not known
change nothing, whatever their values.
-/

namespace TripleStore

/-- The values of the variables that are set. -/
abbrev Environment := Text → Option Text

namespace Settings

/-! ### The file -/

/-- The settings after a value for a field; a value that stands for nothing changes nothing. -/
def readField (d : Yaml.Document) (s : Settings) (field : Text × Yaml.Document.Value) :
    Option Settings :=
  let chosen (old : Text) : Option Text := (d.text? field.2.node).map (·.getD old)
  if field.1 = ("data_dir" : Text) then
    (chosen s.dataDir).map fun t => { s with dataDir := t }
  else if field.1 = ("log_level" : Text) then
    (chosen s.logLevel).map fun t => { s with logLevel := t }
  else if field.1 = ("log_format" : Text) then
    (chosen s.logFormat).map fun t => { s with logFormat := t }
  else if field.1 = ("default_collection" : Text) then
    (chosen s.defaultCollection).map fun t => { s with defaultCollection := t }
  else if field.1 = ("workers" : Text) then
    (d.integer? field.2.node).map fun n => { s with workers := n.getD s.workers }
  else some s

/-- The fields of a file that hold a text. -/
def textFields : List Text := ["data_dir", "log_level", "log_format", "default_collection"]

/-- The settings after a value for a field or for the section on loading. -/
def readSection (d : Yaml.Document) (s : Settings) (field : Text × Yaml.Document.Value) :
    Option Settings :=
  if field.1 = ("load" : Text) then
    (d.fields? ["workers"] field.2).bind fun fields => fields.foldlM (readField d) s
  else readField d s field

/-- The settings after a document. -/
def readDocument (s : Settings) (d : Yaml.Document) : Option Settings :=
  match d.root with
  | none => some s
  | some n =>
    (d.fields? ("load" :: textFields) ⟨n, []⟩).bind fun fields => fields.foldlM (readSection d) s

/-- The settings after a file with this content. -/
def readFile (s : Settings) (content : Text) : Outcome Settings :=
  match (Yaml.Document.ofBytes? content).bind s.readDocument with
  | some s => .ok s
  | none => .error .malformedSettings

/-- The settings after the file at a path. -/
def readPath (tree : Tree) (path : Text) (s : Settings) : Outcome Settings :=
  let unreadable (e : Error) : Outcome Settings := .error (.within "failed to read config" e)
  match tree.find path with
  | .ok (.file content) => s.readFile content
  | .ok .directory => unreadable (.isDirectory path)
  | .error e => unreadable e

/-! ### The environment -/

/-- The value of a variable, unless that is empty. -/
def filledVariable (env : Environment) (name : Text) : Option Text :=
  (env name).filter fun t => !t.isEmpty

/-- The number of workers after the environment. -/
def overrideWorkers (env : Environment) (workers : Int) : Outcome Int :=
  match filledVariable env "LIGATURE_LOAD_WORKERS" with
  | none => .ok workers
  | some t => match readDecimal t with
    | .ok n => .ok n
    | .error f =>
      .error (.within ("invalid LIGATURE_LOAD_WORKERS " ++ quoted t) (.numeral "strconv.Atoi" t f))

/-- The settings after the environment.  The data directory may be set to nothing. -/
def override (env : Environment) (s : Settings) : Outcome Settings :=
  (overrideWorkers env s.workers).map fun workers =>
    { dataDir := (env "LIGATURE_DATA_DIR").getD s.dataDir
      logLevel := (filledVariable env "LIGATURE_LOG_LEVEL").getD s.logLevel
      logFormat := (filledVariable env "LIGATURE_LOG_FORMAT").getD s.logFormat
      defaultCollection :=
        (filledVariable env "LIGATURE_DEFAULT_COLLECTION").getD s.defaultCollection
      workers }

/-! ### Both -/

/-- The settings of a file, unless the path is empty, and of the environment. -/
def load (tree : Tree) (env : Environment) (path : Text) : Outcome Settings := do
  let s ← if path.isEmpty then .ok {} else readPath tree path {}
  let s ← override env s
  s.check
  return s

end Settings

end TripleStore
