import TripleStore.Command.Markdown
import TripleStore.Command.Options
import TripleStore.Document.Files
import TripleStore.NTriples.Writer
import TripleStore.Repository.Collection
import TripleStore.Repository.Whole
import TripleStore.Settings.Load

/-!
# Tasks

What the commands do: actions on a repository that give the text to print.
-/

namespace TripleStore.Task

/-! ### Arguments with a meaning -/

/-- A text as the name of a collection. -/
def collectionName (name : Text) : Outcome Iri :=
  match (Term.iri name).violation? with
  | some v => .error (.within ("invalid collection name " ++ quoted name) (.invalid v))
  | none => .ok name

/-- The collection that a command works on. -/
def chosenCollection (o : Options) (s : Settings) : Outcome Iri :=
  collectionName (if o.collection.isEmpty then s.defaultCollection else o.collection)

/-- The term that a flag gives; an empty text gives none. -/
def optionalTerm (f : Flag) (t : Text) : Outcome (Option Term) :=
  if t.isEmpty then .ok none
  else match NTriples.parseTerm t with
    | .ok term => .ok (some term)
    | .error e => .error (.within ("invalid --" ++ f.name) (.read e))

/-- The pattern that the flags give, without a collection. -/
def patternOf (o : Options) : Outcome Pattern := do
  let subject ← optionalTerm .subject o.subject
  let predicate ← optionalTerm .predicate o.predicate
  let object ← optionalTerm .object o.object
  return ⟨subject, predicate, object, none⟩

/-- An outcome as an action. -/
def lift {α : Type} : Outcome α → Action α
  | .ok a => return a
  | .error e => fail e

/-! ### Actions -/

open Repository

/-- Loads files into one graph, with labels from the supply. -/
def loadGraph (tree : Tree) (contentType : Text) (paths : List Text) : Action Graph := do
  let w ← get
  let loader : FileLoader := { tree, contentType }
  let (answer, p) := loader.loadFiles .unlimited paths w.host.supply
  set { w with host :=
    { w.host with supply := p.supply, journal := w.host.journal ++ p.journal } : World }
  lift answer

/-- Loads files into a collection. -/
def load (o : Options) (paths : List Text) (s : Settings) (tree : Tree) : Action Text := do
  let name ← lift (chosenCollection o s)
  let g ← loadGraph tree o.format paths
  let id ← write .unlimited
  let _ ← orCancel id do mergeGraph (← writerCollection id name) g
  commit id
  return "✓ Loaded " ++ Text.ofNat g.size ++ " statements from " ++ Text.ofNat paths.length
    ++ " files into " ++ name ++ "\n"

/-- The order of rows: by the first cell in which they differ. -/
def rowLe : List Text → List Text → Bool
  | [], _ => true
  | _ :: _, [] => false
  | a :: s, b :: t => if a = b then rowLe s t else Text.le a b

/-- A statement as the cells of a row. -/
def cells (d : Draft) : List Text :=
  [d.renderSubject, renderIri d.predicate, d.renderObject, (d.graph.map Node.render).getD []]

/-- The statements that were found, as a table. -/
def foundTable (found : List Draft) : Text :=
  if found.isEmpty then "No matching statements\n"
  else
    Markdown.table ["Subject", "Predicate", "Object", "Collection"]
      ((found.map cells).mergeSort rowLe)
      ++ "\n_" ++ Text.ofNat found.length ++ " statements_\n"

/-- Shows the statements that match a pattern, in one collection or in all. -/
def query (o : Options) (p : Pattern) (s : Settings) : Action Text := do
  let name ← if o.all then pure none else (lift (chosenCollection o s)).map some
  let id ← read .unlimited
  let found ← readerMatch id { p with context := name.map Term.iri }
  return foundTable (found.drain (← get).repository.stores)

/-- Writes a collection, a statement per line. -/
def dump (o : Options) (s : Settings) : Action Text := do
  let name ← lift (chosenCollection o s)
  let id ← read .unlimited
  let sequence ← handleMatch (.reading (← readerCollection id name)) {}
  let found := sequence.drain (← get).repository.stores
  log [⟨Level.debug, "dumped collection",
    [("collection", name), ("statements", Text.ofNat found.length)]⟩]
  return NTriples.render found

/-- Shows the collections and their sizes. -/
def collections : Action Text := do
  let id ← read .unlimited
  let names ← readerCollections id
  let rows ← names.mapM fun name => do
    return [name, Text.ofNat (← size (.reading (← readerCollection id name)))]
  return if rows.isEmpty then "No collections\n"
    else Markdown.table ["Collection", "Statements"] rows

/-- Creates a collection. -/
def create (name : Iri) : Action Text := do
  Repository.create .unlimited name
  return "✓ Created " ++ name ++ "\n"

/-- Deletes a collection. -/
def delete (name : Iri) : Action Text := do
  Repository.drop .unlimited name
  return "✓ Deleted " ++ name ++ "\n"

/-- Shows facts about the repository. -/
def details : Action Text := do
  let facts := Repository.details (← get)
  return Markdown.table ["Key", "Value"] (facts.map fun f => [f.1, f.2])

/-- The version of the program. -/
def versionLine : Text := "ligature v" ++ Repository.version ++ "\n"

end TripleStore.Task
