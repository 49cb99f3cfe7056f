import TripleStore.Document.Load
import TripleStore.Files.Tree
import TripleStore.Log.Record
import TripleStore.Patience

/-!
# Loading files

Each file is loaded into a graph of its own, and the graphs are merged, so that blank nodes of
different files are different.  The first failure ends the loading.
-/

namespace TripleStore

/-- Loads files. -/
structure FileLoader where
  tree : Tree
  /-- The content type of all files; if it is empty, their names tell it. -/
  contentType : Text := []

namespace FileLoader

/-- The format of a file. -/
def formatOf (l : FileLoader) (path : Text) : Outcome Format :=
  if l.contentType.isEmpty then
    (Format.ofPath path).bind fun f => Format.ofContentType f.contentType
  else Format.ofContentType l.contentType

/-- Loads a file into a graph of its own. -/
def loadFile (l : FileLoader) (path : Text) (supply : Supply) : Outcome (Graph × Nat) × Supply :=
  match l.formatOf path with
  | .error e => (.error e, supply)
  | .ok format =>
    let finish (r : Loaded) : Outcome (Graph × Nat) × Supply :=
      match r.error with
      | some e => (.error (.within path e), r.supply)
      | none => (.ok (r.graph, r.count), r.supply)
    match l.tree.find path with
    | .error e => (.error (.within ("failed to open " ++ path) e), supply)
    | .ok .directory => finish (Document.unreadable .empty supply (.isDirectory path))
    | .ok (.file content) => finish (Document.load format content .empty supply)

/-- The record of a file that was loaded. -/
def loaded (path : Text) (count : Nat) : Record :=
  ⟨Level.info, "loaded file", [("path", path), ("statements", Text.ofNat count)]⟩

/-- The state of loading several files. -/
structure Progress where
  graph : Graph := .empty
  supply : Supply
  journal : List Record := []
  deriving DecidableEq, Repr

/-- Loads one more file. -/
def step (l : FileLoader) (patience : Patience) (p : Progress) (path : Text) :
    Outcome Unit × Progress :=
  match patience.exhausted? with
  | some e => (.error e, p)
  | none =>
    match l.loadFile path p.supply with
    | (.error e, supply) => (.error e, { p with supply })
    | (.ok (scratch, count), supply) =>
      let (graph, supply) := p.graph.merge scratch supply
      (.ok (), ⟨graph, supply, p.journal ++ [.merged scratch.mergeReport, loaded path count]⟩)

/-- Loads files one after the other: the merged graph, or the first failure; and how far it came. -/
def loadFrom (l : FileLoader) (patience : Patience) (p : Progress) :
    List Text → Outcome Graph × Progress
  | [] => (.ok p.graph, p)
  | path :: rest =>
    match l.step patience p path with
    | (.ok _, p) => loadFrom l patience p rest
    | (.error e, p) => (.error e, p)

/-- Loads files into one graph. -/
def loadFiles (l : FileLoader) (patience : Patience) (paths : List Text) (supply : Supply) :
    Outcome Graph × Progress :=
  l.loadFrom patience { supply } paths

end FileLoader

end TripleStore
