import TripleStore.Error
import TripleStore.Files.Path

/-!
# Trees of files

A tree holds files and directories at places, which are named by the parts on the way from the root.
A path leads through a tree part by part: everything it passes must be a directory, also where two
dots take it back.

* `Tree.find` is what stands at the end of a path, or why there is nothing to be found.
* `Tree.makeDirectories` makes the directories that a path lacks.
-/

namespace TripleStore

/-- A place in a tree: the parts on the way from the root. -/
abbrev Place := List Text

/-- What stands at a place. -/
inductive Entry
  | file (content : Text)
  | directory
  deriving DecidableEq, Repr

/-- Files and directories. -/
structure Tree where
  entries : List (Place × Entry) := []
  /-- Where paths begin that do not begin at the root. -/
  home : Place := []
  deriving DecidableEq, Repr, Inhabited

namespace Tree

/-- The longest part of a path. -/
def partLimit : Nat := 255

/-- The longest path. -/
def pathLimit : Nat := 4095

/-- What stands at a place; above every place is a directory. -/
def entryAt (t : Tree) (place : Place) : Option Entry :=
  match t.entries.lookup place with
  | some e => some e
  | none =>
    if place.isPrefixOf t.home || t.entries.any (fun e => place.isPrefixOf e.1) then
      some .directory
    else none

/-- The tree with something at a place. -/
def put (t : Tree) (place : Place) (e : Entry) : Tree :=
  { t with entries := (place, e) :: t.entries.filter (·.1 ≠ place) }

/-- Where a path begins. -/
def start (t : Tree) (path : Text) : Place := if Path.isAbsolute path then [] else t.home

/-- One part further along a path. -/
def step (t : Tree) (path : Text) (place : Place) (part : Text) : Outcome Place :=
  match t.entryAt place with
  | none => .error (.noSuchFile path)
  | some (.file _) => .error (.notDirectory path)
  | some .directory =>
    if Path.isIdle part then .ok place
    else if Path.isBack part then .ok place.dropLast
    else if partLimit < part.length then .error (.nameTooLong path)
    else .ok (place ++ [part])

/-- Why a text is no path at all. -/
def pathFault? (path : Text) : Option Error :=
  if path.contains 0 then some (.invalidPath path)
  else if path.isEmpty then some (.noSuchFile path)
  else if pathLimit < path.length then some (.nameTooLong path)
  else none

/-- The place that a path leads to, whether anything stands there or not. -/
def resolve (t : Tree) (path : Text) : Outcome Place :=
  match pathFault? path with
  | some e => .error e
  | none => (Path.parts path).foldlM (t.step path) (t.start path)

/-- What stands at the end of a path. -/
def find (t : Tree) (path : Text) : Outcome Entry :=
  (t.resolve path).bind fun place => match t.entryAt place with
    | some e => .ok e
    | none => .error (.noSuchFile path)

/-- The tree with a directory at a place, unless a file stands there. -/
def madeAt? (t : Tree) (place : Place) : Option Tree :=
  match t.entryAt place with
  | some .directory => some t
  | some (.file _) => none
  | none => some (t.put place .directory)

/-- Walks on along parts of a path and makes each directory that is missing: the place it comes to,
unless something is in the way. -/
def makeAlong (path : Text) : List Text → Place → Tree → Option Place × Tree
  | [], place, t => match t.madeAt? place with
    | some t => (some place, t)
    | none => (none, t)
  | part :: rest, place, t => match t.madeAt? place with
    | none => (none, t)
    | some t => match t.step path place part with
      | .ok next => makeAlong path rest next t
      | .error _ => (none, t)

/-- Makes the directories that a path lacks: the place of the last, unless it cannot be made.  Those
before something that is in the way are made all the same. -/
def makeDirectories (t : Tree) (path : Text) : Option Place × Tree :=
  if (pathFault? path).isSome then (none, t)
  else makeAlong path (Path.parts path) (t.start path) t

/-- The place that a path names, if all it passes are directories. -/
def placeNamed (t : Tree) (path : Text) : Place :=
  (Path.parts path).foldl (fun place part =>
    if Path.isIdle part then place
    else if Path.isBack part then place.dropLast
    else place ++ [part]) (t.start path)

/-- The tree with something at the place that a path names. -/
def putAt (t : Tree) (path : Text) (e : Entry) : Tree := t.put (t.placeNamed path) e

end Tree

end TripleStore
