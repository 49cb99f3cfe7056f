import TripleStore.Repository.Reader
import TripleStore.Repository.Writer

/-!
# The repository as a whole

Opening and closing, and actions that take a transaction of their own.
-/

namespace TripleStore.Repository

/-- The record of an opening. -/
def opened (backing : Text) (count : Nat) : Record :=
  ⟨Level.debug, "loaded collections",
    [("backend", backing), ("collections", Text.ofNat count)]⟩

/-- Opens a repository with the collections of its backing. -/
def openOn (patience : Patience) (host : Host) : Outcome Repository × Host :=
  if host.backing.isPresent then
    let name := host.backing.name
    let (answer, backing) := host.backing.load patience
    let host := { host with backing }
    match answer with
    | .error e => (.error (.within ("failed to load collections from " ++ name) e), host)
    | .ok published =>
      let record := opened name published.length
      (.ok (holding published), { host with journal := host.journal ++ [record] })
  else (.ok {}, host)

/-- The names of the published collections. -/
def allCollections (patience : Patience) : Action (List Iri) := do
  let id ← read patience
  let names ← readerCollections id
  cancelReader id
  return names

/-- Ends a writer after a failure, which is passed on. -/
def orCancel {α : Type} (id : Nat) (a : Action α) : Action α := fun w =>
  match a w with
  | .error (.failed e) w => match cancelWriter id w with
    | .ok _ w => .error (.failed e) w
    | .error _ w => .error (.failed e) w
  | r => r

/-- Creates a collection unless it exists. -/
def create (patience : Patience) (name : Iri) : Action Unit := do
  let id ← write patience
  let _ ← orCancel id (writerCollection id name)
  commit id

/-- Deletes a collection if it exists. -/
def drop (patience : Patience) (name : Iri) : Action Unit := do
  let id ← write patience
  orCancel id (deleteCollection id name)
  commit id

/-- Facts about the repository, by name in byte order. -/
def details (w : World) : List (Text × Text) :=
  let s := w.repository
  [("backend", w.host.backing.name), ("collections", Text.ofNat s.published.length),
    ("name", "ligature"),
    ("statements", Text.ofNat (s.published.foldr (fun p n => (s.store p.2).size + n) 0)),
    ("version", version)]

/-- Closes a repository and its backing. -/
def close : Action Unit := do
  let w ← get
  if w.repository.closed then return ()
  else
    let (answer, backing) := w.host.backing.close
    set { w with
      repository := { w.repository with closed := true }, host := { w.host with backing } : World }
    match answer with
    | .ok _ => return ()
    | .error e => fail (.within "failed to close backend" e)

end TripleStore.Repository
