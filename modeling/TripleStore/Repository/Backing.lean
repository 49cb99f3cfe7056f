import TripleStore.Archive.Basic

/-!
# Backings

What a repository tells its collections to.  A backing takes no part in the isolation of
transactions: it is told what has been published.

* `Backing.memory` keeps nothing.
* `Backing.archive` keeps the collections in tables.
* `Backing.recorder` keeps nothing either, but writes down what it was told and fails as it is asked
  to; it serves to watch a repository.  Merges into what it holds from the beginning are not noted
  in the journal.
-/

namespace TripleStore

/-- Things by name. -/
abbrev Named (α : Type) := List (Iri × α)

namespace Named

variable {α : Type}

/-- The things with one set. -/
def put (c : Named α) (name : Iri) (a : α) : Named α := (name, a) :: c.filter (·.1 ≠ name)

/-- The things without one. -/
def erase (c : Named α) (name : Iri) : Named α := c.filter (·.1 ≠ name)

/-- The names in byte order. -/
def names (c : Named α) : List Iri := Text.sort (c.map Prod.fst)

/-- The names with numbers from `first` on instead of the things. -/
def numbered (c : Named α) (first : Nat) : Named Nat :=
  (c.zipIdx first).map fun p => (p.1.1, p.2)

end Named

/-- Collections by name. -/
abbrev Collections := Named Graph

/-- What a backing was told. -/
inductive Notice
  | load
  | save (name : Iri) (statements : Nat)
  | delete (name : Iri)
  | close
  deriving DecidableEq, Repr

/-- A backing that writes down what it is told. -/
structure Recorder where
  name : Text
  preload : Collections := []
  loadFailure : Option Text := none
  closeFailure : Option Text := none
  failSave : List Iri := []
  failDelete : List Iri := []
  notices : List Notice := []
  deriving DecidableEq, Repr, Inhabited

namespace Recorder

/-- Writes down a notice. -/
def note (r : Recorder) (n : Notice) : Recorder := { r with notices := r.notices ++ [n] }

/-- What it holds from the beginning, merges into which are not noted. -/
def held (r : Recorder) : Collections := r.preload.map fun p => (p.1, { p.2 with reports := false })

end Recorder

/-- What stands behind a repository. -/
inductive Backing
  | memory
  | archive (medium : Medium)
  | recorder (r : Recorder)
  deriving DecidableEq, Repr, Inhabited

/-- A failure in the words of whoever failed. -/
def failedWith : Option Text → Outcome Unit
  | some t => .error (.other t)
  | none => .ok ()

namespace Backing

/-- The name of a backing. -/
def name : Backing → Text
  | .memory => "memory"
  | .archive _ => Archive.name
  | .recorder r => r.name

/-- Whether anything stands behind the repository. -/
def isPresent : Backing → Bool
  | .memory => false
  | _ => true

/-- The collections that a backing holds. -/
def load (patience : Patience) : Backing → Outcome Collections × Backing
  | .memory => (.ok [], .memory)
  | .archive m =>
    let (answer, m) := Archive.load patience m
    (answer, .archive m)
  | .recorder r => ((failedWith r.loadFailure).map fun _ => r.held, .recorder (r.note .load))

/-- Tells a backing the new state of a collection. -/
def save (patience : Patience) (name : Iri) (g : Graph) : Backing → Outcome Unit × Backing
  | .memory => (.ok (), .memory)
  | .archive m =>
    let (answer, m) := Archive.save patience name g m
    (answer, .archive m)
  | .recorder r =>
    let answer := if r.failSave.contains name then failedWith (some "disk full") else .ok ()
    (answer, .recorder (r.note (.save name g.size)))

/-- Tells a backing that a collection is gone. -/
def delete (name : Iri) : Backing → Outcome Unit × Backing
  | .memory => (.ok (), .memory)
  | .archive m =>
    let (answer, m) := Archive.delete name m
    (answer, .archive m)
  | .recorder r =>
    let answer := if r.failDelete.contains name then failedWith (some "disk locked") else .ok ()
    (answer, .recorder (r.note (.delete name)))

/-- Tells a backing that it is no longer needed. -/
def close : Backing → Outcome Unit × Backing
  | .recorder r => (failedWith r.closeFailure, .recorder (r.note .close))
  | b => (.ok (), b)

/-- What a backing logs when a collection was saved. -/
def savedRecords (name : Iri) (g : Graph) : Backing → List Record
  | .archive _ => [Archive.saved name g]
  | _ => []

/-- What a backing was told, as far as it writes it down. -/
def notices : Backing → List Notice
  | .recorder r => r.notices
  | _ => []

end Backing

end TripleStore
