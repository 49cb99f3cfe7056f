import TripleStore.Repository.Machine

/-!
# What writers did

The history of a machine tells what every writer did: which collections it opened and deleted and
which changes it made to them, with the labels that were drawn.  A ledger keeps an account for each
writer, and the accounts of those that have published, in the order of publication.

* `Work.replay` makes the changes of a writer to one collection once more, from what is published.
* `Account.apply` is what a writer that did all this publishes.
-/

namespace TripleStore

/-- Something that a writer did. -/
inductive Deed
  | opened (h : WriteHandle)
  | deleted (writer : Nat) (name : Iri)
  | edited (h : WriteHandle) (c : Change)
  | published (writer : Nat)
  deriving DecidableEq, Repr

/-- What a writer did when this came out. -/
def Event.deed? : Event → Option Deed
  | .answered (.edit h e) (.ok a) => (e.change a).map (.edited h)
  | .visited _ (.ok (some h)) => some (.opened h)
  | .visited v (.ok none) => some (.deleted v.writer v.name)
  | .published id => some (.published id)
  | _ => none

/-- What a writer did to a collection since it opened it. -/
structure Work where
  store : Nat
  /-- Whether the writer itself had deleted the collection before. -/
  afresh : Bool
  changes : List Change := []
  deriving DecidableEq, Repr

/-- The collection after a writer's work, if some graph is published or none. -/
def Work.replay (w : Work) (published : Option Graph) : Graph :=
  w.changes.foldl Change.apply (if w.afresh then .empty else published.getD .empty)

/-- The work when a store was changed; that counts while the store is the one of the collection. -/
def Work.extended (w : Work) (store : Nat) (c : Change) : Work :=
  if w.store = store then { w with changes := w.changes ++ [c] } else w

/-- What a writer did: its work on the collections that it has open, and the names that it has
deleted. -/
structure Account where
  staged : Named Work := []
  deleted : List Iri := []
  deriving DecidableEq, Repr

namespace Account

/-- A collection was opened; it may have been open before. -/
def opened (a : Account) (h : WriteHandle) : Account :=
  match a.staged.lookup h.name with
  | some _ => a
  | none =>
    { staged := a.staged.put h.name { store := h.store, afresh := a.deleted.contains h.name }
      deleted := a.deleted.filter (· ≠ h.name) }

/-- A collection was deleted. -/
def erased (a : Account) (name : Iri) : Account :=
  { staged := a.staged.erase name, deleted := insertNew name a.deleted }

/-- A store was changed. -/
def edited (a : Account) (store : Nat) (c : Change) : Account :=
  { a with staged := a.staged.map fun p => (p.1, p.2.extended store c) }

/-- The published collections after a writer that did all this, when it publishes upon some. -/
def apply (published : Iri → Option Graph) (a : Account) : Iri → Option Graph := fun name =>
  match a.staged.lookup name with
  | some work => some (work.replay (published name))
  | none => if a.deleted.contains name then none else published name

end Account

/-- The accounts of all writers, and of those that have published with their numbers. -/
structure Ledger where
  accounts : Nat → Account := fun _ => {}
  committed : List (Nat × Account) := []

namespace Ledger

/-- Changes the account of a writer. -/
def revise (l : Ledger) (id : Nat) (f : Account → Account) : Ledger :=
  { l with accounts := fun i => if i = id then f (l.accounts i) else l.accounts i }

/-- Enters a deed. -/
def enter (l : Ledger) : Deed → Ledger
  | .opened h => l.revise h.writer (·.opened h)
  | .deleted id name => l.revise id (·.erased name)
  | .edited h c => l.revise h.writer (·.edited h.store c)
  | .published id => { l with committed := l.committed ++ [(id, l.accounts id)] }

/-- The ledger of a history. -/
def ofHistory (history : List Event) : Ledger := (history.filterMap Event.deed?).foldl enter {}

/-- The writers that have published, in order. -/
def writers (l : Ledger) : List Nat := l.committed.map Prod.fst

/-- What is published after all that was committed, one after the other, when some collections were
published before. -/
def replay (l : Ledger) (published : Iri → Option Graph) : Iri → Option Graph :=
  l.committed.foldl (fun c p => p.2.apply c) published

end Ledger

/-- The ledger of a machine. -/
def Machine.ledger (m : Machine) : Ledger := .ofHistory m.history

end TripleStore
