import TripleStore.Repository.Backing

/-!
# Repositories

A repository publishes named collections.  Readers work on the collections as they were published
when they began.  Writers work on stores of their own, which are published together by a commit; a
collection is locked by the one writer that opened it, until that writer commits or cancels.

The state of a repository holds all its transactions and every store that was ever made.  A store is
known by its number, and whoever knows the number sees what is written to the store: what keeps
transactions apart is which numbers they get to know.

* `Directory` tells the number of the store of each name.
* `Handle` is a collection that a transaction has opened, with the number of its store.
* `Sequence` is the answer to a search, which may look into the stores only when it is drained.
-/

namespace TripleStore

/-- The numbers of stores by name. -/
abbrev Directory := Named Nat

/-- The collection of a name in a list of stores. -/
def Directory.find (d : Directory) (stores : List Graph) (name : Iri) : Option Graph :=
  (d.lookup name).map fun store => stores.getD store .empty

/-- The directory without some names and with others. -/
def Directory.amended (d : Directory) (deleted : List Iri) (staged : Directory) : Directory :=
  staged ++ d.filter fun p => !deleted.contains p.1 && (staged.lookup p.1).isNone

/-- A transaction for reading: what was published when it began. -/
structure Reader where
  directory : Directory := []
  closed : Bool := false
  deriving DecidableEq, Repr

instance : Inhabited Reader := ⟨{ closed := true }⟩

/-- How far a transaction for writing has come. -/
inductive Phase
  /-- It takes calls. -/
  | working
  /-- It has published its stores and tells the backing; calls on it wait. -/
  | committing
  /-- It is over. -/
  | ended
  deriving DecidableEq, Repr

/-- A transaction for writing. -/
structure Writer where
  patience : Patience
  /-- Why calls on this writer no longer wait for locks. -/
  interruption : Option Error := none
  phase : Phase := .working
  /-- The names that this writer has locked. -/
  held : List Iri := []
  /-- The store of each collection that it opened. -/
  staged : Directory := []
  /-- The names that it deleted. -/
  deleted : List Iri := []
  deriving DecidableEq, Repr

instance : Inhabited Writer := ⟨{ patience := .unlimited, phase := .ended }⟩

/-- The state of a repository. -/
structure Repository where
  /-- All stores that were ever made, by number. -/
  stores : List Graph := []
  published : Directory := []
  closed : Bool := false
  /-- The names whose locks are taken. -/
  locked : List Iri := []
  readers : List Reader := []
  writers : List Writer := []
  deriving DecidableEq, Repr, Inhabited

/-- What a repository shares with others: its backing, the supply of labels and the journal. -/
structure Host where
  backing : Backing := .memory
  supply : Supply := {}
  journal : List Record := []
  deriving DecidableEq, Repr, Inhabited

/-- A repository and what it shares. -/
structure World where
  repository : Repository
  host : Host
  deriving DecidableEq, Repr, Inhabited

/-- Why an action does not come to its end. -/
inductive Halt
  /-- It fails. -/
  | failed (e : Error)
  /-- It has to wait for another call, and may be tried again. -/
  | waiting
  deriving DecidableEq, Repr

/-- An action on a repository. -/
abbrev Action := EStateM Halt World

/-- Fails. -/
def fail {α : Type} (e : Error) : Action α := throw (.failed e)

/-! ### What transactions give out -/

/-- A collection that was opened for reading. -/
structure ReadHandle where
  reader : Nat
  name : Iri
  store : Nat
  deriving DecidableEq, Repr

/-- A collection that was opened for writing. -/
structure WriteHandle where
  writer : Nat
  name : Iri
  store : Nat
  deriving DecidableEq, Repr

/-- A collection that a transaction has opened. -/
inductive Handle
  | reading (h : ReadHandle)
  | writing (h : WriteHandle)
  deriving DecidableEq, Repr

/-- The name of the collection. -/
def Handle.name : Handle → Iri
  | .reading h => h.name
  | .writing h => h.name

/-- The number of its store. -/
def Handle.store : Handle → Nat
  | .reading h => h.store
  | .writing h => h.store

/-- The statements of a collection that match a pattern, each in the graph of its name. -/
def matchIn (name : Iri) (g : Graph) (p : Pattern) : List Draft :=
  if agrees p.context (some (.iri name)) then (g.matching p).map (·.inGraph (.iri name)) else []

/-- The statements that a search found. -/
inductive Sequence
  /-- They were found at once. -/
  | found (statements : List Draft)
  /-- They are found whenever the sequence is drained. -/
  | search (directory : Directory) (pattern : Pattern)
  deriving DecidableEq, Repr

/-- The statements of one collection that match a pattern. -/
def Directory.matching (d : Directory) (stores : List Graph) (p : Pattern) (name : Iri) :
    List Draft :=
  matchIn name ((d.find stores name).getD .empty) p

/-- The statements of a sequence, when it is drained while others are at work: a search looks into
the collections one after the other, and `stores` are the stores as it comes to a name. -/
def Sequence.drainAlong (stores : Iri → List Graph) : Sequence → List Draft
  | .found statements => statements
  | .search d p => d.names.flatMap fun name => d.matching (stores name) p name

/-- The statements of a sequence. -/
def Sequence.drain (stores : List Graph) (s : Sequence) : List Draft :=
  s.drainAlong fun _ => stores

namespace Repository

/-- The version of the program. -/
def version : Text := "0.1.0"

/-! ### The state -/

/-- A repository that publishes some collections, each in a store of its own. -/
def holding (c : Collections) : Repository :=
  { stores := c.map Prod.snd, published := c.numbered 0 }

/-- The store of a number. -/
def store (s : Repository) (i : Nat) : Graph := s.stores.getD i .empty

/-- The reader of a number. -/
def reader (s : Repository) (id : Nat) : Reader := s.readers.getD id default

/-- The writer of a number. -/
def writer (s : Repository) (id : Nat) : Writer := s.writers.getD id default

/-- The published collections. -/
def contents (s : Repository) : Iri → Option Graph := s.published.find s.stores

/-- Sets what is in a store. -/
def putStore (i : Nat) (g : Graph) (s : Repository) : Repository :=
  { s with stores := s.stores.set i g }

/-- A repository with one more reader. -/
def addReader (r : Reader) (s : Repository) : Repository := { s with readers := s.readers ++ [r] }

/-- A repository with one more writer. -/
def addWriter (w : Writer) (s : Repository) : Repository := { s with writers := s.writers ++ [w] }

/-- Sets the state of a reader. -/
def putReader (id : Nat) (r : Reader) (s : Repository) : Repository :=
  { s with readers := s.readers.set id r }

/-- Changes the state of a writer. -/
def revise (id : Nat) (f : Writer → Writer) (s : Repository) : Repository :=
  { s with writers := s.writers.set id (f (s.writer id)) }

/-! ### Actions -/

/-- Changes the repository. -/
def change (f : Repository → Repository) : Action Unit :=
  modify fun w => { w with repository := f w.repository }

/-- Writes records into the journal. -/
def log (records : List Record) : Action Unit :=
  modify fun w => { w with host := { w.host with journal := w.host.journal ++ records } }

/-- A reader that is not closed. -/
def openReader (id : Nat) : Action Reader := do
  let r := (← get).repository.reader id
  if r.closed then fail .transactionClosed else return r

/-- A writer that takes calls. -/
def openWriter (id : Nat) : Action Writer := do
  let w := (← get).repository.writer id
  match w.phase with
  | .working => return w
  | .committing => throw .waiting
  | .ended => fail .transactionClosed

/-- Fails if the caller waits no longer. -/
def heed (patience : Patience) : Action Unit :=
  match patience.exhausted? with
  | some e => fail e
  | none => return ()

/-- The published collections of a repository that is not closed. -/
def snapshot : Action Directory := do
  let s := (← get).repository
  if s.closed then fail .storeClosed else return s.published

end Repository

end TripleStore
