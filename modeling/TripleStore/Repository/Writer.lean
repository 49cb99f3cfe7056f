import TripleStore.Repository.Basic

/-!
# Writing transactions

A writer locks a collection when it first opens or deletes it.  Where another writer has locked it,
the call waits until the lock is free, or its caller waits no longer, or the transaction is
committed or cancelled.

A commit publishes the stores and deletions of a writer at once and then tells the backing; what the
backing fails to keep is reported, but stays published.

The longer calls are made of short ones, between which other calls may come: `holds`, `take` and
`keep` lock a collection, `withdraw` gives that up, `stage` and `unstage` open and delete it;
`interrupt`, `publish`, `tell` and `finish` make up a commit.
-/

namespace TripleStore

namespace Writer

/-- The writer when its calls no longer wait for locks; the first reason counts. -/
def interrupted (e : Error) (w : Writer) : Writer :=
  { w with interruption := w.interruption.or (some e) }

/-- The writer when its caller waits no longer; a caller loses patience only once. -/
def abandoned (e : Error) (patience : Patience) (w : Writer) : Writer :=
  if w.patience.exhausted?.isSome then w else { w.interrupted e with patience }

/-- The writer when its limited time has run out. -/
def timedOut (w : Writer) : Writer :=
  if w.patience = .limited then w.abandoned .deadlineExceeded .expired else w

/-- The writer with one more lock. -/
def keeping (name : Iri) (w : Writer) : Writer := { w with held := name :: w.held }

/-- The writer with a collection opened. -/
def opening (name : Iri) (store : Nat) (w : Writer) : Writer :=
  { w with staged := w.staged.put name store, deleted := w.deleted.filter (· ≠ name) }

/-- The writer with a collection deleted. -/
def deleting (name : Iri) (w : Writer) : Writer :=
  { w with staged := w.staged.erase name, deleted := insertNew name w.deleted }

end Writer

namespace Repository

/-- Begins a transaction for writing: its number. -/
def write (patience : Patience) : Action Nat := do
  heed patience
  let _ ← snapshot
  let id := (← get).repository.writers.length
  change (addWriter { patience })
  return id

/-- The caller of a transaction gives up. -/
def giveUp (id : Nat) : Action Unit := change (revise id (Writer.abandoned .cancelled .cancelled))

/-- The limited time of a caller runs out. -/
def runOut (id : Nat) : Action Unit := change (revise id Writer.timedOut)

/-! ### Locks -/

/-- Takes the lock of a name. -/
def lock (name : Iri) (s : Repository) : Repository := { s with locked := name :: s.locked }

/-- Makes the locks of some names free. -/
def unlock (names : List Iri) (s : Repository) : Repository :=
  { s with locked := s.locked.filter fun name => !names.contains name }

/-- Whether a writer holds the lock of a name already. -/
def holds (id : Nat) (name : Iri) : Action Bool := do
  return (← openWriter id).held.contains name

/-- Takes the lock of a name if it is free. -/
def take (name : Iri) : Action Bool := do
  if (← get).repository.locked.contains name then return false
  else
    change (lock name)
    return true

/-- Notes that a writer holds a lock that was taken for it; if it has ended, the lock is free
again. -/
def keep (id : Nat) (name : Iri) : Action Unit := do
  let w := (← get).repository.writer id
  match w.phase with
  | .working => change (revise id (Writer.keeping name))
  | .committing => throw .waiting
  | .ended =>
    change (unlock [name])
    fail .transactionClosed

/-- Why a call of an interrupted writer fails to lock a collection: its caller waits no longer, or
else the transaction was committed or cancelled. -/
def withdrawal (w : Writer) (name : Iri) (e : Error) : Error :=
  if w.patience.exhausted?.isSome then
    .within ("failed to lock collection " ++ renderIri name) e
  else .transactionClosed

/-- Fails to lock a collection once the writer is interrupted; `taken` tells whether the lock was
taken already. -/
def withdraw {α : Type} (id : Nat) (name : Iri) (taken : Bool) : Action α := do
  let w := (← get).repository.writer id
  match w.interruption with
  | none => throw .waiting
  | some e =>
    if taken then change (unlock [name])
    fail (withdrawal w name e)

/-- Locks a collection for a writer. -/
def acquire (id : Nat) (name : Iri) : Action Unit := do
  unless ← holds id name do
    unless ← take name do
      runOut id
      withdraw id name false
    keep id name

/-! ### Collections -/

/-- The collections as a writer sees them. -/
def view (w : Writer) : Action Directory := do
  return (← snapshot).amended w.deleted w.staged

/-- The names of the collections that a writer sees. -/
def writerCollections (id : Nat) : Action (List Iri) := do
  return (← view (← openWriter id)).names

/-- Makes copies of the stores of a writer. -/
def copying (w : Writer) (s : Repository) : Repository :=
  { s with stores := s.stores ++ w.staged.map fun p => s.store p.2 }

/-- The statements that a writer sees and that match a pattern.  Its own stores go on changing, so
that the search goes over copies of them. -/
def writerMatch (id : Nat) (p : Pattern) : Action Sequence := do
  let w ← openWriter id
  let published ← snapshot
  let first := (← get).repository.stores.length
  change (copying w)
  return .search (published.amended w.deleted (w.staged.numbered first)) p

/-- What the store of a collection starts from: the latest that was published, unless the writer
itself has deleted it. -/
def original (s : Repository) (w : Writer) (name : Iri) : Graph :=
  if w.deleted.contains name then .empty else (s.contents name).getD .empty

/-- The handle of a collection that a writer has opened already; none if the collection has to be
locked first. -/
def reopen (id : Nat) (name : Iri) : Action (Option WriteHandle) := do
  match (← openWriter id).staged.lookup name with
  | some store => return some ⟨id, name, store⟩
  | none =>
    match (Term.iri name).violation? with
    | some v => fail (.invalid v)
    | none => return none

/-- Makes the store of a collection for a writer. -/
def opening (id : Nat) (name : Iri) (s : Repository) : Repository :=
  { s.revise id (Writer.opening name s.stores.length) with
    stores := s.stores ++ [s.original (s.writer id) name] }

/-- Opens a collection that is locked, or creates it. -/
def stage (id : Nat) (name : Iri) : Action WriteHandle := do
  match (← openWriter id).staged.lookup name with
  | some store => return ⟨id, name, store⟩
  | none =>
    let store := (← get).repository.stores.length
    change (opening id name)
    return ⟨id, name, store⟩

/-- Deletes a collection that is locked. -/
def unstage (id : Nat) (name : Iri) : Action Unit := do
  let _ ← openWriter id
  change (revise id (Writer.deleting name))

/-- Opens a collection for writing, or creates it. -/
def writerCollection (id : Nat) (name : Iri) : Action WriteHandle := do
  match ← reopen id name with
  | some h => return h
  | none =>
    acquire id name
    stage id name

/-- Deletes a collection. -/
def deleteCollection (id : Nat) (name : Iri) : Action Unit := do
  acquire id name
  unstage id name

/-! ### The end of a transaction -/

/-- Ends the waiting of a writer's calls. -/
def interrupt (id : Nat) : Action Unit := change (revise id (Writer.interrupted .cancelled))

/-- Ends a writer and unlocks its collections. -/
def concluding (id : Nat) (s : Repository) : Repository :=
  (s.revise id fun w => { w with phase := .ended, held := [] }).unlock (s.writer id).held

/-- Ends a writer that leaves nothing staged and nothing deleted. -/
def discarding (id : Nat) (s : Repository) : Repository :=
  (s.revise id fun w => { w with staged := [], deleted := [] }).concluding id

/-- Publishes the stores and deletions of a writer. -/
def publishing (id : Nat) (s : Repository) : Repository :=
  let w := s.writer id
  { s.revise id fun w => { w with phase := .committing } with
    published := s.published.amended w.deleted w.staged }

/-- The record of a commit. -/
def committed (w : Writer) : Record :=
  ⟨Level.debug, "committed write transaction",
    [("written", Text.ofNat w.staged.length), ("deleted", Text.ofNat w.deleted.length)]⟩

/-- Something that the backing is told after a commit. -/
inductive Telling
  | delete (name : Iri)
  | save (name : Iri)
  deriving DecidableEq, Repr

/-- What the backing is told about a writer: its deletions and its stores, each in the order of
names. -/
def tellings (w : Writer) : List Telling :=
  (Text.sort w.deleted).map .delete ++ w.staged.names.map .save

/-- Publishes the stores and deletions of a writer: what is left to tell the backing. -/
def publish (id : Nat) : Action (List Telling) := do
  let w ← openWriter id
  if (← get).repository.closed then
    change (concluding id)
    fail .storeClosed
  else
    change (publishing id)
    log [committed w]
    return if (← get).host.backing.isPresent then tellings w else []

/-- The record of something that the backing failed to keep. -/
def unkept (what : Text) (name : Iri) (e : Error) : Record :=
  ⟨Level.warn, what, [("collection", name), ("error", e.message)]⟩

/-- Tells the backing something; what it fails with is logged and kept. -/
def inform (what : Text) (name : Iri) (records : List Record)
    (f : Backing → Outcome Unit × Backing) : Action (List Error) := do
  let w ← get
  let (answer, backing) := f w.host.backing
  set { w with host := { w.host with backing } }
  match answer with
  | .ok _ =>
    log records
    return []
  | .error e =>
    log [unkept what name e]
    return [.within (what ++ " " ++ name) e]

/-- Tells the backing about a writer: what it failed with. -/
def tell (id : Nat) : Telling → Action (List Error)
  | .delete name => inform "failed to delete persisted collection" name [] (Backing.delete name)
  | .save name => do
    let world ← get
    let w := world.repository.writer id
    let g := (w.staged.find world.repository.stores name).getD .empty
    inform "failed to persist collection" name (world.host.backing.savedRecords name g)
      (Backing.save w.patience name g)

/-- Ends a writer that has published; what the backing failed with is reported. -/
def finish (id : Nat) (errors : List Error) : Action Unit := do
  change (concluding id)
  match Error.all errors with
  | some e => fail e
  | none => return ()

/-- Publishes the stores of a writer and ends it. -/
def commit (id : Nat) : Action Unit := do
  interrupt id
  let errors ← (← publish id).mapM (tell id)
  finish id errors.flatten

/-- Ends a writer that takes calls, without publishing anything. -/
def dismiss (id : Nat) : Action Unit := do
  let _ ← openWriter id
  change (discarding id)

/-- Ends a writer without publishing anything. -/
def cancelWriter (id : Nat) : Action Unit := do
  interrupt id
  dismiss id

end Repository

end TripleStore
