import TripleStore.Repository.Basic

/-!
# Reading transactions
-/

namespace TripleStore.Repository

/-- Begins a transaction for reading: its number. -/
def read (patience : Patience) : Action Nat := do
  heed patience
  let directory ← snapshot
  let id := (← get).repository.readers.length
  change (addReader { directory })
  return id

/-- The names of the collections that a reader sees. -/
def readerCollections (id : Nat) : Action (List Iri) := do
  return (← openReader id).directory.names

/-- Opens a collection for reading. -/
def readerCollection (id : Nat) (name : Iri) : Action ReadHandle := do
  match (← openReader id).directory.lookup name with
  | some store => return ⟨id, name, store⟩
  | none => fail (.collectionNotFound name)

/-- The statements that a reader sees and that match a pattern. -/
def readerMatch (id : Nat) (p : Pattern) : Action Sequence := do
  return .search (← openReader id).directory p

/-- Ends a transaction for reading. -/
def cancelReader (id : Nat) : Action Unit := do
  let _ ← openReader id
  change (putReader id { closed := true })

end TripleStore.Repository
