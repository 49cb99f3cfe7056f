import TripleStore.Archive.Medium
import TripleStore.Graph.Match
import TripleStore.Key.Term
import TripleStore.Log.Record
import TripleStore.Patience

/-!
# The archive of collections

Collections are kept in four tables of a database: the texts of terms, the names of collections, the
statements and the registered nodes of each collection.

* `Archive.save` replaces what is kept of a collection, `Archive.delete` removes it.
* `Archive.load` reads all collections.

Each works in one transaction, so a failure leaves the database as it was.
-/

namespace TripleStore

namespace Archive

/-- A transaction at work on a medium. -/
structure Session where
  medium : Medium
  transaction : Transaction
  deriving DecidableEq, Repr

/-- A step of work on a medium. -/
abbrev Work := EStateM Error Session

/-- Makes a call, which may be told to fail. -/
def call (c : Call) : Work Unit := do
  let s ← get
  let (failed, medium) := s.medium.fails c
  set { s with medium }
  if failed then throw .injectedFault

/-- Names what is being done, should it fail. -/
def doing {α : Type} (what : Text) (w : Work α) : Work α := fun s =>
  match w s with
  | .ok a s => .ok a s
  | .error e s => .error (.within what e) s

/-- Sets a key of a table. -/
def setKey (table : Table) (key value : Text) : Work Unit := do
  call .set
  let s ← get
  match s.transaction.write s.medium.database (Table.fullKey table.code key) (some value) with
  | .ok transaction => set { s with transaction }
  | .error e => throw e

/-- Deletes a key of a table. -/
def deleteKey (table : Table) (key : Text) : Work Unit := do
  call .delete
  let s ← get
  match s.transaction.write s.medium.database (Table.fullKey table.code key) none with
  | .ok transaction => set { s with transaction }
  | .error e => throw e

/-- The value of a key of a table. -/
def getKey (table : Table) (key : Text) : Work Text := do
  call .get
  let s ← get
  let (answer, transaction) := s.transaction.get (Table.fullKey table.code key)
  set { s with transaction }
  match answer with
  | .ok value => return value
  | .error e => throw e

/-- The keys of a table that start with a text, without the byte of the table, and their values. -/
def scanKeys (table : Table) (start : Text) : Work Entries := do
  call .scan
  let s ← get
  let (answer, transaction) := s.transaction.scan (Table.fullKey table.code start) 0
  set { s with transaction }
  match answer with
  | .error e => throw e
  | .ok found =>
    for _ in found do call .value
    return found.map fun p => (p.1.drop 1, p.2)

/-- Commits the transaction at work. -/
def commit : Work Unit := do
  call .commit
  let s ← get
  let (answer, database, transaction) := s.transaction.commit s.medium.database
  set { s with medium := { s.medium with database }, transaction }
  match answer with
  | .ok _ => return ()
  | .error e => throw e

/-- Stops if the caller waits no longer. -/
def heed (patience : Patience) : Work Unit :=
  match patience.exhausted? with
  | some e => throw e
  | none => return ()

/-- Does work in a transaction of its own, which ends with it. -/
def inTransaction {α : Type} (writable : Bool) (w : Work α) (m : Medium) : Outcome α × Medium :=
  let (failed, m) := m.fails .begin
  if failed then (.error .injectedFault, m)
  else match w.run ⟨m, m.database.begin writable⟩ with
    | .ok a s => (.ok a, s.medium)
    | .error e s => (.error e, s.medium)

/-! ### Saving and deleting -/

/-- Keeps the text of a term: its key. -/
def putTerm (t : Option Term) : Work TermKey :=
  match encodeTerm t with
  | .error e => throw e
  | .ok (key, text) => do
    doing "failed to store term" (setKey .terms key.bytes text)
    return key

/-- Deletes what a table keeps of a collection. -/
def clearTable (table : Table) (collection : TermKey) : Work Unit := do
  for p in ← scanKeys table collection.bytes do
    doing ("failed to delete from " ++ table.name) (deleteKey table p.1)

/-- Deletes the statements and nodes of a collection. -/
def clear (collection : TermKey) : Work Unit := do
  clearTable .statements collection
  clearTable .subjects collection

/-- Keeps a pair of a subject. -/
def putPair (collection subject : TermKey) (pair : Pair) : Work Unit := do
  let predicate ← putTerm (some (.iri pair.predicate))
  let object ← putTerm pair.object
  doing "failed to store statement"
    (setKey .statements (statementKey collection subject predicate object) [])

/-- Keeps a node with its pairs. -/
def putSubject (collection : TermKey) (g : Graph) (n : Option Node) : Work Unit := do
  let subject ← putTerm (n.map Node.toTerm)
  doing "failed to store subject" (setKey .subjects (joinKeys [collection, subject]) [])
  for pair in (g.statementsFor n).getD [] do putPair collection subject pair

/-- Replaces what is kept of a collection by a graph. -/
def replace (patience : Patience) (name : Iri) (g : Graph) : Work Unit := do
  let collection ← putTerm (some (.iri name))
  clear collection
  doing "failed to store collection" (setKey .collections collection.bytes name)
  for n in g.subjects do
    heed patience
    putSubject collection g n
  doing ("failed to commit collection " ++ renderIri name) commit

/-- Removes what is kept of a collection; the texts of its terms stay. -/
def discard (name : Iri) : Work Unit := do
  let collection := TermKey.ofTerm (.iri name)
  clear collection
  doing "failed to delete collection" (deleteKey .collections collection.bytes)
  commit

/-! ### Loading -/

/-- The terms read so far. -/
abbrev Known := List (TermKey × Term)

/-- The term of a key, read once only. -/
def lookup (key : TermKey) (known : Known) : Work (Term × Known) :=
  match known.lookup key with
  | some t => return (t, known)
  | none => do
    let text ← fun s => match getKey .terms key.bytes s with
      | .error .keyNotFound s => .error (.absentTerm key.bytes) s
      | r => r
    match decodeTerm key text with
    | .ok t => return (t, (key, t) :: known)
    | .error e => throw e

/-- Registers the node of a subject key. -/
def loadSubject (acc : Graph × Known) (key : Text) : Work (Graph × Known) := do
  let (t, known) ← lookup (.ofBytes (key.drop TermKey.width)) acc.2
  match t.toNode? with
  | some n => return (acc.1.addNode (some n), known)
  | none => throw (.subjectNotNode t)

/-- Adds the triple of a statement key. -/
def loadStatement (acc : Graph × Known) (key : Text) : Work (Graph × Known) := do
  match splitStatementKey key with
  | .error e => throw e
  | .ok (_, s, p, o) =>
    let (subject, known) ← lookup s acc.2
    let (predicate, known) ← lookup p known
    let (object, known) ← lookup o known
    match subject.toNode?, predicate.toIri? with
    | none, _ => throw (.subjectNotNode subject)
    | _, none => throw (.predicateNotIri predicate)
    | some n, some i => return (acc.1.add ⟨some n, i, some object⟩, known)

/-- Reads the collection of a key. -/
def loadCollection (key : Text) (known : Known) : Work (Graph × Known) := do
  let subjects ← scanKeys .subjects key
  let acc ← subjects.foldlM (fun acc p => loadSubject acc p.1) (Graph.empty, known)
  let statements ← scanKeys .statements key
  statements.foldlM (fun acc p => loadStatement acc p.1) acc

/-- The collections with one more; a later one of the same name takes the place of an earlier. -/
def record (collections : List (Iri × Graph)) (name : Iri) (g : Graph) : List (Iri × Graph) :=
  (name, g) :: collections.filter (·.1 ≠ name)

/-- Reads the collections of a list of entries. -/
def loadEntries (patience : Patience) (entries : Entries) : Work (List (Iri × Graph)) := do
  let (collections, _) ← entries.foldlM (fun (acc : List (Iri × Graph) × Known) p => do
    heed patience
    let what := "failed to load collection " ++ renderIri p.2
    let (g, known) ← doing what (loadCollection p.1 acc.2)
    return (record acc.1 p.2 g, known)) ([], [])
  return collections

/-! ### The archive -/

/-- The name of this sort of storage. -/
def name : Text := "badger"

/-- The record of a collection that was saved. -/
def saved (name : Iri) (g : Graph) : Record :=
  ⟨Level.debug, "saved collection",
    [("collection", name), ("statements", Text.ofNat g.size)]⟩

/-- Saves a collection in the place of what was kept of it. -/
def save (patience : Patience) (name : Iri) (g : Graph) (m : Medium) : Outcome Unit × Medium :=
  inTransaction true (replace patience name g) m

/-- Deletes a collection. -/
def delete (name : Iri) (m : Medium) : Outcome Unit × Medium := inTransaction true (discard name) m

/-- Loads all collections. -/
def load (patience : Patience) (m : Medium) : Outcome (List (Iri × Graph)) × Medium :=
  inTransaction false (do loadEntries patience (← scanKeys .collections [])) m

end Archive

end TripleStore
