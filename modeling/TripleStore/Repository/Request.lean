import TripleStore.Repository.Collection
import TripleStore.Repository.Reader
import TripleStore.Repository.Whole

/-!
# Requests

The calls on a repository, its transactions and what they gave out, as far as such a call is done at
once.  The calls that lock a collection or end a writer are done in several steps and come with the
machine.

* `Request.act` is what a request does.
* `Edit.change` is the change that an edit made, read off the answer to it.
-/

namespace TripleStore

/-- What can be asked about an open collection. -/
inductive Inquiry
  | subjects
  | statementsFor (n : Option Node)
  | size
  | search (p : Pattern)
  deriving DecidableEq, Repr

/-- What can be done to a collection that is open for writing. -/
inductive Edit
  | add (d : Draft)
  | remove (d : Draft)
  | removeSubject (n : Option Node)
  | newEntity
  | merge (source : Graph)
  deriving DecidableEq, Repr

/-- A call that is done at once. -/
inductive Request
  | read (patience : Patience)
  | write (patience : Patience)
  | close
  /-- The caller of a writer gives up. -/
  | giveUp (writer : Nat)
  /-- The limited time of a writer's caller runs out. -/
  | runOut (writer : Nat)
  | readerCollections (reader : Nat)
  | readerCollection (reader : Nat) (name : Iri)
  | readerMatch (reader : Nat) (p : Pattern)
  | cancelReader (reader : Nat)
  | writerCollections (writer : Nat)
  | writerMatch (writer : Nat) (p : Pattern)
  | inquire (h : Handle) (q : Inquiry)
  | edit (h : WriteHandle) (e : Edit)
  | drain (s : Sequence)
  deriving DecidableEq, Repr

/-- What a request comes to. -/
inductive Answer
  | done
  /-- The number of a transaction. -/
  | transaction (id : Nat)
  | names (l : List Iri)
  | handle (h : Handle)
  | sequence (s : Sequence)
  | nodes (l : List (Option Node))
  | pairs (l : Option (List Pair))
  | count (n : Nat)
  | statements (l : List Draft)
  /-- The label of a new node. -/
  | label (l : Text)
  /-- The labels that the blank nodes of a source got. -/
  | renaming (r : Renaming)
  deriving DecidableEq, Repr

namespace Answer

/-- The handle that an answer gives out. -/
def handle? : Answer → Option Handle
  | .handle h => some h
  | _ => none

/-- The sequence that an answer gives out. -/
def sequence? : Answer → Option Sequence
  | .sequence s => some s
  | _ => none

end Answer

/-- Asks about a collection. -/
def Inquiry.act (h : Handle) : Inquiry → Action Answer
  | .subjects => return .nodes (← Repository.subjects h)
  | .statementsFor n => return .pairs (← Repository.statementsFor h n)
  | .size => return .count (← Repository.size h)
  | .search p => return .sequence (← Repository.handleMatch h p)

/-- Makes an edit. -/
def Edit.act (h : WriteHandle) : Edit → Action Answer
  | .add d => do Repository.addStatement h d; return .done
  | .remove d => do Repository.removeStatement h d; return .done
  | .removeSubject n => do Repository.removeSubject h n; return .done
  | .newEntity => return .label (← Repository.newEntity h)
  | .merge source => return .renaming (← Repository.mergeGraph h source)

/-- The change that an edit made, with the labels that its answer tells. -/
def Edit.change : Edit → Answer → Option Change
  | .add d, .done => some (.add d.triple)
  | .remove d, .done => some (.remove d.triple)
  | .removeSubject n, .done => some (.removeNode n)
  | .newEntity, .label l => some (.addNode (some (.blank l)))
  | .merge source, .renaming r => some (.embed source r)
  | _, _ => none

/-- Does what a request asks for. -/
def Request.act : Request → Action Answer
  | .read patience => return .transaction (← Repository.read patience)
  | .write patience => return .transaction (← Repository.write patience)
  | .close => do Repository.close; return .done
  | .giveUp id => do Repository.giveUp id; return .done
  | .runOut id => do Repository.runOut id; return .done
  | .readerCollections id => return .names (← Repository.readerCollections id)
  | .readerCollection id name => return .handle (.reading (← Repository.readerCollection id name))
  | .readerMatch id p => return .sequence (← Repository.readerMatch id p)
  | .cancelReader id => do Repository.cancelReader id; return .done
  | .writerCollections id => return .names (← Repository.writerCollections id)
  | .writerMatch id p => return .sequence (← Repository.writerMatch id p)
  | .inquire h q => q.act h
  | .edit h e => e.act h
  | .drain s => return .statements (s.drain (← get).repository.stores)

end TripleStore
