import TripleStore.Database.Table
import TripleStore.Error

/-!
# A database of keys and values

Transactions see the database as it was when they began, and their own writes.  A commit applies all
writes at once.  It fails if a key that the transaction read has been written by another transaction
since it began; transactions that only write do not conflict.

* `Database` holds the values and when each key was last written.
* `Transaction` holds the values at its beginning, its writes and the keys it read.
-/

namespace TripleStore

/-- Keys and values. -/
abbrev Entries := List (Text × Text)

namespace Entries

/-- The entries with a key set to a value. -/
def put (e : Entries) (key value : Text) : Entries := (key, value) :: e.filter (·.1 ≠ key)

/-- The entries without a key. -/
def erase (e : Entries) (key : Text) : Entries := e.filter (·.1 ≠ key)

/-- The entries after a write; a write without a value erases. -/
def apply (e : Entries) (write : Text × Option Text) : Entries :=
  match write.2 with
  | some value => e.put write.1 value
  | none => e.erase write.1

/-- The entries whose keys start with a text, in order of keys. -/
def startingWith (e : Entries) (start : Text) : Entries :=
  (e.filter fun p => start.isPrefixOf p.1).mergeSort fun p q => Text.le p.1 q.1

end Entries

/-- A database. -/
structure Database where
  entries : Entries := []
  /-- When each key was last written. -/
  written : List (Text × Nat) := []
  /-- The number of commits. -/
  clock : Nat := 0
  /-- The longest value it takes, if there is a limit. -/
  valueLimit : Option Nat := none
  deriving DecidableEq, Repr, Inhabited

/-- A transaction. -/
structure Transaction where
  writable : Bool
  began : Nat
  snapshot : Entries
  /-- The writes, the latest first. -/
  writes : List (Text × Option Text) := []
  reads : List Text := []
  ended : Bool := false
  deriving DecidableEq, Repr, Inhabited

/-- A database that keeps nothing on disk takes values of up to 2²⁰ bytes. -/
def Database.inMemory : Database := { valueLimit := some 0x100000 }

/-- Begins a transaction. -/
def Database.begin (db : Database) (writable : Bool) : Transaction :=
  { writable, began := db.clock, snapshot := db.entries }

namespace Transaction

/-- The longest key. -/
def keyLimit : Nat := 65000

/-- How keys begin that belong to the database itself. -/
def reserved : Text := "!badger!"

/-- The entries as the transaction sees them. -/
def view (tx : Transaction) : Entries := tx.writes.reverse.foldl Entries.apply tx.snapshot

/-- Notes that a key was read; transactions that cannot write need not know. -/
def noteRead (tx : Transaction) (key : Text) : Transaction :=
  if tx.writable then { tx with reads := key :: tx.reads } else tx

/-- The value of a key.  The transaction's own writes answer first and count as no reading. -/
def get (tx : Transaction) (key : Text) : Outcome Text × Transaction :=
  if tx.ended then (.error .discarded, tx)
  else match tx.writes.lookup key with
    | some (some value) => (.ok value, tx)
    | some none => (.error .keyNotFound, tx)
    | none =>
      match tx.snapshot.lookup key with
      | some value => (.ok value, tx.noteRead key)
      | none => (.error .keyNotFound, tx.noteRead key)

/-- Adds a write, if the transaction and the database admit it. -/
def write (db : Database) (tx : Transaction) (key : Text) (value : Option Text) :
    Outcome Transaction :=
  let size := (value.getD []).length
  let limit := db.valueLimit.getD size
  if ¬ tx.writable then .error .readOnly
  else if tx.ended then .error .discarded
  else if reserved.isPrefixOf key then .error .reservedKey
  else if keyLimit < key.length then
    .error (.oversize "Key" key.length keyLimit (key.take 1024))
  else if limit < size then .error (.oversize "Value" size limit ((value.getD []).take 1024))
  else .ok { tx with writes := (key, value) :: tx.writes }

/-- The entries whose keys start with a text, in order of keys, at most `limit` of them unless it is
0.  All of them count as read, and so does the text itself, whether it is a key or not. -/
def scan (tx : Transaction) (start : Text) (limit : Nat) : Outcome Entries × Transaction :=
  if tx.ended then (.error .discarded, tx)
  else
    let found := tx.view.startingWith start
    let found := if limit = 0 then found else found.take limit
    (.ok found, found.foldl (fun tx p => tx.noteRead p.1) (tx.noteRead start))

/-- The transaction after its end. -/
def finish (tx : Transaction) : Transaction := { tx with ended := true }

/-- Whether a key that the transaction read was written since it began. -/
def conflicts (tx : Transaction) (db : Database) : Bool :=
  tx.reads.any fun key => match db.written.lookup key with
    | some time => tx.began < time
    | none => false

/-- Applies the writes of a transaction and ends it. -/
def commit (db : Database) (tx : Transaction) : Outcome Unit × Database × Transaction :=
  if tx.writes.isEmpty then (.ok (), db, tx.finish)
  else if tx.ended then (.error .commitDiscarded, db, tx)
  else if tx.conflicts db then (.error .conflict, db, tx.finish)
  else
    let time := db.clock + 1
    let keys := tx.writes.map Prod.fst
    (.ok (), { db with
      entries := tx.writes.reverse.foldl Entries.apply db.entries
      written := keys.map (fun k => (k, time)) ++ db.written.filter fun p => !keys.contains p.1
      clock := time }, tx.finish)

end Transaction

end TripleStore
