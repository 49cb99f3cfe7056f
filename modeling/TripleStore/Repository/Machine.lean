import TripleStore.Repository.Request

/-!
# Calls at the same time

A repository serves many callers at once.  A call that locks a collection or ends a writer is done
in several steps, and between two of them any other call may do a step.

* `Visit` is a call that opens or deletes a collection of a writer.  One visit of a writer at a time
  asks for a lock; the lock is taken in one step and noted as held in a later one, and in between
  the writer may have ended.
* `Closing` is a call that commits or cancels a writer.
* `Machine` is a repository with the calls that are under way, what was given out, and the history
  of all answers.
* `Machine.step` is one move of one caller.  A caller can only use what was given out to it.  A move
  that has to wait does nothing.  Which call moves next is left open, and so is the order in which
  waiting calls get a free lock.
-/

namespace TripleStore

/-! ### Calls that lock a collection -/

/-- How far a call that locks a collection has come. -/
inductive Progress
  /-- Nothing has been done. -/
  | begun
  /-- It waits until no other call of the writer asks for a lock. -/
  | queued
  /-- The writer does not hold the lock, and the call has not tried to take it. -/
  | asking
  /-- The lock was taken by another. -/
  | waiting
  /-- The lock is taken, but not noted as held; `waited` if it was not free at once. -/
  | granted (waited : Bool)
  /-- The writer holds the lock. -/
  | entitled
  /-- The call is over; one that opens a collection gives out a handle. -/
  | ended (answer : Outcome (Option WriteHandle))
  deriving Repr

/-- Whether a call is the one of its writer that asks for a lock. -/
def Progress.asks : Progress → Bool
  | .asking | .waiting | .granted _ => true
  | _ => false

/-- Whether a call has taken a lock that is not noted as held. -/
def Progress.isGranted : Progress → Bool
  | .granted _ => true
  | _ => false

/-- A call that opens or deletes a collection. -/
structure Visit where
  writer : Nat
  name : Iri
  deletes : Bool
  progress : Progress := .begun
  deriving Repr

instance : Inhabited Visit := ⟨{ writer := 0, name := [], deletes := false,
                                 progress := .ended (.ok none) }⟩

namespace Visit

open Repository

/-- The next step of a call; `turn` tells whether it may ask for a lock. -/
def next (v : Visit) (turn : Bool) : Action Progress :=
  match v.progress with
  | .begun => do
    if v.deletes then return .queued
    match ← reopen v.writer v.name with
    | some h => return .ended (.ok (some h))
    | none => return .queued
  | .queued => do
    unless turn do throw .waiting
    if ← holds v.writer v.name then return .entitled else return .asking
  | .asking => do
    if ← take v.name then return .granted false else return .waiting
  | .waiting => do
    if ← take v.name then return .granted true else throw .waiting
  | .granted _ => do
    keep v.writer v.name
    return .entitled
  | .entitled => do
    if v.deletes then
      unstage v.writer v.name
      return .ended (.ok none)
    else return .ended (.ok (some (← stage v.writer v.name)))
  | .ended _ => throw .waiting

/-- A call that had to wait for a lock fails because its writer is interrupted. -/
def giveWay (v : Visit) : Action Progress :=
  match v.progress with
  | .waiting => withdraw v.writer v.name false
  | .granted true => withdraw v.writer v.name true
  | _ => throw .waiting

end Visit

/-! ### Calls that end a writer -/

/-- How far a call that ends a writer has come. -/
inductive Ending
  /-- Nothing has been done. -/
  | begun
  /-- Calls of the writer no longer wait for locks. -/
  | interrupting
  /-- The writer has published, and the backing is being told. -/
  | telling (rest : List Repository.Telling) (errors : List Error)
  /-- The call is over. -/
  | ended (answer : Outcome Unit)
  deriving Repr

/-- A call that ends a writer; it commits if it `publishes`. -/
structure Closing where
  writer : Nat
  publishes : Bool
  progress : Ending := .begun
  deriving Repr

instance : Inhabited Closing := ⟨{ writer := 0, publishes := false, progress := .ended (.ok ()) }⟩

namespace Closing

open Repository

/-- The next step of a call. -/
def next (c : Closing) : Action Ending :=
  match c.progress with
  | .begun => do
    interrupt c.writer
    return .interrupting
  | .interrupting => do
    if c.publishes then return .telling (← publish c.writer) []
    else
      dismiss c.writer
      return .ended (.ok ())
  | .telling (t :: rest) errors => do
    return .telling rest (errors ++ (← tell c.writer t))
  | .telling [] errors => do
    finish c.writer errors
    return .ended (.ok ())
  | .ended _ => throw .waiting

end Closing

/-! ### The machine -/

/-- Something that came out of a move. -/
inductive Event
  | answered (r : Request) (answer : Outcome Answer)
  | visited (v : Visit) (answer : Outcome (Option WriteHandle))
  /-- A writer has published. -/
  | published (writer : Nat)
  | closed (c : Closing) (answer : Outcome Unit)
  deriving Repr

/-- A repository with its callers. -/
structure Machine extends World where
  /-- The handles that were given out. -/
  handles : List Handle := []
  /-- The sequences that were given out. -/
  sequences : List Sequence := []
  visits : List Visit := []
  closings : List Closing := []
  /-- What has come out of all moves, in order. -/
  history : List Event := []
  deriving Repr

/-- A move of a caller. -/
inductive Move
  | ask (r : Request)
  /-- Begins a call that opens or deletes a collection. -/
  | visit (writer : Nat) (name : Iri) (deletes : Bool)
  /-- The next step of such a call. -/
  | advance (k : Nat)
  /-- Such a call waits no longer. -/
  | giveWay (k : Nat)
  /-- Begins a call that ends a writer. -/
  | close (writer : Nat) (publishes : Bool)
  /-- The next step of such a call. -/
  | proceed (k : Nat)
  deriving Repr

/-- Whether what a request is about was given out. -/
def Request.isFounded (handles : List Handle) (sequences : List Sequence) : Request → Bool
  | .inquire h _ => handles.contains h
  | .edit h _ => handles.contains (.writing h)
  | .drain s => sequences.contains s
  | _ => true

namespace Machine

/-- A machine whose repository publishes some collections. -/
def start (c : Collections) (host : Host) : Machine :=
  { repository := .holding c, host }

/-- The call of a number that locks a collection. -/
def visit (m : Machine) (k : Nat) : Visit := m.visits.getD k default

/-- The call of a number that ends a writer. -/
def closing (m : Machine) (k : Nat) : Closing := m.closings.getD k default

/-- Notes what came out of a move. -/
def note (m : Machine) (e : Event) : Machine := { m with history := m.history ++ [e] }

/-- Answers a request. -/
def answer (m : Machine) (r : Request) : Machine :=
  match r.act.run m.toWorld with
  | .ok a w =>
    { m with
      toWorld := w
      handles := a.handle?.toList ++ m.handles
      sequences := a.sequence?.toList ++ m.sequences }.note (.answered r (.ok a))
  | .error (.failed e) w => { m with toWorld := w }.note (.answered r (.error e))
  | .error .waiting _ => m

/-- Whether a call of a writer may ask for a lock. -/
def mayAsk (m : Machine) (id : Nat) : Bool :=
  !m.visits.any fun v => v.writer = id && v.progress.asks

/-- A call that locks a collection has come further. -/
def reached (m : Machine) (k : Nat) (p : Progress) : Machine :=
  let v := m.visit k
  let m := { m with visits := m.visits.set k { v with progress := p } }
  match p with
  | .ended (.ok h) =>
    { m with handles := (h.map Handle.writing).toList ++ m.handles }.note (.visited v (.ok h))
  | .ended (.error e) => m.note (.visited v (.error e))
  | _ => m

/-- Does a step of a call that locks a collection. -/
def moveVisit (m : Machine) (k : Nat) (step : Action Progress) : Machine :=
  match step.run m.toWorld with
  | .ok p w => { m with toWorld := w }.reached k p
  | .error (.failed e) w => { m with toWorld := w }.reached k (.ended (.error e))
  | .error .waiting _ => m

/-- A call that ends a writer has come further. -/
def settled (m : Machine) (k : Nat) (p : Ending) : Machine :=
  let c := m.closing k
  let m := { m with closings := m.closings.set k { c with progress := p } }
  match c.progress, p with
  | .interrupting, .telling _ _ => m.note (.published c.writer)
  | _, .ended answer => m.note (.closed c answer)
  | _, _ => m

/-- Does the next step of a call that ends a writer. -/
def proceed (m : Machine) (k : Nat) : Machine :=
  match (m.closing k).next.run m.toWorld with
  | .ok p w => { m with toWorld := w }.settled k p
  | .error (.failed e) w => { m with toWorld := w }.settled k (.ended (.error e))
  | .error .waiting _ => m

/-- Makes a move. -/
def step (m : Machine) : Move → Machine
  | .ask r => if r.isFounded m.handles m.sequences then m.answer r else m
  | .visit writer name deletes => { m with visits := m.visits ++ [{ writer, name, deletes }] }
  | .advance k => m.moveVisit k ((m.visit k).next (m.mayAsk (m.visit k).writer))
  | .giveWay k => m.moveVisit k (m.visit k).giveWay
  | .close writer publishes => { m with closings := m.closings ++ [{ writer, publishes }] }
  | .proceed k => m.proceed k

/-- Makes moves one after the other. -/
def run (m : Machine) (moves : List Move) : Machine := moves.foldl step m

end Machine

end TripleStore
