import TripleStore.Database.Basic

/-!
# Storage that may fail

A `Medium` is a database whose calls may be told to fail: the n-th call of one sort fails and does
nothing, and later calls work again.
-/

namespace TripleStore

/-- The sorts of calls on a medium. -/
inductive Call
  | begin
  | get
  | set
  | delete
  | scan
  | commit
  | value
  deriving DecidableEq, Repr

/-- A call that is told to fail: the `countdown`-th from now of its sort. -/
structure Fault where
  call : Call
  countdown : Nat
  deriving DecidableEq, Repr

/-- A database and a call that is told to fail. -/
structure Medium where
  database : Database
  fault : Option Fault := none
  deriving DecidableEq, Repr, Inhabited

namespace Medium

/-- Makes a call: whether it fails, and the medium afterwards. -/
def fails (m : Medium) (call : Call) : Bool × Medium :=
  match m.fault with
  | none => (false, m)
  | some f =>
    if f.call = call then
      if f.countdown ≤ 1 then (f.countdown = 1, { m with fault := none })
      else (false, { m with fault := some { f with countdown := f.countdown - 1 } })
    else (false, m)

end Medium

end TripleStore
