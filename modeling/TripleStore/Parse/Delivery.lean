import TripleStore.Blank.Scope
import TripleStore.Parse.Error

/-!
# Deliveries

A reader delivers statements in blocks, in the order of the text, until the text ends or an error
is met.  A `Delivery` records the blocks and the state of the label supply behind each, so that a
receiver who stops early leaves the supply as it was when the last block was delivered.
-/

namespace TripleStore

/-- What a reader delivers, step by step. -/
inductive Delivery
  | finish (supply : Supply)
  | failed (e : ReadError) (supply : Supply)
  | block (statements : List Statement) (supply : Supply) (later : Delivery)
  deriving DecidableEq, Repr

namespace Delivery

/-- What a receiver has got at the end: the statements, the error if there was one, and the
supply. -/
structure Receipt where
  statements : List Statement
  error : Option ReadError
  supply : Supply
  deriving DecidableEq, Repr

/-- Receives everything. -/
def receive : Delivery → Receipt
  | .finish supply => ⟨[], none, supply⟩
  | .failed e supply => ⟨[], some e, supply⟩
  | .block statements _ later =>
    let r := later.receive
    { r with statements := statements ++ r.statements }

/-- Receives `count` statements and then stops; a delivery of fewer is received whole. -/
def receiveUpTo : (count : Nat) → Delivery → Receipt
  | _, .finish supply => ⟨[], none, supply⟩
  | _, .failed e supply => ⟨[], some e, supply⟩
  | count, .block statements supply later =>
    if count ≤ statements.length then ⟨statements.take count, none, supply⟩
    else
      let r := later.receiveUpTo (count - statements.length)
      { r with statements := statements ++ r.statements }

/-- Receives everything, or `count` statements if a positive count is asked for. -/
def receiveLimited (limit : Nat) (d : Delivery) : Receipt :=
  if limit = 0 then d.receive else d.receiveUpTo limit

/-- Receives all statements or none: an error makes the statements before it void. -/
def collect (d : Delivery) : Except ReadError (List Statement) × Supply :=
  let r := d.receive
  match r.error with
  | some e => (.error e, r.supply)
  | none => (.ok r.statements, r.supply)

end Delivery

end TripleStore
