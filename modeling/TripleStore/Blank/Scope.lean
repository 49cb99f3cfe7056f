import TripleStore.Blank.Supply

/-!
# Scopes of blank node labels

Within one scope a label always means the same node; in different scopes it means different ones.
A label gets its node on first use, from the supply.
-/

namespace TripleStore

/-- The labels seen so far, each with the label of its node. -/
structure Scope where
  known : List (Text × Text) := []
  deriving DecidableEq, Repr, Inhabited

namespace Scope

/-- The node of a label, if the label has been seen. -/
def find? (scope : Scope) (label : Text) : Option Text := scope.known.lookup label

/-- The node of a label, drawn from the supply on first use. -/
def resolve (scope : Scope) (supply : Supply) (label : Text) : Text × Scope × Supply :=
  match scope.find? label with
  | some node => (node, scope, supply)
  | none =>
    let (node, supply) := supply.drawLabel label
    (node, ⟨(label, node) :: scope.known⟩, supply)

/-- The number of labels seen. -/
def size (scope : Scope) : Nat := scope.known.length

end Scope

end TripleStore
