import TripleStore.Term.Render

/-!
# The order of terms

Listings are sorted by variant first and by canonical text second.
-/

namespace TripleStore

/-- The order of terms: by variant, then by canonical text. -/
def Term.le (a b : Term) : Bool :=
  a.kind.code < b.kind.code
    || (a.kind.code == b.kind.code && Text.le a.render b.render)

/-- The order of nodes is that of the terms they are. -/
def Node.le (a b : Node) : Bool := a.toTerm.le b.toTerm

end TripleStore
