import TripleStore.Text.Hex

/-!
# Fresh labels

Blank nodes get fresh labels from a `Supply` of counters that only ever go up, modulo 2⁶⁴: one for
nodes without a label of their own, one for relabelled nodes, and one for entity identifiers.
A supply is threaded through everything that draws from it.
-/

namespace TripleStore

/-- The counters that fresh labels are drawn from. -/
structure Supply where
  anonymous : UInt64 := 0
  labels : UInt64 := 0
  entities : Nat := 0
  deriving DecidableEq, Repr, Inhabited

namespace Supply

/-- The next label for a node without a label of its own. -/
def drawAnonymous (s : Supply) : Text × Supply :=
  let n := s.anonymous + 1
  ("ANON" ++ Text.ofNat n.toNat, { s with anonymous := n })

/-- The next label that begins with `label`. -/
def drawLabel (s : Supply) (label : Text) : Text × Supply :=
  let n := s.labels + 1
  (label ++ "_" ++ Text.ofNat n.toNat, { s with labels := n })

/-- The 128 bits of the `n`-th identifier: its version nibble is 4 and its variant bits are 10. -/
def identifier (n : Nat) : Nat :=
  let version := 0xF0000000000000000000
  let variant := 0xC000000000000000
  let bits := n % 0x100000000000000000000000000000000
  bits - (bits &&& version) - (bits &&& variant) + 0x40000000000000000000 + 0x8000000000000000

/-- The next label for an entity. -/
def drawEntity (s : Supply) : Text × Supply :=
  let n := s.entities + 1
  ("entity_" ++ Hex.padded 32 (identifier n), { s with entities := n })

end Supply

end TripleStore
