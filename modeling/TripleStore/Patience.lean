import TripleStore.Error

/-!
# The patience of callers

A caller may give up on a call, or leave it only limited time.  Calls look at the patience of their
caller where they would wait and between the steps of longer work.
-/

namespace TripleStore

/-- How long a caller waits. -/
inductive Patience
  /-- As long as it takes. -/
  | unlimited
  /-- A short time; it runs out when a call has to wait. -/
  | limited
  /-- No longer: the caller gave up. -/
  | cancelled
  /-- No longer: the time ran out. -/
  | expired
  deriving DecidableEq, Repr, Inhabited

namespace Patience

/-- Why the caller waits no longer. -/
def exhausted? : Patience → Option Error
  | .unlimited => none
  | .limited => none
  | .cancelled => some .cancelled
  | .expired => some .deadlineExceeded

end Patience

end TripleStore
