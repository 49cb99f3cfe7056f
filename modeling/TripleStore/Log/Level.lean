import TripleStore.Text.Letters
import TripleStore.Text.Numeral

/-!
# Levels of importance

Levels are integers of 64 bits.  The four named ones lie four apart, and a level in between is shown
by its distance from the name below it.  A level is read as a name in any letter case, with an
optional distance from it.
-/

namespace TripleStore

namespace Level

/-- For finding errors. -/
def debug : Int := -4
/-- For information. -/
def info : Int := 0
/-- For what may be wrong. -/
def warn : Int := 4
/-- For what is wrong. -/
def failure : Int := 8

/-- A name and the distance from it. -/
def offset (name : Text) (distance : Int) : Text :=
  if distance = 0 then name
  else if 0 < distance then name ++ "+" ++ Text.ofInt distance
  else name ++ Text.ofInt distance

/-- The name of a level. -/
def name (level : Int) : Text :=
  if level < info then offset "DEBUG" (level - debug)
  else if level < warn then offset "INFO" level
  else if level < failure then offset "WARN" (level - warn)
  else offset "ERROR" (level - failure)

/-- The named levels. -/
def named : List (Text × Int) :=
  [("DEBUG", debug), ("INFO", info), ("WARN", warn), ("ERROR", failure)]

/-- The distance after a name; the sum with the level stays within 64 bits by going round. -/
def shift? (level : Int) (distance : Text) : Option Int :=
  if distance.isEmpty then some level
  else match readDecimal distance with
    | .ok n => some (Int.bmod (level + n) 0x10000000000000000)
    | .error _ => none

/-- The level that a text names. -/
def ofText? (t : Text) : Option Int :=
  let isSign (b : UInt8) : Bool := b == Ascii.plus || b == Ascii.minus
  (named.lookup (raised (t.takeWhile (!isSign ·)))).bind fun level =>
    shift? level (t.dropWhile (!isSign ·))

end Level

end TripleStore
