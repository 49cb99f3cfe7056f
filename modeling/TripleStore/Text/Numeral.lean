import TripleStore.Text.Ascii

/-!
# Reading integers

A numeral is an optional sign and digits; its value must fit 64 bits with a sign.  `readDecimal`
takes decimal digits only.  `readLiteral` also takes the base from the beginning of the numeral
(two for `0b`, eight for `0o` or `0`, sixteen for `0x`) and allows a low line between digits.

Digits are read from the left, so an overflow is reported before a later character that is no digit.
-/

namespace TripleStore

namespace Numeral

/-- Why a text is no integer. -/
inductive Fault
  | malformed
  | outOfRange
  deriving DecidableEq, Repr

/-- The words of a fault. -/
def Fault.message : Fault → Text
  | .malformed => "invalid syntax"
  | .outOfRange => "value out of range"

/-- The value of a digit in bases up to 36. -/
def digitValue? (b : UInt8) : Option Nat :=
  if Ascii.isDigit b then some (b.toNat - 48)
  else if Ascii.isLetter b then some ((Ascii.toLower b).toNat - 87)
  else none

/-- Reads digits of a base after the value `n`; `gaps` allows low lines. -/
def readDigits (base : Nat) (gaps : Bool) (n : Nat) : Text → Except Fault Nat
  | [] => .ok n
  | b :: rest =>
    if gaps && b == Ascii.underscore then readDigits base gaps n rest
    else match digitValue? b with
      | none => .error .malformed
      | some d =>
        if base ≤ d then .error .malformed
        else if 0x10000000000000000 ≤ n * base + d then .error .outOfRange
        else readDigits base gaps (n * base + d) rest

/-- What stood before the current character of a numeral with low lines. -/
inductive Before
  | start
  | digit
  | gap
  | other
  deriving DecidableEq

/-- Every low line stands between digits. -/
def gapsAllowed (hex : Bool) : Before → Text → Bool
  | before, [] => before != .gap
  | before, b :: rest =>
    if Ascii.isDigit b || (hex && (Ascii.hexValue? b).isSome) then gapsAllowed hex .digit rest
    else if b == Ascii.underscore then before == .digit && gapsAllowed hex .gap rest
    else before != .gap && gapsAllowed hex .other rest

/-- The base that a numeral without sign begins with, and its digits. -/
def baseOf (t : Text) : Nat × Text :=
  match t with
  | 48 :: mark :: d :: rest =>
    if Ascii.toLower mark = 98 then (2, d :: rest)
    else if Ascii.toLower mark = 111 then (8, d :: rest)
    else if Ascii.toLower mark = 120 then (16, d :: rest)
    else (8, mark :: d :: rest)
  | 48 :: rest => (8, rest)
  | _ => (10, t)

/-- Checks the low lines of a numeral without sign; a base marker counts as a digit. -/
def gapsFit (t : Text) : Bool :=
  match t with
  | 48 :: mark :: rest =>
    let m := Ascii.toLower mark
    if m = 98 ∨ m = 111 ∨ m = 120 then gapsAllowed (m == 120) .digit rest
    else gapsAllowed false .start t
  | _ => gapsAllowed false .start t

/-- Reads a numeral without sign. -/
def readUnsigned (literal : Bool) (t : Text) : Except Fault Nat :=
  if t.isEmpty then .error .malformed
  else if literal then
    match readDigits (baseOf t).1 true 0 (baseOf t).2 with
    | .error e => .error e
    | .ok n => if t.contains Ascii.underscore && !gapsFit t then .error .malformed else .ok n
  else readDigits 10 false 0 t

/-- Reads a numeral with an optional sign into the range of 64 bits. -/
def readSigned (literal : Bool) (t : Text) : Except Fault Int :=
  let read (negative : Bool) (digits : Text) : Except Fault Int :=
    match readUnsigned literal digits with
    | .error e => .error e
    | .ok n =>
      if negative then if n ≤ 0x8000000000000000 then .ok (-(n : Int)) else .error .outOfRange
      else if n < 0x8000000000000000 then .ok n else .error .outOfRange
  match t with
  | Ascii.plus :: digits => read false digits
  | Ascii.minus :: digits => read true digits
  | _ => read false t

end Numeral

/-- Reads a decimal integer. -/
def readDecimal (t : Text) : Except Numeral.Fault Int := Numeral.readSigned false t

/-- Reads an integer that may name its base and hold low lines. -/
def readLiteral (t : Text) : Except Numeral.Fault Int := Numeral.readSigned true t

end TripleStore
