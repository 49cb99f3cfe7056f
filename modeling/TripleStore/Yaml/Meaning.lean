import TripleStore.Text.Base64
import TripleStore.Text.Fraction
import TripleStore.Yaml.Moment

/-!
# What scalars mean

A plain scalar may stand for nothing, a truth value, a number or a moment; all else is a text, and
so is every quoted scalar without a tag.  A tag says which of these a scalar has to be.
-/

namespace TripleStore.Yaml

/-- What a scalar stands for. -/
inductive Meaning
  | nothing
  | truth
  | integer (n : Int)
  /-- A fraction, with the integer of 64 bits that it is cut to, unless it is too large. -/
  | fraction (cut : Option Int)
  | moment
  | text (t : Text)
  deriving DecidableEq, Repr

namespace Meaning

/-- The words for nothing. -/
def nullWords : List Text := ["", "~", "null", "Null", "NULL"]

/-- The words for truth values. -/
def truthWords : List Text := ["true", "True", "TRUE", "false", "False", "FALSE"]

/-- The words for negative infinity. -/
def leastWords : List Text := ["-.inf", "-.Inf", "-.INF"]

/-- The words for infinity and for what is no number. -/
def boundlessWords : List Text :=
  [".inf", ".Inf", ".INF", "+.inf", "+.Inf", "+.INF", ".nan", ".NaN", ".NAN"]

/-! ### Numbers -/

/-- The least integer of 64 bits. -/
def leastWord : Int := -0x8000000000000000

/-- An integer cut to 64 bits.  What is too large is refused, except for the first such number,
which becomes the least integer, as does all that is too small. -/
def toWord? (n : Int) : Option Int :=
  if 0x8000000000000000 < n then none
  else if leastWord ≤ n ∧ n < 0x8000000000000000 then some n
  else some leastWord

/-- An integer of a base with its sign, if it fits 64 bits. -/
def signed? (base : Nat) (t : Text) : Option Int :=
  let (negative, digits) := Fraction.takeSign t
  match digits, Numeral.readDigits base false 0 digits with
  | _ :: _, .ok n =>
    if negative then if n ≤ 0x8000000000000000 then some (-(n : Int)) else none
    else if n < 0x8000000000000000 then some n else none
  | _, _ => none

/-- An integer whose sign stands behind the mark of its base. -/
def marked? : Text → Option Int
  | 48 :: 98 :: t => signed? 2 t
  | 48 :: 111 :: t => signed? 8 t
  | _ => none

/-- The number that a text with a digit or a sign at its beginning stands for.  It may name its base
and hold low lines. -/
def number? (t : Text) : Option Meaning :=
  let digits := t.filter fun b => b ≠ Ascii.underscore
  match readLiteral digits, Numeral.readUnsigned true digits with
  | .ok n, _ => some (.integer n)
  | .error _, .ok n => some (.integer n)
  | .error _, .error _ => match Fraction.integerPart? digits with
    | some n => some (.fraction (toWord? n))
    | none => (marked? digits).map .integer

/-- The number that a text with a point at its beginning stands for; low lines may stand between
digits. -/
def pointed? (t : Text) : Option Meaning :=
  if Numeral.gapsAllowed false .start t then
    (Fraction.integerPart? (t.filter fun b => b ≠ Ascii.underscore)).map fun n =>
      .fraction (toWord? n)
  else none

/-! ### Scalars -/

/-- What a word stands for by itself; `dates` allows moments. -/
def ofWord (dates : Bool) (t : Text) : Meaning :=
  if nullWords.contains t then .nothing
  else if truthWords.contains t then .truth
  else if leastWords.contains t then .fraction (some leastWord)
  else if boundlessWords.contains t then .fraction none
  else match t with
    | [] => .nothing
    | b :: _ =>
      if b = Ascii.dot then (pointed? t).getD (.text t)
      else if Ascii.isDigit b || b = Ascii.plus || b = Ascii.minus then
        if dates && Moment.isMoment t then .moment else (number? t).getD (.text t)
      else .text t

/-- A number as a fraction; integers of more than 64 bits are none. -/
def asFraction? : Meaning → Option Meaning
  | .fraction cut => some (.fraction cut)
  | .integer n =>
    if n < 0x8000000000000000 then
      let size : Int := Fraction.nearest n.natAbs 1
      some (.fraction (toWord? (if n < 0 then -size else size)))
    else none
  | _ => none

/-- The beginning of the tags that YAML itself defines. -/
def ownTags : Text := "tag:yaml.org,2002:"

/-- A tag with two marks in the place of its beginning, if YAML defines it. -/
def shortened (tag : Text) : Text :=
  match Text.stripStart ownTags tag with
  | some name => "!!" ++ name
  | none => tag

/-- A meaning of the sort that a tag asks for; tags that are not known only ask for a text. -/
def tagged? (tag t : Text) : Option Meaning :=
  let word := ofWord (tag = ("!!timestamp" : Text)) t
  if tag = ("!!binary" : Text) then (Base64.decode? t).map .text
  else if tag = ("!!null" : Text) then if word = .nothing then some word else none
  else if tag = ("!!bool" : Text) then if word = .truth then some word else none
  else if tag = ("!!timestamp" : Text) then if word = .moment then some word else none
  else if tag = ("!!float" : Text) then word.asFraction?
  else if tag = ("!!int" : Text) then match word with
    | .integer n => some (.integer n)
    | _ => none
  else some (.text t)

/-- What a scalar stands for, unless its tag asks for something else. -/
def ofScalar? (tag : Option Text) (plain : Bool) (t : Text) : Option Meaning :=
  match tag with
  | some tag => tagged? (shortened tag) t
  | none => some (if plain then ofWord true t else .text t)

/-- The integer that a scalar is taken for, if it can be. -/
def integer? : Meaning → Option Int
  | .integer n => if n < 0x8000000000000000 then some n else none
  | .fraction cut => cut
  | _ => none

end Meaning

end TripleStore.Yaml
