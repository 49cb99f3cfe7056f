import TripleStore.Text.Numeral

/-!
# Decimal fractions

A decimal fraction is an optional sign, digits with an optional point among them, and an optional
exponent of ten.  It stands for the nearest binary fraction with 53 bits, of two equally near ones
for the even one.  Only the integer part of that binary fraction is needed here.

* `Fraction.nearest` rounds a quotient and cuts it to its integer part.
* `Fraction.integerPart?` reads a decimal fraction.
-/

namespace TripleStore.Fraction

/-- The number of bits that a binary fraction has. -/
def precision : Nat := 53

/-- Every binary fraction is below this number. -/
def bound : Nat := Nat.pow 2 1024

/-- The integer nearest to a quotient; of two equally near ones the even one. -/
def roundQuotient (num den : Nat) : Nat :=
  let q := num / den
  let twice := 2 * (num % den)
  if den < twice then q + 1
  else if twice < den then q
  else q + q % 2

/-- The number of bits of a natural number. -/
def bitLength (n : Nat) : Nat := if n = 0 then 0 else n.log2 + 1

/-- The integer part of the binary fraction nearest to a quotient. -/
def nearest (num den : Nat) : Nat :=
  let bits := bitLength (num / den)
  if bits ≤ precision then
    let scale := Nat.pow 2 (precision - bits)
    roundQuotient (num * scale) den / scale
  else
    let scale := Nat.pow 2 (bits - precision)
    roundQuotient num (den * scale) * scale

/-- The value of decimal digits. -/
def valueOf (digits : Text) : Nat := digits.foldl (fun n b => n * 10 + (b.toNat - 48)) 0

/-- The sign of a text and what follows it; `true` is the minus sign. -/
def takeSign : Text → Bool × Text
  | Ascii.plus :: t => (false, t)
  | Ascii.minus :: t => (true, t)
  | t => (false, t)

/-- The exponent at the end of a fraction; there may be none. -/
def exponent? : Text → Option Int
  | [] => some 0
  | e :: t =>
    let (negative, digits) := takeSign t
    if Ascii.toLower e ≠ 101 ∨ digits.isEmpty ∨ ¬ digits.all Ascii.isDigit then none
    else if negative then some (-(valueOf digits : Int))
    else some (valueOf digits)

/-- The sign, the digits and the power of ten of a decimal fraction. -/
def parts? (t : Text) : Option (Bool × Nat × Int) :=
  let (negative, t) := takeSign t
  let whole := t.takeWhile Ascii.isDigit
  let rest := t.dropWhile Ascii.isDigit
  let afterPoint : Text := match rest with
    | Ascii.dot :: more => more
    | _ => []
  let fraction := afterPoint.takeWhile Ascii.isDigit
  let tail := if rest.head? = some Ascii.dot then afterPoint.dropWhile Ascii.isDigit else rest
  if whole.isEmpty && fraction.isEmpty then none
  else (exponent? tail).map fun e => (negative, valueOf (whole ++ fraction), e - fraction.length)

/-- The integer part of a decimal fraction, unless no binary fraction is as large. -/
def integerPart? (t : Text) : Option Int := do
  let (negative, digits, e) ← parts? t
  let size : Int := (Text.ofNat digits).length + e
  if digits = 0 ∨ size < 0 then return 0
  if 400 < size then none
  let n := if 0 ≤ e then nearest (digits * Nat.pow 10 e.toNat) 1
    else nearest digits (Nat.pow 10 (-e).toNat)
  if bound ≤ n then none
  return if negative then -(n : Int) else n

end TripleStore.Fraction
