import TripleStore.Text.Ascii

/-!
# Hexadecimal

Bytes written as pairs of hexadecimal digits, numbers written with a fixed count of digits, and the
page layout in which long values are shown.
-/

namespace TripleStore.Hex

/-- Writes each byte as two small hexadecimal digits. -/
def encode (t : Text) : Text :=
  t.flatMap fun b => [Ascii.hexDigit (b.toNat / 16), Ascii.hexDigit (b.toNat % 16)]

/-- Reads pairs of hexadecimal digits; an odd digit or another character is refused. -/
def decode : Text → Option Text
  | [] => some []
  | [_] => none
  | a :: b :: t => do
    let hi ← Ascii.hexValue? a
    let lo ← Ascii.hexValue? b
    let rest ← decode t
    some ((hi * 16 + lo).toUInt8 :: rest)

/-- The last `width` hexadecimal digits of a number, from `digit`. -/
def digits (digit : Nat → UInt8) (width n : Nat) : Text :=
  (List.range width).reverse.map fun i => digit (n / Nat.pow 16 i % 16)

/-- A number in `width` small hexadecimal digits. -/
def padded (width n : Nat) : Text := digits Ascii.hexDigit width n

/-- A number in `width` capital hexadecimal digits. -/
def paddedUpper (width n : Nat) : Text := digits Ascii.hexDigitUpper width n

/-- The value of a sequence of hexadecimal digits, if all of them are. -/
def value? (t : Text) : Option Nat :=
  t.foldl (fun acc b => do some ((← acc) * 16 + (← Ascii.hexValue? b))) (some 0)

/-- One line of a page: the offset, two groups of eight bytes, and the bytes as characters. -/
def pageLine (offset : Nat) (row : Text) : Text :=
  let cell (i : Nat) : Text :=
    let spelled := match row[i]? with
      | some b => encode [b]
      | none => "  "
    (if i = 8 then "  " else " ") ++ spelled
  padded 8 offset ++ " " ++ (List.range 16).flatMap cell ++ "  |"
    ++ row.map (fun b => if 32 ≤ b && b ≤ 126 then b else Ascii.dot) ++ "|\n"

/-- A page of bytes, sixteen to a line. -/
def page (t : Text) : Text :=
  (List.range ((t.length + 15) / 16)).flatMap fun i =>
    pageLine (16 * i) ((t.drop (16 * i)).take 16)

end TripleStore.Hex
