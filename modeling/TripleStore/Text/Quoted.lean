import TripleStore.Text.Hex
import TripleStore.Text.Printable

/-!
# Quoted texts in messages

Messages show foreign texts in quotes.  Printable characters stand for themselves; the quote and the
backslash are escaped with a backslash; the usual control characters have a letter each; everything
else is written in hexadecimal, with two digits below U+0080, four below U+10000 and eight above.
A byte outside well-formed UTF-8 is written with two digits.
-/

namespace TripleStore

namespace Quoted

/-- One code point between quotes of kind `delimiter`. -/
def spell (delimiter c : Nat) : Text :=
  if c = delimiter ∨ c = 92 then 92 :: encodeScalar c
  else if isPrintable c then encodeScalar c
  else match c with
    | 7 => "\\a"
    | 8 => "\\b"
    | 12 => "\\f"
    | 10 => "\\n"
    | 13 => "\\r"
    | 9 => "\\t"
    | 11 => "\\v"
    | _ =>
      if c < 32 ∨ c = 127 then "\\x" ++ Hex.padded 2 c
      else if c < 0x10000 then "\\u" ++ Hex.padded 4 c
      else "\\U" ++ Hex.padded 8 c

/-- The quoted form of a text without its quotes, after `skip` bytes. -/
def bodyFrom (delimiter : Nat) : Nat → Text → Text
  | _, [] => []
  | skip + 1, _ :: rest => bodyFrom delimiter skip rest
  | 0, a :: rest => match Utf8.sequence? a rest with
    | some (c, width) => spell delimiter c ++ bodyFrom delimiter (width - 1) rest
    | none => "\\x" ++ Hex.encode [a] ++ bodyFrom delimiter 0 rest

end Quoted

/-- A text in double quotes, as messages show it. -/
def quoted (t : Text) : Text := "\"" ++ Quoted.bodyFrom 34 0 t ++ "\""

/-- A code point in single quotes; a number that is no code point is shown as U+FFFD. -/
def quotedScalar (c : Int) : Text :=
  let scalar := if 0 ≤ c && Utf8.isScalar c.toNat then c.toNat else replacementScalar
  "'" ++ Quoted.spell 39 scalar ++ "'"

end TripleStore
