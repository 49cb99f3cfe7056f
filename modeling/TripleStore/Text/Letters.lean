import TripleStore.Text.Lowercase
import TripleStore.Text.Utf8

/-!
# Letter case and white space

Small letters are those of every script.  Capital letters and equality without regard to case matter
here only where the result is compared with an ASCII word, so those map exactly the characters that
have an ASCII counterpart: besides the ASCII letters these are the Kelvin sign, the dotless i and
the long s.

* `lowered`, `raised`: a text in small or capital letters.
* `sameLetters`: equality without regard to case.
* `trimmed`: a text without white space at its ends.
-/

namespace TripleStore

namespace Letters

/-- The capital letter of a code point that has an ASCII one. -/
def upper (c : Nat) : Nat :=
  if 97 ≤ c && c ≤ 122 then c - 32
  else if c = 0x131 then 73
  else if c = 0x17F then 83
  else c

/-- One member for all code points that differ only in case from an ASCII letter. -/
def fold (c : Nat) : Nat :=
  if 65 ≤ c && c ≤ 90 then c + 32
  else if c = 0x212A then 107
  else if c = 0x17F then 115
  else c

/-- The white space characters of every script. -/
def isWhite (c : Nat) : Bool :=
  (9 ≤ c && c ≤ 13) || c == 32 || c == 0x85 || c == 0xA0 || c == 0x1680
    || (0x2000 ≤ c && c ≤ 0x200A) || c == 0x2028 || c == 0x2029 || c == 0x202F
    || c == 0x205F || c == 0x3000

end Letters

/-- A text in small letters. -/
def lowered (t : Text) : Text := (Utf8.scalars t).flatMap fun c => encodeScalar (lowercase c)

/-- A text in capital letters. -/
def raised (t : Text) : Text := (Utf8.scalars t).flatMap fun c => encodeScalar (Letters.upper c)

/-- Whether two texts are equal without regard to the case of letters. -/
def sameLetters (s t : Text) : Bool :=
  (Utf8.scalars s).map Letters.fold == (Utf8.scalars t).map Letters.fold

/-- A text without the white space at its beginning and end. -/
def trimmed (t : Text) : Text :=
  let inner := (Utf8.chunks t).dropWhile fun p => Letters.isWhite p.1
  ((inner.reverse.dropWhile fun p => Letters.isWhite p.1).reverse).flatMap Prod.snd

end TripleStore
