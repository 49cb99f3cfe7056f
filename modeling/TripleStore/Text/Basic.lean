/-!
# Texts as byte strings

Everything this library reads, stores and prints is a string of bytes that is usually, but not
always, well-formed UTF-8.  A `Text` is therefore a plain list of bytes: two texts are equal when
their bytes are, and they are ordered byte by byte.

* `Text.ofString` spells a string literal in UTF-8; it is also a coercion.
* `Text.le` is the order in which every listing of the library is sorted.
-/

namespace TripleStore

/-- A text is a string of bytes. -/
abbrev Text := List UInt8

/-- The UTF-8 bytes of a code point; the four-byte form is used from U+10000 on. -/
def encodeScalar (n : Nat) : Text :=
  if n < 0x80 then [n.toUInt8]
  else if n < 0x800 then [(0xC0 + n / 64).toUInt8, (0x80 + n % 64).toUInt8]
  else if n < 0x10000 then
    [(0xE0 + n / 4096).toUInt8, (0x80 + n / 64 % 64).toUInt8, (0x80 + n % 64).toUInt8]
  else
    [(0xF0 + n / 262144).toUInt8, (0x80 + n / 4096 % 64).toUInt8,
      (0x80 + n / 64 % 64).toUInt8, (0x80 + n % 64).toUInt8]

namespace Text

/-- The UTF-8 bytes of a string. -/
def ofString (s : String) : Text := s.toList.flatMap fun c => encodeScalar c.toNat

instance : Coe String Text := ⟨ofString⟩

/-- The byte order of texts: a proper beginning comes first. -/
def le : Text → Text → Bool
  | [], _ => true
  | _ :: _, [] => false
  | a :: s, b :: t => a < b || (a == b && le s t)

/-- Whether `s` starts with `t`, and what follows it. -/
def stripStart : Text → Text → Option Text
  | [], s => some s
  | _ :: _, [] => none
  | b :: t, c :: s => if b = c then stripStart t s else none

/-- Whether `s` ends with `t`. -/
def endsWith (s t : Text) : Bool := t.isSuffixOf s

/-- The parts of a text before and after the first byte `b`, if that byte occurs. -/
def cut (b : UInt8) : Text → Option (Text × Text)
  | [] => none
  | c :: s => if c = b then some ([], s) else (cut b s).map fun p => (c :: p.1, p.2)

/-- Splits a text at every byte `b`; there is always one part more than there are such bytes. -/
def splitOn (b : UInt8) : Text → List Text
  | [] => [[]]
  | c :: s =>
    if c = b then [] :: splitOn b s
    else match splitOn b s with
      | [] => [[c]]
      | p :: ps => (c :: p) :: ps

/-- Joins texts with a separator between neighbours. -/
def join (separator : Text) : List Text → Text
  | [] => []
  | [t] => t
  | t :: u :: rest => t ++ separator ++ join separator (u :: rest)

/-- Sorts texts in byte order. -/
def sort (texts : List Text) : List Text := texts.mergeSort le

/-- The decimal numeral of a natural number. -/
def ofNat (n : Nat) : Text := (Nat.toDigits 10 n).map fun c => c.toNat.toUInt8

/-- The decimal numeral of an integer, with a minus sign where it is negative. -/
def ofInt : Int → Text
  | .ofNat n => ofNat n
  | .negSucc n => 45 :: ofNat (n + 1)

/-- The text of a truth value. -/
def ofBool (b : Bool) : Text := if b then "true" else "false"

end Text

end TripleStore
