import TripleStore.Text.Ascii

/-!
# The characters of a YAML file

A file is read in windows of 512 bytes.  A mark at its beginning tells whether it is written in
UTF-8 or in one of the two orders of UTF-16; without a mark it is UTF-8.  Control characters may not
occur, except for tabs and line breaks.

A window with a fault cannot be read at all.  A file whose later windows are faulty can be read up
to the first of them, which is enough if nothing asks for more.
-/

namespace TripleStore.Yaml

/-- The characters of a file.  A source that is not whole ends where the file cannot be read. -/
structure Source where
  characters : List Nat
  /-- The numbers of characters in the windows. -/
  windows : List Nat
  whole : Bool
  deriving DecidableEq, Repr

namespace Source

/-- How characters are spelled. -/
inductive Encoding
  | utf8
  | utf16 (bigEndian : Bool)
  deriving DecidableEq, Repr

/-- What a file goes on with. -/
inductive Reading
  | character (c width : Nat)
  /-- The beginning of a character whose rest is missing. -/
  | incomplete
  | invalid
  deriving DecidableEq, Repr

/-- Whether a character may occur in a file. -/
def isAllowed (c : Nat) : Bool :=
  c == 0x09 || c == 0x0A || c == 0x0D || (0x20 ≤ c && c ≤ 0x7E) || c == 0x85
    || (0xA0 ≤ c && c ≤ 0xD7FF) || (0xE000 ≤ c && c ≤ 0xFFFD) || (0x10000 ≤ c && c ≤ 0x10FFFF)

/-- A character, if it may occur. -/
def checked (c width : Nat) : Reading := if isAllowed c then .character c width else .invalid

/-- The number of bytes that a first byte of UTF-8 announces, and its payload. -/
def announced (a : UInt8) : Option (Nat × Nat) :=
  if a < 0x80 then some (1, a.toNat)
  else if 0xC0 ≤ a && a < 0xE0 then some (2, a.toNat % 32)
  else if 0xE0 ≤ a && a < 0xF0 then some (3, a.toNat % 16)
  else if 0xF0 ≤ a && a < 0xF8 then some (4, a.toNat % 8)
  else none

/-- The least code point that needs a number of bytes. -/
def leastOfWidth (width : Nat) : Nat :=
  if width = 2 then 0x80 else if width = 3 then 0x800 else if width = 4 then 0x10000 else 0

/-- The character of UTF-8 that begins with a byte. -/
def readUtf8 (a : UInt8) (rest : Text) : Reading :=
  match announced a with
  | none => .invalid
  | some (width, first) =>
    let others := rest.take (width - 1)
    if others.length < width - 1 then .incomplete
    else if !others.all Ascii.isContinuation then .invalid
    else
      let c := others.foldl (fun n b => n * 64 + b.toNat % 64) first
      if c < leastOfWidth width then .invalid else checked c width

/-- A unit of 16 bits. -/
def unit (bigEndian : Bool) (a b : UInt8) : Nat :=
  if bigEndian then a.toNat * 256 + b.toNat else b.toNat * 256 + a.toNat

/-- The character of UTF-16 that begins with a byte. -/
def readUtf16 (bigEndian : Bool) (a : UInt8) (rest : Text) : Reading :=
  match rest with
  | [] => .incomplete
  | b :: more =>
    let high := unit bigEndian a b
    if high / 1024 = 55 then .invalid
    else if high / 1024 = 54 then
      match more with
      | c :: d :: _ =>
        let low := unit bigEndian c d
        if low / 1024 = 55 then checked (0x10000 + high % 1024 * 1024 + low % 1024) 4 else .invalid
      | _ => .incomplete
    else checked high 2

/-- The character that begins with a byte. -/
def Encoding.read : Encoding → UInt8 → Text → Reading
  | .utf8 => readUtf8
  | .utf16 bigEndian => readUtf16 bigEndian

/-- The characters of a window and the bytes of the one that its end cuts off, or nothing if there
is a fault. -/
def window? (e : Encoding) : (skip : Nat) → Text → Option (List Nat × Text)
  | _, [] => some ([], [])
  | skip + 1, _ :: rest => window? e skip rest
  | 0, a :: rest => match e.read a rest with
    | .character c width => (window? e (width - 1) rest).map fun p => (c :: p.1, p.2)
    | .incomplete => some ([], a :: rest)
    | .invalid => none

/-- The number of bytes in a window. -/
def windowSize : Nat := 512

/-- The characters of the windows of a file, of which the first has `size` bytes. -/
def ofWindows (e : Encoding) : (fuel size : Nat) → Text → Source
  | 0, _, _ => ⟨[], [], false⟩
  | fuel + 1, size, bytes => match window? e 0 (bytes.take size) with
    | none => ⟨[], [], false⟩
    | some (characters, cutOff) =>
      if (bytes.drop size).isEmpty then ⟨characters, [characters.length], cutOff.isEmpty⟩
      else
        let later := ofWindows e fuel windowSize (cutOff ++ bytes.drop size)
        ⟨characters ++ later.characters, characters.length :: later.windows, later.whole⟩

/-- The encoding that a file begins with a mark for, and the length of the mark. -/
def encodingOf : Text → Encoding × Nat
  | 0xFF :: 0xFE :: _ => (.utf16 false, 2)
  | 0xFE :: 0xFF :: _ => (.utf16 true, 2)
  | 0xEF :: 0xBB :: 0xBF :: _ => (.utf8, 3)
  | _ => (.utf8, 0)

/-- The characters of a file; an empty file is an empty line. -/
def ofBytes (bytes : Text) : Source :=
  if bytes.isEmpty then ⟨[0x0A], [1], true⟩
  else
    let (e, mark) := encodingOf bytes
    ofWindows e (bytes.length + 1) (windowSize - mark) (bytes.drop mark)

end Source

end TripleStore.Yaml
