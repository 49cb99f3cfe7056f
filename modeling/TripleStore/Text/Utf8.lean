import TripleStore.Text.Ascii

/-!
# Reading UTF-8

A text need not be well-formed.  `firstScalar` reads the code point at the beginning of a text
together with the number of bytes that spell it; a byte that starts no well-formed sequence counts
as U+FFFD on its own, one byte wide.

* `scalars` lists the code points of a text, and `chunks` the bytes of each of them.
* `isWellFormed` says that no byte had to be replaced.

The recursions run along the bytes and count the bytes of the current sequence still to be passed.
-/

namespace TripleStore

/-- The code point that stands for a byte outside every well-formed sequence. -/
def replacementScalar : Nat := 0xFFFD

namespace Utf8

/-- The six payload bits of a continuation byte. -/
def payload (b : UInt8) : Nat := b.toNat % 64

/-- The least and the greatest second byte after the first byte of a longer sequence. -/
def secondRange (first : UInt8) : UInt8 × UInt8 :=
  if first = 0xE0 then (0xA0, 0xBF)
  else if first = 0xED then (0x80, 0x9F)
  else if first = 0xF0 then (0x90, 0xBF)
  else if first = 0xF4 then (0x80, 0x8F)
  else (0x80, 0xBF)

/-- Whether `b` may follow the first byte of a longer sequence. -/
def isSecond (first b : UInt8) : Bool :=
  (secondRange first).1 ≤ b && b ≤ (secondRange first).2

/-- The code point and width of the well-formed sequence that `a :: rest` begins with, if any. -/
def sequence? (a : UInt8) (rest : Text) : Option (Nat × Nat) :=
  if a < 0x80 then some (a.toNat, 1)
  else if 0xC2 ≤ a && a ≤ 0xDF then
    match rest with
    | b :: _ => if isSecond a b then some (a.toNat % 32 * 64 + payload b, 2) else none
    | _ => none
  else if 0xE0 ≤ a && a ≤ 0xEF then
    match rest with
    | b :: c :: _ =>
      if isSecond a b && Ascii.isContinuation c then
        some (a.toNat % 16 * 4096 + payload b * 64 + payload c, 3)
      else none
    | _ => none
  else if 0xF0 ≤ a && a ≤ 0xF4 then
    match rest with
    | b :: c :: d :: _ =>
      if isSecond a b && Ascii.isContinuation c && Ascii.isContinuation d then
        some (a.toNat % 8 * 262144 + payload b * 4096 + payload c * 64 + payload d, 4)
      else none
    | _ => none
  else none

/-- The code point that `a :: rest` begins with and its width; an ill-formed byte is replaced. -/
def read (a : UInt8) (rest : Text) : Nat × Nat :=
  (sequence? a rest).getD (replacementScalar, 1)

/-- The first code point of a text; the empty text counts as the replacement. -/
def firstScalar : Text → Nat
  | [] => replacementScalar
  | a :: rest => (read a rest).1

/-- The code points of a text after `skip` bytes. -/
def scalarsFrom : Nat → Text → List Nat
  | _, [] => []
  | skip + 1, _ :: rest => scalarsFrom skip rest
  | 0, a :: rest => (read a rest).1 :: scalarsFrom ((read a rest).2 - 1) rest

/-- The code points of a text, each ill-formed byte replaced. -/
def scalars (t : Text) : List Nat := scalarsFrom 0 t

/-- The code points of a text after `skip` bytes, each with its bytes. -/
def chunksFrom : Nat → Text → List (Nat × Text)
  | _, [] => []
  | skip + 1, _ :: rest => chunksFrom skip rest
  | 0, a :: rest =>
    ((read a rest).1, a :: rest.take ((read a rest).2 - 1)) ::
      chunksFrom ((read a rest).2 - 1) rest

/-- The code points of a text, each with the bytes that spell it. -/
def chunks (t : Text) : List (Nat × Text) := chunksFrom 0 t

/-- Whether a text is well-formed after `skip` bytes. -/
def isWellFormedFrom : Nat → Text → Bool
  | _, [] => true
  | skip + 1, _ :: rest => isWellFormedFrom skip rest
  | 0, a :: rest => match sequence? a rest with
    | some (_, width) => isWellFormedFrom (width - 1) rest
    | none => false

/-- Whether a text is well-formed UTF-8. -/
def isWellFormed (t : Text) : Bool := isWellFormedFrom 0 t

/-- Whether a number is a code point that has a UTF-8 form. -/
def isScalar (n : Nat) : Bool := n < 0xD800 || (0xE000 ≤ n && n ≤ 0x10FFFF)

end Utf8

end TripleStore
