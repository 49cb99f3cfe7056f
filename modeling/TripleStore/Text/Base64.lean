import TripleStore.Text.Ascii

/-!
# Base 64

Three bytes are written as four characters of 64; a last group of fewer bytes is filled up with
equals signs.  Line breaks do not count.
-/

namespace TripleStore.Base64

/-- The value of a character. -/
def value? (b : UInt8) : Option Nat :=
  if Ascii.isUpper b then some (b.toNat - 65)
  else if Ascii.isLower b then some (b.toNat - 71)
  else if Ascii.isDigit b then some (b.toNat + 4)
  else if b = Ascii.plus then some 62
  else if b = Ascii.slash then some 63
  else none

/-- The bytes of groups of four characters. -/
def groups? : Text → Option Text
  | [] => some []
  | a :: b :: c :: d :: rest => do
    let x := (← value? a) * 64 + (← value? b)
    if d = Ascii.equals then
      if !rest.isEmpty then none
      else if c = Ascii.equals then some [(x / 16).toUInt8]
      else
        let y := x * 64 + (← value? c)
        some [(y / 1024).toUInt8, (y / 4).toUInt8]
    else
      let y := (x * 64 + (← value? c)) * 64 + (← value? d)
      return (y / 65536).toUInt8 :: (y / 256).toUInt8 :: y.toUInt8 :: (← groups? rest)
  | _ => none

/-- The bytes that a text stands for. -/
def decode? (t : Text) : Option Text :=
  groups? (t.filter fun b => b ≠ Ascii.lineFeed ∧ b ≠ Ascii.carriageReturn)

end TripleStore.Base64
