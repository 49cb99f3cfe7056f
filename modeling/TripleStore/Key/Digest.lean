import TripleStore.Text.Hex

/-!
# Digests of 128 bits

The XXH3 digest of a text with seed zero and the standard secret.  Texts of up to 16, up to 128, up
to 240 and more bytes are mixed in different ways; the long way runs over stripes of 64 bytes in
blocks of sixteen.  All arithmetic is modulo 2⁶⁴.

`digest` gives the sixteen bytes, most significant first.
-/

namespace TripleStore

namespace Digest

/-- The standard secret. -/
def secret : Array UInt8 := #[
  0xb8, 0xfe, 0x6c, 0x39, 0x23, 0xa4, 0x4b, 0xbe, 0x7c, 0x01, 0x81, 0x2c, 0xf7, 0x21, 0xad, 0x1c,
  0xde, 0xd4, 0x6d, 0xe9, 0x83, 0x90, 0x97, 0xdb, 0x72, 0x40, 0xa4, 0xa4, 0xb7, 0xb3, 0x67, 0x1f,
  0xcb, 0x79, 0xe6, 0x4e, 0xcc, 0xc0, 0xe5, 0x78, 0x82, 0x5a, 0xd0, 0x7d, 0xcc, 0xff, 0x72, 0x21,
  0xb8, 0x08, 0x46, 0x74, 0xf7, 0x43, 0x24, 0x8e, 0xe0, 0x35, 0x90, 0xe6, 0x81, 0x3a, 0x26, 0x4c,
  0x3c, 0x28, 0x52, 0xbb, 0x91, 0xc3, 0x00, 0xcb, 0x88, 0xd0, 0x65, 0x8b, 0x1b, 0x53, 0x2e, 0xa3,
  0x71, 0x64, 0x48, 0x97, 0xa2, 0x0d, 0xf9, 0x4e, 0x38, 0x19, 0xef, 0x46, 0xa9, 0xde, 0xac, 0xd8,
  0xa8, 0xfa, 0x76, 0x3f, 0xe3, 0x9c, 0x34, 0x3f, 0xf9, 0xdc, 0xbb, 0xc7, 0xc7, 0x0b, 0x4f, 0x1d,
  0x8a, 0x51, 0xe0, 0x4b, 0xcd, 0xb4, 0x59, 0x31, 0xc8, 0x9f, 0x7e, 0xc9, 0xd9, 0x78, 0x73, 0x64,
  0xea, 0xc5, 0xac, 0x83, 0x34, 0xd3, 0xeb, 0xc3, 0xc5, 0x81, 0xa0, 0xff, 0xfa, 0x13, 0x63, 0xeb,
  0x17, 0x0d, 0xdd, 0x51, 0xb7, 0xf0, 0xda, 0x49, 0xd3, 0x16, 0x55, 0x26, 0x29, 0xd4, 0x68, 0x9e,
  0x2b, 0x16, 0xbe, 0x58, 0x7d, 0x47, 0xa1, 0xfc, 0x8f, 0xf8, 0xb8, 0xd1, 0x7a, 0xd0, 0x31, 0xce,
  0x45, 0xcb, 0x3a, 0x8f, 0x95, 0x16, 0x04, 0x28, 0xaf, 0xd7, 0xfb, 0xca, 0xbb, 0x4b, 0x40, 0x7e]

/-- The first multiplier for 32 bits. -/
def prime32a : UInt64 := 0x9E3779B1
/-- The second multiplier for 32 bits. -/
def prime32b : UInt64 := 0x85EBCA77
/-- The third multiplier for 32 bits. -/
def prime32c : UInt64 := 0xC2B2AE3D
/-- The first multiplier for 64 bits. -/
def prime64a : UInt64 := 0x9E3779B185EBCA87
/-- The second multiplier for 64 bits. -/
def prime64b : UInt64 := 0xC2B2AE3D27D4EB4F
/-- The third multiplier for 64 bits. -/
def prime64c : UInt64 := 0x165667B19E3779F9
/-- The fourth multiplier for 64 bits. -/
def prime64d : UInt64 := 0x85EBCA77C2B2AE63
/-- The fifth multiplier for 64 bits. -/
def prime64e : UInt64 := 0x27D4EB2F165667C5
/-- The multiplier of the final mix. -/
def mixPrime : UInt64 := 0x165667919E3779F9
/-- The multiplier of the mix for short texts. -/
def shortPrime : UInt64 := 0x9FB21C651E98DF25

/-- One half or both halves of a digest: high and low word. -/
structure Words where
  high : UInt64
  low : UInt64
  deriving DecidableEq, Repr

/-- The byte at an index as a word. -/
def byteAt (a : Array UInt8) (i : Nat) : UInt64 := (a.getD i 0).toUInt64

/-- The four bytes from an index on, least significant first. -/
def word32 (a : Array UInt8) (i : Nat) : UInt64 :=
  byteAt a i ||| byteAt a (i + 1) <<< 8 ||| byteAt a (i + 2) <<< 16 ||| byteAt a (i + 3) <<< 24

/-- The eight bytes from an index on, least significant first. -/
def word64 (a : Array UInt8) (i : Nat) : UInt64 := word32 a i ||| word32 a (i + 4) <<< 32

/-- The lower 32 bits of a word. -/
def low32 (w : UInt64) : UInt64 := w &&& 0xFFFFFFFF

/-- The bytes of 32 bits in reverse. -/
def reverse32 (w : UInt64) : UInt64 :=
  (w &&& 0xFF) <<< 24 ||| (w >>> 8 &&& 0xFF) <<< 16 ||| (w >>> 16 &&& 0xFF) <<< 8
    ||| (w >>> 24 &&& 0xFF)

/-- The bytes of 64 bits in reverse. -/
def reverse64 (w : UInt64) : UInt64 :=
  reverse32 (low32 w) <<< 32 ||| reverse32 (w >>> 32)

/-- The full product of two words. -/
def product (a b : UInt64) : Words :=
  let p := a.toNat * b.toNat
  ⟨(p / 0x10000000000000000).toUInt64, p.toUInt64⟩

/-- The two words of a product on top of each other. -/
def folded (a b : UInt64) : UInt64 := (product a b).high ^^^ (product a b).low

/-- The strong final mix. -/
def scatter (h : UInt64) : UInt64 :=
  let h := (h ^^^ h >>> 33) * prime64b
  let h := (h ^^^ h >>> 29) * prime64c
  h ^^^ h >>> 32

/-- The usual final mix. -/
def settle (h : UInt64) : UInt64 :=
  let h := (h ^^^ h >>> 37) * mixPrime
  h ^^^ h >>> 32

/-! ### Up to 16 bytes -/

/-- The digest of no bytes. -/
def ofNone : Words :=
  ⟨scatter (word64 secret 80 ^^^ word64 secret 88), scatter (word64 secret 64 ^^^ word64 secret 72)⟩

/-- The digest of one to three bytes. -/
def ofFew (a : Array UInt8) : Words :=
  let n := a.size
  let low := byteAt a 0 <<< 16 ||| byteAt a (n / 2) <<< 24 ||| byteAt a (n - 1)
    ||| n.toUInt64 <<< 8
  let turned := reverse32 low
  let high := low32 (turned <<< 13 ||| turned >>> 19)
  ⟨scatter (high ^^^ (word32 secret 8 ^^^ word32 secret 12)),
    scatter (low ^^^ (word32 secret 0 ^^^ word32 secret 4))⟩

/-- The digest of four to eight bytes. -/
def ofHalf (a : Array UInt8) : Words :=
  let n := a.size
  let input := word32 a 0 + word32 a (n - 4) <<< 32
  let p := product (input ^^^ (word64 secret 16 ^^^ word64 secret 24)) (prime64a + n.toUInt64 <<< 2)
  let high := p.high + p.low <<< 1
  let low := p.low ^^^ high >>> 3
  let low := (low ^^^ low >>> 35) * shortPrime
  ⟨settle high, low ^^^ low >>> 28⟩

/-- The digest of nine to sixteen bytes. -/
def ofWhole (a : Array UInt8) : Words :=
  let n := a.size
  let first := word64 a 0
  let last := word64 a (n - 8)
  let p := product (first ^^^ last ^^^ (word64 secret 32 ^^^ word64 secret 40)) prime64a
  let low := p.low + (n - 1).toUInt64 <<< 54
  let last := last ^^^ (word64 secret 48 ^^^ word64 secret 56)
  let high := p.high + (last + low32 last * (prime32b - 1))
  let q := product (low ^^^ reverse64 high) prime64b
  ⟨settle (q.high + high * prime64b), settle q.low⟩

/-! ### Up to 240 bytes -/

/-- Sixteen bytes mixed with the secret from an index on. -/
def mix16 (a : Array UInt8) (i s : Nat) : UInt64 :=
  folded (word64 a i ^^^ word64 secret s) (word64 a (i + 8) ^^^ word64 secret (s + 8))

/-- Two runs of sixteen bytes mixed into both halves. -/
def mix32 (a : Array UInt8) (acc : Words) (i j s : Nat) : Words :=
  let low := (acc.low + mix16 a i s) ^^^ (word64 a j + word64 a (j + 8))
  let high := (acc.high + mix16 a j (s + 16)) ^^^ (word64 a i + word64 a (i + 8))
  ⟨high, low⟩

/-- The end of the mix for middle lengths. -/
def finishMiddle (n : Nat) (acc : Words) : Words :=
  let high := acc.low * prime64a + acc.high * prime64d + n.toUInt64 * prime64b
  ⟨0 - settle high, settle (acc.low + acc.high)⟩

/-- The digest of 17 to 128 bytes. -/
def ofMiddle (a : Array UInt8) : Words :=
  let n := a.size
  let rounds := (n - 1) / 32
  let acc := (List.range (rounds + 1)).reverse.foldl
    (fun acc i => mix32 a acc (16 * i) (n - 16 * (i + 1)) (32 * i)) ⟨0, n.toUInt64 * prime64a⟩
  finishMiddle n acc

/-- The digest of 129 to 240 bytes. -/
def ofUpperMiddle (a : Array UInt8) : Words :=
  let n := a.size
  let acc := (List.range 4).foldl
    (fun acc i => mix32 a acc (32 * i) (32 * i + 16) (32 * i)) ⟨0, n.toUInt64 * prime64a⟩
  let acc : Words := ⟨settle acc.high, settle acc.low⟩
  let acc := (List.range (n / 32 - 4)).foldl
    (fun acc i => mix32 a acc (128 + 32 * i) (144 + 32 * i) (3 + 32 * i)) acc
  finishMiddle n (mix32 a acc (n - 16) (n - 32) 103)

/-! ### More than 240 bytes -/

/-- The lanes before the first stripe. -/
def startLanes : Array UInt64 :=
  #[prime32c, prime64a, prime64b, prime64c, prime64d, prime32b, prime64e, prime32a]

/-- The lane at an index. -/
def lane (lanes : Array UInt64) (i : Nat) : UInt64 := lanes.getD i 0

/-- One stripe of 64 bytes mixed into the lanes. -/
def stripe (a : Array UInt8) (lanes : Array UInt64) (i s : Nat) : Array UInt64 :=
  (Array.range 8).map fun k =>
    let key := word64 a (i + 8 * k) ^^^ word64 secret (s + 8 * k)
    let neighbour := if k % 2 = 0 then k + 1 else k - 1
    lane lanes k + word64 a (i + 8 * neighbour) + low32 key * (key >>> 32)

/-- The stripes of a block, each with its part of the secret. -/
def stripes (a : Array UInt8) (lanes : Array UInt64) (i count : Nat) : Array UInt64 :=
  (List.range count).foldl (fun lanes k => stripe a lanes (i + 64 * k) (8 * k)) lanes

/-- The mix of the lanes at the end of a block. -/
def scramble (lanes : Array UInt64) : Array UInt64 :=
  (Array.range 8).map fun k =>
    let x := lane lanes k
    ((x ^^^ x >>> 47) ^^^ word64 secret (128 + 8 * k)) * prime32a

/-- The lanes merged into one word. -/
def mergeLanes (lanes : Array UInt64) (s : Nat) (start : UInt64) : UInt64 :=
  settle ((List.range 4).foldl (fun acc k =>
    acc + folded (lane lanes (2 * k) ^^^ word64 secret (s + 16 * k))
      (lane lanes (2 * k + 1) ^^^ word64 secret (s + 16 * k + 8))) start)

/-- The digest of more than 240 bytes. -/
def ofLong (a : Array UInt8) : Words :=
  let n := a.size
  let blocks := (n - 1) / 1024
  let lanes := (List.range blocks).foldl
    (fun lanes b => scramble (stripes a lanes (1024 * b) 16)) startLanes
  let lanes := stripes a lanes (1024 * blocks) ((n - 1 - 1024 * blocks) / 64)
  let lanes := stripe a lanes (n - 64) 121
  ⟨mergeLanes lanes 117 (~~~ (n.toUInt64 * prime64b)), mergeLanes lanes 11 (n.toUInt64 * prime64a)⟩

/-- The two words of the digest of some bytes. -/
def words (a : Array UInt8) : Words :=
  let n := a.size
  if n = 0 then ofNone
  else if n ≤ 3 then ofFew a
  else if n ≤ 8 then ofHalf a
  else if n ≤ 16 then ofWhole a
  else if n ≤ 128 then ofMiddle a
  else if n ≤ 240 then ofUpperMiddle a
  else ofLong a

/-- The eight bytes of a word, most significant first. -/
def bytes (w : UInt64) : Text :=
  [(w >>> 56).toUInt8, (w >>> 48).toUInt8, (w >>> 40).toUInt8, (w >>> 32).toUInt8,
    (w >>> 24).toUInt8, (w >>> 16).toUInt8, (w >>> 8).toUInt8, w.toUInt8]

end Digest

/-- The digest of a text in sixteen bytes. -/
def digest (t : Text) : Text :=
  let w := Digest.words t.toArray
  Digest.bytes w.high ++ Digest.bytes w.low

/-- A digest has sixteen bytes. -/
@[simp] theorem length_digest (t : Text) : (digest t).length = 16 := by
  simp [digest, Digest.bytes]

end TripleStore
