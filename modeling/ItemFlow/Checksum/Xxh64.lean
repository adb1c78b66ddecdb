import ItemFlow.Bytes
/-! The 64-bit xxHash with seed zero, whose low half closes a compressed frame that asks for
a content checksum. -/
namespace ItemFlow

namespace Xxh64

def prime1 : UInt64 := 0x9E3779B185EBCA87
def prime2 : UInt64 := 0xC2B2AE3D27D4EB4F
def prime3 : UInt64 := 0x165667B19E3779F9
def prime4 : UInt64 := 0x85EBCA77C2B2AE63
def prime5 : UInt64 := 0x27D4EB2F165667C5

/-- Rotate a word left by `r` bits, `0 < r < 64`. -/
def rotl (x r : UInt64) : UInt64 := (x <<< r) ||| (x >>> (64 - r))

/-- Absorb one 64-bit lane input into an accumulator. -/
def round (acc input : UInt64) : UInt64 := rotl (acc + input * prime2) 31 * prime1

/-- Fold one finished lane into the hash. -/
def merge (acc lane : UInt64) : UInt64 := (acc ^^^ round 0 lane) * prime1 + prime4

def word64 (b : ByteArray) (pos : Nat) : UInt64 := (Bytes.readLE b pos 8).toUInt64

/-- The four lanes after absorbing `n` whole 32-byte stripes from `pos` on. -/
def stripes (b : ByteArray) : Nat → Nat → UInt64 × UInt64 × UInt64 × UInt64 →
    UInt64 × UInt64 × UInt64 × UInt64
  | 0, _, v => v
  | n + 1, pos, (v1, v2, v3, v4) =>
    stripes b n (pos + 32) (round v1 (word64 b pos), round v2 (word64 b (pos + 8)),
      round v3 (word64 b (pos + 16)), round v4 (word64 b (pos + 24)))

/-- The hash after the `n` trailing 8-byte words from `pos` on. -/
def words (b : ByteArray) : Nat → Nat → UInt64 → UInt64
  | 0, _, h => h
  | n + 1, pos, h => words b n (pos + 8) (rotl (h ^^^ round 0 (word64 b pos)) 27 * prime1 + prime4)

/-- The hash after the `n` trailing single bytes from `pos` on. -/
def singles (b : ByteArray) : Nat → Nat → UInt64 → UInt64
  | 0, _, h => h
  | n + 1, pos, h =>
    singles b n (pos + 1) (rotl (h ^^^ (Bytes.byteAt b pos).toUInt64 * prime5) 11 * prime1)

/-- The final avalanche that spreads every input bit over the whole word. -/
def avalanche (h : UInt64) : UInt64 :=
  let h := (h ^^^ (h >>> 33)) * prime2
  let h := (h ^^^ (h >>> 29)) * prime3
  h ^^^ (h >>> 32)

/-- The 64-bit hash of a byte array with seed zero. -/
def digest (b : ByteArray) : UInt64 :=
  let len := b.size
  let whole := len / 32 * 32
  let h :=
    if len ≥ 32 then
      let (v1, v2, v3, v4) := stripes b (len / 32) 0 (prime1 + prime2, prime2, 0, 0 - prime1)
      let h := rotl v1 1 + rotl v2 7 + rotl v3 12 + rotl v4 18
      merge (merge (merge (merge h v1) v2) v3) v4
    else prime5
  let h := h + len.toUInt64
  let rest := len - whole
  let h := words b (rest / 8) whole h
  let pos := whole + rest / 8 * 8
  let (h, pos) :=
    if len - pos ≥ 4 then
      (rotl (h ^^^ (Bytes.readLE b pos 4).toUInt64 * prime1) 23 * prime2 + prime3, pos + 4)
    else (h, pos)
  avalanche (singles b (len - pos) pos h)

end Xxh64

end ItemFlow
