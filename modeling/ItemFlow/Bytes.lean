import ItemFlow.Overflow
/-! Little-endian words in byte arrays. Reads past the end of an array see zero bytes, so a
caller checks lengths wherever a short input is an error. -/
namespace ItemFlow

namespace Bytes

/-- The byte at an index, or zero past the end. -/
def byteAt (b : ByteArray) (i : Nat) : Nat :=
  if h : i < b.size then b[i].toNat else 0

/-- The little-endian value of the `n` bytes starting at `pos`. -/
def readLE (b : ByteArray) (pos : Nat) : Nat → Nat
  | 0 => 0
  | n + 1 => byteAt b pos + 256 * readLE b (pos + 1) n

/-- Append the `n` low bytes of `v`, least significant first. -/
def putLE (b : ByteArray) (v : Nat) : Nat → ByteArray
  | 0 => b
  | n + 1 => putLE (b.push (v % 256).toUInt8) (v / 256) n

/-- The bytes `[start, start + len)` of an array, cut at its end. -/
def slice (b : ByteArray) (start len : Nat) : ByteArray :=
  b.extract start (start + len)

/-- `n` copies of one byte appended to an array. -/
def pushRepeat (b : ByteArray) (v : UInt8) : Nat → ByteArray
  | 0 => b
  | n + 1 => pushRepeat (b.push v) v n

/-- Upper-case hexadecimal text of a number in exactly `width` digits, most significant
first: `hexUpper 8 0x484C4245 = "484C4245"`. -/
def hexUpper (width v : Nat) : String :=
  let digit (d : Nat) : Char := "0123456789ABCDEF".toList.getD d '0'
  String.ofList ((List.range width).reverse.map fun i => digit (v / 16 ^ i % 16))

end Bytes

end ItemFlow
