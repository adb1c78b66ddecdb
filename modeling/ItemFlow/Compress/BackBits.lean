import ItemFlow.Bytes
/-! Entropy-coded bit streams of compressed blocks. Such a stream is written forwards and
read backwards: the highest set bit of its last byte marks where the data ends, and reading
takes bits from there towards bit zero of the first byte. -/
namespace ItemFlow

/-- A backward bit stream over the bytes `[start, start + len)` of `data`. `left` counts the
bits not yet read; it goes negative when a read runs past the first byte, which marks the
stream as overrun. -/
structure BackBits where
  data : ByteArray
  start : Nat
  left : Int

namespace BackBits

/-- Open the stream over `len` bytes at `start`. An empty stream, or one whose last byte is
zero and so carries no end mark, is refused. -/
def init (data : ByteArray) (start len : Nat) : Option BackBits :=
  if len = 0 then none
  else
    let last := Bytes.byteAt data (start + len - 1)
    if last = 0 then none
    else some ⟨data, start, (8 * (len - 1) + Nat.log2 last : Nat)⟩

/-- The value of the `n` stream bits from bit `lo` upwards. -/
def bitsAt (s : BackBits) (lo n : Nat) : Nat :=
  let first := lo / 8
  let bytes := (lo + n + 7) / 8 - first
  (Bytes.readLE s.data (s.start + first) bytes >>> (lo % 8)) % 2 ^ n

/-- The next `n` bits, first-read bit most significant. Bits below the start of the stream
read as zeros. -/
def peek (s : BackBits) (n : Nat) : Nat :=
  if (n : Int) ≤ s.left then s.bitsAt (s.left - n).toNat n
  else if s.left ≤ 0 then 0
  else s.bitsAt 0 s.left.toNat <<< (n - s.left.toNat)

def skip (s : BackBits) (n : Nat) : BackBits := { s with left := s.left - n }

def read (s : BackBits) (n : Nat) : Nat × BackBits := (s.peek n, s.skip n)

def overrun (s : BackBits) : Bool := s.left < 0

/-- Whether every bit has been read, and no more. -/
def exhausted (s : BackBits) : Bool := s.left = 0

end BackBits

end ItemFlow
