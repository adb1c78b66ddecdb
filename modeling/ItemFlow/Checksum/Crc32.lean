/-! The CRC-32 of IEEE 802.3, as save files carry it: the reflected register with
polynomial `0xEDB88320`, started at all ones and inverted at the end. -/
namespace ItemFlow

namespace Crc32

/-- One bit of the reflected register: shift right, folding the polynomial back in when a
one falls out. -/
def bitStep (c : UInt32) : UInt32 :=
  if c &&& 1 = 1 then (c >>> 1) ^^^ 0xEDB88320 else c >>> 1

/-- One byte: mix it into the low bits, then eight bit steps. -/
def byteStep (c : UInt32) (b : UInt8) : UInt32 :=
  Nat.repeat bitStep 8 (c ^^^ b.toUInt32)

def update (c : UInt32) (bytes : ByteArray) : UInt32 :=
  bytes.foldl byteStep c

def of (bytes : ByteArray) : UInt32 :=
  update 0xFFFFFFFF bytes ^^^ 0xFFFFFFFF

end Crc32

end ItemFlow
