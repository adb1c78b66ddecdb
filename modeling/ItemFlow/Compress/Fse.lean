import ItemFlow.Compress.BackBits
import ItemFlow.Compress.Error
/-! Finite-state entropy tables. A table description lists how many of the `2 ^ log` cells
each symbol owns; the cells are spread over the table in a fixed stride, and every cell then
names its symbol, how many bits to read next and the state those bits are added to.

The description reader follows the reference decoder step for step, including how it reads
near the end of its input: it keeps a four-byte window that stops advancing four bytes
before the end, so bits past the end read as zeros. -/
namespace ItemFlow

/-- A normalised distribution: `counts[s]` cells for symbol `s`, where `-1` marks a symbol
rarer than one cell, which still gets one cell of its own at the top of the table. -/
structure Distribution where
  log : Nat
  counts : Array Int
deriving Repr

/-- One state of a decoding table: its symbol, and the next state as `base` plus the value of
the next `bits` bits. -/
structure Cell where
  symbol : Nat
  bits : Nat
  base : Nat
deriving Repr, Inhabited

/-- A decoding table of `2 ^ log` cells. -/
structure Table where
  log : Nat
  cells : Array Cell
deriving Repr

namespace Distribution

/-- The scanning state of a table description: a byte position, a bit count within the
four-byte window read there, that window shifted by the bit count, the next symbol, the
cells still to hand out, the current field width and whether the last count was zero. -/
structure Scan where
  ip : Int
  bitCount : Int
  window : Nat
  symbol : Nat
  remaining : Int
  threshold : Int
  width : Nat
  afterZero : Bool
  counts : Array Int

def window32 (buf : ByteArray) (ip : Int) : Nat := Bytes.readLE buf ip.toNat 4

/-- How many of the low 31 bits of `x` are ones before the first zero. -/
def trailingOnes : Nat → Nat → Nat
  | 0, _ => 0
  | k + 1, x => if x % 2 = 1 then 1 + trailingOnes k (x / 2) else 0

/-- Move the window forward over the bits counted so far. Near the end of the input the
window stays four bytes before the end and the bit count is taken modulo 32. -/
def refill (buf : ByteArray) (ip bitCount : Int) : Int × Int × Nat :=
  let iend : Int := buf.size
  if ip ≤ iend - 7 ∨ ip + (bitCount.toNat / 8 : Nat) ≤ iend - 4 then
    let ip := ip + (bitCount.toNat / 8 : Nat)
    let bitCount := Int.emod bitCount 8
    (ip, bitCount, window32 buf ip >>> bitCount.toNat)
  else
    let bitCount := Int.emod (bitCount - 8 * (iend - 4 - ip)) 32
    let ip := iend - 4
    (ip, bitCount, window32 buf ip >>> bitCount.toNat)

/-- Skip whole groups of twelve two-bit repeat codes, 36 zero-count symbols each. -/
def longRuns (buf : ByteArray) : Nat → Int → Int → Nat → Nat → Int × Int × Nat × Nat
  | 0, ip, bitCount, window, symbol => (ip, bitCount, window, symbol)
  | fuel + 1, ip, bitCount, window, symbol =>
    if trailingOnes 31 window / 2 < 12 then (ip, bitCount, window, symbol)
    else
      let iend : Int := buf.size
      let (ip, bitCount) :=
        if ip ≤ iend - 7 then (ip + 3, bitCount)
        else (iend - 4, Int.emod (bitCount - 8 * (iend - 7 - ip)) 32)
      longRuns buf fuel ip bitCount (window32 buf ip >>> bitCount.toNat) (symbol + 36)

/-- After a zero count: the run of further zero-count symbols. Returns whether the symbol
limit `bound` was reached, which ends the description. -/
def zeroRun (buf : ByteArray) (bound : Nat) (s : Scan) : Bool × Scan :=
  let (ip, bitCount, window, symbol) := longRuns buf (buf.size + 16) s.ip s.bitCount s.window s.symbol
  let repeats := trailingOnes 31 window / 2
  let symbol := symbol + 3 * repeats
  let window := window >>> (2 * repeats)
  let bitCount := bitCount + 2 * repeats
  let symbol := symbol + window % 4
  let bitCount := bitCount + 2
  if symbol ≥ bound then (true, { s with ip, bitCount, window, symbol })
  else
    let (ip, bitCount, window) := refill buf ip bitCount
    (false, { s with ip, bitCount, window, symbol })

/-- One count. Small values take one bit less than the field width when that is enough to
tell them apart. Returns whether the description ends here. -/
def countStep (buf : ByteArray) (bound : Nat) (s : Scan) : Bool × Scan :=
  let t := s.threshold
  let max := 2 * t - 1 - s.remaining
  let low : Int := (s.window % t.toNat : Nat)
  let (count, bitCount) :=
    if max < 0 ∨ low < max then (low, s.bitCount + s.width - 1)
    else
      let c : Int := (s.window % (2 * t).toNat : Nat)
      (if c ≥ t then c - max else c, s.bitCount + s.width)
  let count := count - 1
  let remaining := if count ≥ 0 then s.remaining - count else s.remaining + count
  let counts := (s.counts ++ Array.replicate (s.symbol - s.counts.size) 0).push count
  let s := { s with bitCount, remaining, counts, symbol := s.symbol + 1, afterZero := count = 0 }
  let (stop, s) :=
    if remaining < t then
      if remaining ≤ 1 then (true, s)
      else
        let width := Nat.log2 remaining.toNat + 1
        (false, { s with width, threshold := (2 ^ (width - 1) : Nat) })
    else (false, s)
  if stop || s.symbol ≥ bound then (true, s)
  else
    let (ip, bitCount, window) := refill buf s.ip s.bitCount
    (false, { s with ip, bitCount, window })

/-- Scan counts until the cells run out or the symbol limit is reached. -/
def scan (buf : ByteArray) (bound : Nat) : Nat → Scan → Scan
  | 0, s => s
  | fuel + 1, s =>
    let (stop, s) := if s.afterZero then zeroRun buf bound s else (false, s)
    if stop then s
    else
      let (stop, s) := countStep buf bound s
      if stop then s else scan buf bound fuel s

/-- Read a description from a buffer of at least eight bytes; returns it with the number of
bytes it takes. -/
def readPadded (buf : ByteArray) (bound : Nat) : Except DecodeError (Distribution × Nat) :=
  let first := window32 buf 0
  let log := first % 16 + 5
  if log > 15 then .error .corrupt
  else
    let s := scan buf bound (bound + 2)
      ⟨0, 4, first >>> 4, 0, (2 ^ log + 1 : Nat), (2 ^ log : Nat), log + 1, false, #[]⟩
    if s.remaining ≠ 1 then .error .corrupt
    else if s.symbol > bound then .error .corrupt
    else if s.bitCount > 32 then .error .corrupt
    else .ok (⟨log, s.counts⟩, (s.ip + (s.bitCount + 7) / 8).toNat)

/-- Read a table description of symbols up to `maxSymbol` from the `size` bytes at `start`;
returns it with the number of bytes it takes. A description shorter than eight bytes is read
from a zero-padded copy and must end within its own bytes. -/
def read (src : ByteArray) (start size maxSymbol : Nat) : Except DecodeError (Distribution × Nat) :=
  let bytes := Bytes.slice src start size
  if bytes.size < 8 then
    match readPadded (Bytes.pushRepeat bytes 0 (8 - bytes.size)) (maxSymbol + 1) with
    | .ok (d, used) => if used > bytes.size then .error .corrupt else .ok (d, used)
    | .error e => .error e
  else readPadded bytes (maxSymbol + 1)

end Distribution

namespace Table

/-- Step a position on by the stride until it leaves the top cells reserved for rare
symbols. -/
def skipHigh (size step high : Nat) : Nat → Nat → Nat
  | 0, position => position
  | fuel + 1, position =>
    if position > high then skipHigh size step high fuel ((position + step) % size) else position

/-- The table of a distribution. Symbols below one cell take the top cells, one each, in
symbol order; the other cells are dealt out symbol by symbol with a stride of
`size / 2 + size / 8 + 3`, skipping the top cells; then the `k`-th cell of a symbol with `n`
cells reads enough bits to reach the next power of two above `n + k`. -/
def build (d : Distribution) : Except DecodeError Table := Id.run do
  let size := 2 ^ d.log
  let counts := d.counts
  let mut symbols : Array Nat := Array.replicate size 0
  let mut next : Array Nat := Array.replicate counts.size 0
  let mut high := size - 1
  let mut low := false
  for s in [0:counts.size] do
    let c := counts.getD s 0
    if c = -1 then
      symbols := symbols.modify high fun _ => s
      high := high - 1
      next := next.modify s fun _ => 1
      low := true
    else
      next := next.modify s fun _ => c.toNat
  let step := size / 2 + size / 8 + 3
  let mut position := 0
  for s in [0:counts.size] do
    let c := counts.getD s 0
    for _ in [0:c.toNat] do
      symbols := symbols.modify position fun _ => s
      position := skipHigh size step high size ((position + step) % size)
  if low && position ≠ 0 then return .error .corrupt
  let mut cells : Array Cell := Array.mkEmpty size
  for u in [0:size] do
    let s := symbols.getD u 0
    let n := next.getD s 0
    next := next.modify s fun _ => (n + 1)
    let bits := d.log - Nat.log2 n
    cells := cells.push ⟨s, bits, (n <<< bits) - size⟩
  return .ok ⟨d.log, cells⟩

/-- The one-cell table that always yields `symbol` and reads no bits. -/
def single (symbol : Nat) : Table := ⟨0, #[⟨symbol, 0, 0⟩]⟩

def cell (t : Table) (state : Nat) : Cell := t.cells.getD state default

def start (t : Table) (s : BackBits) : Nat × BackBits := s.read t.log

def advance (t : Table) (state : Nat) (s : BackBits) : Nat × BackBits :=
  let c := t.cell state
  let (v, s) := s.read c.bits
  (c.base + v, s)

end Table

end ItemFlow
