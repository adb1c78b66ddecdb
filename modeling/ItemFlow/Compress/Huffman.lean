import ItemFlow.Compress.Fse
/-! Huffman-coded literals. A tree is described by one weight per symbol; weight `w > 0`
gives a code of `log + 1 - w` bits, and the last symbol's weight is implied by making the
code complete. Codes are read from backward bit streams by looking up the next `log` bits. -/
namespace ItemFlow

/-- A prefix-code decoding table: entry `v` holds the symbol whose code the `log`-bit value
`v` starts with, and that code's length. -/
structure PrefixTable where
  log : Nat
  cells : Array (Nat × Nat)
deriving Repr

namespace PrefixTable

/-- Weights compressed with a small finite-state table: two states take turns, each emitting
its symbol before reading its next state. When a read runs past the start of the stream,
the other state emits one last symbol and decoding stops. At most 255 weights fit. -/
def alternate (t : Table) : Nat → Nat → Nat → BackBits → Array Nat → Except DecodeError (Array Nat)
  | 0, _, _, _, _ => .error .corrupt
  | fuel + 1, a, b, s, out =>
    if out.size > 253 then .error .corrupt
    else
      let out := out.push (t.cell a).symbol
      let (a, s) := t.advance a s
      if s.overrun then .ok (out.push (t.cell b).symbol)
      else alternate t fuel b a s out

def fseWeights (src : ByteArray) (start size : Nat) : Except DecodeError (Array Nat) := do
  let (d, used) ← Distribution.read src start size 255
  if d.log > 6 then throw .corrupt
  let t ← Table.build d
  let some s := BackBits.init src (start + used) (size - used) | throw .corrupt
  let (a, s) := t.start s
  let (b, s) := t.start s
  if s.overrun then throw .corrupt
  alternate t 256 a b s #[]

/-- Weights stored four bits each, high half first. -/
def directWeights (src : ByteArray) (start n : Nat) : Array Nat :=
  (Array.range n).map fun i =>
    let b := Bytes.byteAt src (start + i / 2)
    if i % 2 = 0 then b / 16 else b % 16

/-- The table of a complete weight list: symbols of weight 1 first, then weight 2, and so on,
each in symbol order, a symbol of weight `w` taking `2 ^ (w - 1)` consecutive entries. -/
def build (log : Nat) (weights : Array Nat) : PrefixTable := Id.run do
  let mut cells : Array (Nat × Nat) := Array.mkEmpty (2 ^ log)
  for w in [1:log + 1] do
    for n in [0:weights.size] do
      if weights.getD n 0 = w then
        cells := cells ++ Array.replicate (2 ^ (w - 1)) (n, log + 1 - w)
  return ⟨log, cells⟩

/-- Read a tree description from the `avail` bytes at `start`; returns the table and the
number of bytes the description takes. Weights above 12, a code longer than 12 bits, an
implied weight that does not complete the code, or an odd number of one-weight symbols
are refused. -/
def read (src : ByteArray) (start avail : Nat) : Except DecodeError (PrefixTable × Nat) := do
  if avail = 0 then throw .corrupt
  let header := Bytes.byteAt src start
  let (weights, used) ←
    if header ≥ 128 then
      let n := header - 127
      if (n + 1) / 2 + 1 > avail then throw .corrupt
      pure (directWeights src (start + 1) n, (n + 1) / 2 + 1)
    else
      if header + 1 > avail then throw .corrupt
      pure (← fseWeights src (start + 1) header, header + 1)
  if weights.any (· > 12) then throw .corrupt
  let total := weights.foldl (fun acc w => acc + 2 ^ w / 2) 0
  if total = 0 then throw .corrupt
  let log := Nat.log2 total + 1
  if log > 12 then throw .corrupt
  let rest := 2 ^ log - total
  if 2 ^ Nat.log2 rest ≠ rest then throw .corrupt
  let weights := weights.push (Nat.log2 rest + 1)
  let ones := weights.count 1
  if ones < 2 || ones % 2 = 1 then throw .corrupt
  return (build log weights, used)

def decodeRun (p : PrefixTable) : Nat → BackBits → ByteArray → BackBits × ByteArray
  | 0, s, out => (s, out)
  | n + 1, s, out =>
    let (sym, bits) := p.cells.getD (s.peek p.log) (0, 0)
    decodeRun p n (s.skip bits) (out.push sym.toUInt8)

/-- Decode one stream of exactly `n` symbols from the `size` bytes at `start`: the stream
must hold those symbols and nothing more. -/
def decodeStream (p : PrefixTable) (src : ByteArray) (start size n : Nat) (out : ByteArray) :
    Except DecodeError ByteArray := do
  let some s := BackBits.init src start size | throw .corrupt
  let (s, out) := decodeRun p n s out
  if s.exhausted then return out else throw .corrupt

/-- Decode `n` symbols split over four streams. A six-byte jump table gives the sizes of the
first three streams; the first three carry `⌈n / 4⌉` symbols each and the last the rest. -/
def decodeFour (p : PrefixTable) (src : ByteArray) (start size n : Nat) (out : ByteArray) :
    Except DecodeError ByteArray := do
  if size < 10 || n < 6 then throw .corrupt
  let l1 := Bytes.readLE src start 2
  let l2 := Bytes.readLE src (start + 2) 2
  let l3 := Bytes.readLE src (start + 4) 2
  if l1 + l2 + l3 + 6 > size then throw .corrupt
  let l4 := size - 6 - l1 - l2 - l3
  let seg := (n + 3) / 4
  if 3 * seg > n then throw .corrupt
  let s1 := start + 6
  let out ← decodeStream p src s1 l1 seg out
  let out ← decodeStream p src (s1 + l1) l2 seg out
  let out ← decodeStream p src (s1 + l1 + l2) l3 seg out
  decodeStream p src (s1 + l1 + l2 + l3) l4 (n - 3 * seg) out

end PrefixTable

end ItemFlow
