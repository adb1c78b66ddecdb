import ItemFlow.Compress.Fse
/-! Sequences: each copies a run of literals to the output and then a match, a run of bytes
already written `offset` bytes back. Literal lengths, match lengths and offsets are coded
as small code numbers through three finite-state tables, each code followed by extra bits.
Offsets 1 to 3 refer to the three most recent offsets, kept from block to block. -/
namespace ItemFlow

namespace Sequences

/-- Literal length codes: the base value and the number of extra bits of each code. -/
def literalCodes : Array (Nat × Nat) :=
  (Array.range 16).map (fun n => (n, 0)) ++
  #[(16, 1), (18, 1), (20, 1), (22, 1), (24, 2), (28, 2), (32, 3), (40, 3), (48, 4), (64, 6),
    (128, 7), (256, 8), (512, 9), (1024, 10), (2048, 11), (4096, 12), (8192, 13), (16384, 14),
    (32768, 15), (65536, 16)]

/-- Match length codes: the base value and the number of extra bits of each code. -/
def matchCodes : Array (Nat × Nat) :=
  (Array.range 32).map (fun n => (n + 3, 0)) ++
  #[(35, 1), (37, 1), (39, 1), (41, 1), (43, 2), (47, 2), (51, 3), (59, 3), (67, 4), (83, 4),
    (99, 5), (131, 7), (259, 8), (515, 9), (1027, 10), (2051, 11), (4099, 12), (8195, 13),
    (16387, 14), (32771, 15), (65539, 16)]

def literalDefault : Distribution :=
  ⟨6, #[4, 3, 2, 2, 2, 2, 2, 2, 2, 2, 2, 2, 2, 1, 1, 1, 2, 2, 2, 2, 2, 2, 2, 2, 2, 3, 2, 1, 1,
    1, 1, 1, -1, -1, -1, -1]⟩

def matchDefault : Distribution :=
  ⟨6, #[1, 4, 3, 2, 2, 2, 2, 2, 2, 1, 1, 1, 1, 1, 1, 1, 1, 1, 1, 1, 1, 1, 1, 1, 1, 1, 1, 1, 1,
    1, 1, 1, 1, 1, 1, 1, 1, 1, 1, 1, 1, 1, 1, 1, 1, 1, -1, -1, -1, -1, -1, -1, -1]⟩

def offsetDefault : Distribution :=
  ⟨5, #[1, 1, 1, 1, 1, 1, 2, 2, 2, 1, 1, 1, 1, 1, 1, 1, 1, 1, 1, 1, 1, 1, 1, 1, -1, -1, -1, -1,
    -1]⟩

def defaultTable (d : Distribution) : Table :=
  match Table.build d with
  | .ok t => t
  | .error _ => Table.single 0

/-- The three tables of a block, in stream order: literal lengths, offsets, match lengths. -/
structure Tables where
  literals : Table
  offsets : Table
  matchLengths : Table

/-- Read one table: predefined (mode 0), a single code (mode 1), described (mode 2) or the
previous block's (mode 3). Returns the table and the bytes its description takes. -/
def readTable (mode maxCode maxLog : Nat) (default : Distribution) (previous : Option Table)
    (src : ByteArray) (start avail : Nat) : Except DecodeError (Table × Nat) :=
  match mode with
  | 0 => .ok (defaultTable default, 0)
  | 1 =>
    if avail = 0 then .error .corrupt
    else
      let code := Bytes.byteAt src start
      if code > maxCode then .error .corrupt else .ok (Table.single code, 1)
  | 2 => do
    let (d, used) ← Distribution.read src start avail maxCode
    if d.log > maxLog then throw .corrupt
    return (← Table.build d, used)
  | _ =>
    match previous with
    | some t => .ok (t, 0)
    | none => .error .corrupt

/-- Read the sequence section header from the `size` bytes at `start`: the number of
sequences and, when there are any, the three tables. Returns them with the header's size.
A section without sequences must end right after its count. -/
def readHeader (src : ByteArray) (start size : Nat) (previous : Option Tables) :
    Except DecodeError (Nat × Option Tables × Nat) := do
  if size < 1 then throw .corrupt
  let b0 := Bytes.byteAt src start
  let (count, used) ←
    if b0 < 128 then pure (b0, 1)
    else if b0 = 255 then
      if size < 3 then throw .corrupt
      pure (Bytes.readLE src (start + 1) 2 + 0x7F00, 3)
    else
      if size < 2 then throw .corrupt
      pure ((b0 - 128) * 256 + Bytes.byteAt src (start + 1), 2)
  if count = 0 then
    if used ≠ size then throw .corrupt
    return (0, previous, used)
  if used + 1 > size then throw .corrupt
  let modes := Bytes.byteAt src (start + used)
  if modes % 4 ≠ 0 then throw .corrupt
  let pos := start + used + 1
  let (ll, a) ← readTable (modes / 64) 35 9 literalDefault (previous.map (·.literals)) src pos (start + size - pos)
  let pos := pos + a
  let (of, b) ← readTable (modes / 16 % 4) 31 8 offsetDefault (previous.map (·.offsets)) src pos (start + size - pos)
  let pos := pos + b
  let (ml, c) ← readTable (modes / 4 % 4) 52 9 matchDefault (previous.map (·.matchLengths)) src pos (start + size - pos)
  return (count, some ⟨ll, of, ml⟩, pos + c - start)

/-- The three most recent offsets. Within a block they are machine words, so a repeat of
offset `1` minus one wraps to the largest word, an offset no output can reach. -/
abbrev Recent := UInt64 × UInt64 × UInt64

/-- One decoded sequence. -/
structure Sequence where
  literals : Nat
  matchLength : Nat
  offset : UInt64

/-- The decoder's position: the bit stream, the three table states and the recent offsets. -/
structure Cursor where
  bits : BackBits
  ll : Nat
  of : Nat
  ml : Nat
  recent : Recent

/-- Resolve an offset code with its extra bits. Codes 0 and 1 repeat a recent offset, shifted
by one when the sequence has no literals; larger codes give a new offset. -/
def resolveOffset (code : Nat) (noLiterals : Bool) (c : Cursor) : UInt64 × Cursor :=
  let (r0, r1, r2) := c.recent
  if code > 1 then
    let (v, bits) := c.bits.read code
    let offset := (2 ^ code - 3 + v).toUInt64
    (offset, { c with bits, recent := (offset, r0, r1) })
  else if code = 0 then
    let offset := if noLiterals then r1 else r0
    (offset, { c with recent := (offset, if noLiterals then r0 else r1, r2) })
  else
    let (v, bits) := c.bits.read 1
    let index := 1 + (if noLiterals then 1 else 0) + v
    let picked := if index = 3 then r0 - 1 else if index = 1 then r1 else r2
    let offset := if picked = 0 then picked - 1 else picked
    let recent := if index = 1 then (offset, r0, r2) else (offset, r0, r1)
    (offset, { c with bits, recent })

/-- Decode one sequence: offset bits, then match length bits, then literal length bits; then,
unless it is the last, the three states move on in the order literal lengths, match lengths,
offsets. -/
def decodeOne (t : Tables) (last : Bool) (c : Cursor) : Sequence × Cursor :=
  let llCell := t.literals.cell c.ll
  let mlCell := t.matchLengths.cell c.ml
  let ofCell := t.offsets.cell c.of
  let (llBase, llBits) := literalCodes.getD llCell.symbol (0, 0)
  let (mlBase, mlBits) := matchCodes.getD mlCell.symbol (0, 0)
  let (offset, c) := resolveOffset ofCell.symbol (llBase = 0) c
  let (mlExtra, bits) := c.bits.read mlBits
  let (llExtra, bits) := bits.read llBits
  let c := { c with bits }
  let c :=
    if last then c
    else
      let (ll, bits) := t.literals.advance c.ll c.bits
      let (ml, bits) := t.matchLengths.advance c.ml bits
      let (of, bits) := t.offsets.advance c.of bits
      { c with bits, ll, ml, of }
  (⟨llBase + llExtra, mlBase + mlExtra, offset⟩, c)

/-- Append `n` bytes copied from `dist` bytes back, one at a time, so a match may overlap the
bytes it is producing. -/
def copyBack (dist : Nat) : Nat → ByteArray → ByteArray
  | 0, out => out
  | n + 1, out => copyBack dist n (out.push (Bytes.byteAt out (out.size - dist)).toUInt8)

/-- Run one sequence: its literals, then its match. The literals must be available, the
match must reach no further back than the frame's first byte, and the block must stay
within `limit` bytes from `blockStart`. -/
def execute (lits : ByteArray) (litPos blockStart limit : Nat) (s : Sequence) (out : ByteArray) :
    Except DecodeError (ByteArray × Nat) :=
  if litPos + s.literals > lits.size then .error .corrupt
  else if out.size + s.literals + s.matchLength - blockStart > limit then .error .corrupt
  else
    let out := out ++ lits.extract litPos (litPos + s.literals)
    if s.offset.toNat > out.size then .error .corrupt
    else .ok (copyBack s.offset.toNat s.matchLength out, litPos + s.literals)

/-- Decode and run `n` sequences. A read past the start of the stream fails at once. -/
def run (t : Tables) (lits : ByteArray) (blockStart limit : Nat) :
    Nat → Cursor → Nat → ByteArray → Except DecodeError (Cursor × Nat × ByteArray)
  | 0, c, litPos, out => .ok (c, litPos, out)
  | n + 1, c, litPos, out =>
    let (s, c) := decodeOne t (n = 0) c
    if c.bits.overrun then .error .corrupt
    else
      match execute lits litPos blockStart limit s out with
      | .error e => .error e
      | .ok (out, litPos) => run t lits blockStart limit n c litPos out

/-- Decode the sequence bit stream of `size` bytes at `start`, running `count` sequences on
`out`, then append the literals left over. The stream must be read exactly. Returns the
output and the recent offsets for the next block. -/
def decode (t : Tables) (src : ByteArray) (start size count : Nat) (lits : ByteArray)
    (recent : UInt32 × UInt32 × UInt32) (limit : Nat) (out : ByteArray) :
    Except DecodeError (ByteArray × (UInt32 × UInt32 × UInt32)) := do
  let some bits := BackBits.init src start size | throw .corrupt
  let (ll, bits) := t.literals.start bits
  let (of, bits) := t.offsets.start bits
  let (ml, bits) := t.matchLengths.start bits
  let (r0, r1, r2) := recent
  let blockStart := out.size
  let (c, litPos, out) ← run t lits blockStart limit count
    ⟨bits, ll, of, ml, (r0.toUInt64, r1.toUInt64, r2.toUInt64)⟩ 0 out
  if !c.bits.exhausted then throw .corrupt
  let rest := lits.size - litPos
  if out.size + rest - blockStart > limit then throw .corrupt
  let (r0, r1, r2) := c.recent
  return (out ++ lits.extract litPos lits.size, (r0.toUInt32, r1.toUInt32, r2.toUInt32))

end Sequences

end ItemFlow
