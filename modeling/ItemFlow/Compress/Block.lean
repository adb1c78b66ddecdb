import ItemFlow.Compress.Huffman
import ItemFlow.Compress.Sequences
/-! Compressed blocks: a literals section, then a sequence section that interleaves those
literals with matches. The Huffman table, the sequence tables and the recent offsets carry
over from block to block within a frame. -/
namespace ItemFlow

/-- What a frame's blocks hand on to the next: the last Huffman table, the last sequence
tables and the three recent offsets. -/
structure Entropy where
  prefixTable : Option PrefixTable := none
  tables : Option Sequences.Tables := none
  recent : UInt32 × UInt32 × UInt32 := (1, 4, 8)

namespace Literals

/-- The size fields of a raw or single-byte literals header: the header's length and the
literal count. -/
def plainHeader (src : ByteArray) (start size : Nat) (rle : Bool) : Except DecodeError (Nat × Nat) :=
  let b0 := Bytes.byteAt src start
  match b0 / 4 % 4 with
  | 1 => if rle && size < 3 then .error .corrupt else .ok (2, Bytes.readLE src start 2 / 16)
  | 3 =>
    if size < (if rle then 4 else 3) then .error .corrupt
    else .ok (3, Bytes.readLE src start 3 / 16)
  | _ => .ok (1, b0 / 8)

/-- Read the literals section from the `size` bytes at `start`: raw bytes, one byte
repeated, or Huffman-coded in one or four streams with a new or the previous table. At most
`limit` literals are allowed. Returns the literals, the section's size and the Huffman table
to keep. -/
def read (src : ByteArray) (start size limit : Nat) (previous : Option PrefixTable) :
    Except DecodeError (ByteArray × Nat × Option PrefixTable) := do
  if size < 2 then throw .corrupt
  let b0 := Bytes.byteAt src start
  match b0 % 4 with
  | 0 =>
    let (hs, n) ← plainHeader src start size false
    if n > limit then throw .corrupt
    if hs + n > size then throw .corrupt
    return (src.extract (start + hs) (start + hs + n), hs + n, previous)
  | 1 =>
    let (hs, n) ← plainHeader src start size true
    if n > limit then throw .corrupt
    return (Bytes.pushRepeat .empty (Bytes.byteAt src (start + hs)).toUInt8 n, hs + 1, previous)
  | kind =>
    if kind = 3 && previous.isNone then throw .corrupt
    if size < 5 then throw .corrupt
    let lhc := Bytes.readLE src start 4
    let (hs, n, csize, single) :=
      match b0 / 4 % 4 with
      | 2 => (4, lhc / 16 % 2 ^ (14 : Nat), lhc / 2 ^ (18 : Nat), false)
      | 3 => (5, lhc / 16 % 2 ^ (18 : Nat), lhc / 2 ^ (22 : Nat) + Bytes.byteAt src (start + 4) * 2 ^ (10 : Nat), false)
      | code => (3, lhc / 16 % 2 ^ (10 : Nat), lhc / 2 ^ (14 : Nat) % 2 ^ (10 : Nat), code = 0)
    if n > limit then throw .corrupt
    if !single && n < 6 then throw .corrupt
    if csize + hs > size then throw .corrupt
    let body := start + hs
    let (table, treeSize) ←
      match kind, previous with
      | 3, some t => pure (t, 0)
      | _, _ => do
        if csize = 0 then throw .corrupt
        let (t, used) ← PrefixTable.read src body csize
        if used ≥ csize then throw .corrupt
        pure (t, used)
    let streams := body + treeSize
    let lits ←
      if single then table.decodeStream src streams (csize - treeSize) n .empty
      else table.decodeFour src streams (csize - treeSize) n .empty
    return (lits, hs + csize, some table)

end Literals

/-- Decode a compressed block of `size` bytes at `start` onto the frame's output, producing
at most `limit` bytes. -/
def Entropy.decodeBlock (e : Entropy) (src : ByteArray) (start size limit : Nat) (out : ByteArray) :
    Except DecodeError (ByteArray × Entropy) := do
  if size > limit then throw .corrupt
  let (lits, used, prefixTable) ← Literals.read src start size limit e.prefixTable
  let (count, tables, hdr) ← Sequences.readHeader src (start + used) (size - used) e.tables
  let e := { e with prefixTable }
  match count, tables with
  | 0, _ =>
    if lits.size > limit then throw .corrupt
    return (out ++ lits, e)
  | _, none => throw .corrupt
  | _, some t =>
    let pos := start + used + hdr
    let (out, recent) ← Sequences.decode t src pos (start + size - pos) count lits e.recent limit out
    return (out, { e with tables := some t, recent })

end ItemFlow
