import ItemFlow.Compress.Block
import ItemFlow.Checksum.Xxh64
/-! Compressed frames and the streams made of them. A stream is one or more frames, each
either a compressed frame or a skippable frame of opaque bytes; it must end exactly where
its last frame ends. A compressed frame is a header, a run of blocks (raw, one byte
repeated, or compressed) ending with the block marked last, and optionally the low half of
the content's 64-bit xxHash.

Two decoding regimes differ in small ways. A frame that declares a content size of at most
32 bytes and arrives whole before any byte has been produced is decoded in one pass; every
other frame is decoded as a stream, which caps the window at `2 ^ 27` bytes, caps each block
by the frame's block size, takes an empty compressed block for an empty raw one, and skips
the content size check when the last block is empty. -/
namespace ItemFlow

namespace Frame

def magic : Nat := 0xFD2FB528

/-- Whether a magic number opens a skippable frame: `0x184D2A50` to `0x184D2A5F`. -/
def isSkippable (m : Nat) : Bool := m / 16 = 0x184D2A5

def maxBlock : Nat := 131072

def maxWindow : Nat := 2 ^ (27 : Nat) + 1

/-- A compressed frame's header. -/
structure Header where
  windowSize : Nat
  contentSize : Option Nat
  checksum : Bool
  size : Nat
deriving Repr

def readHeader (src : ByteArray) (pos : Nat) : Except DecodeError Header := do
  let avail := src.size - pos
  if avail < 5 then throw .truncated
  let fhd := Bytes.byteAt src (pos + 4)
  let dictSize := [0, 1, 2, 4].getD (fhd % 4) 0
  let single := fhd / 32 % 2 = 1
  let fcsFlag := fhd / 64
  let fcsSize := if fcsFlag = 0 then (if single then 1 else 0) else [0, 2, 4, 8].getD fcsFlag 0
  let size := 5 + (if single then 0 else 1) + dictSize + fcsSize
  if avail < size then throw .truncated
  if fhd / 8 % 2 = 1 then throw .unsupported
  let windowSize ←
    if single then pure 0
    else
      let wd := Bytes.byteAt src (pos + 5)
      let log := wd / 8 + 10
      if log > 31 then throw .unsupported
      pure (2 ^ log + 2 ^ log / 8 * (wd % 8))
  let dictPos := pos + 5 + (if single then 0 else 1)
  if Bytes.readLE src dictPos dictSize ≠ 0 then throw .unsupported
  let fcsPos := dictPos + dictSize
  let contentSize :=
    if fcsSize = 0 then none
    else if fcsFlag = 1 then some (Bytes.readLE src fcsPos 2 + 256)
    else some (Bytes.readLE src fcsPos fcsSize)
  let windowSize := if single then contentSize.getD 0 else windowSize
  return ⟨windowSize, contentSize, fhd / 4 % 2 = 1, size⟩

/-- The total size of the frame at `pos` with header `h`, if all its blocks and its checksum
are present. -/
def extent (src : ByteArray) (pos : Nat) (h : Header) : Option Nat :=
  let rec go : Nat → Nat → Option Nat
    | 0, _ => none
    | fuel + 1, p =>
      if src.size - p < 3 then none
      else
        let bh := Bytes.readLE src p 3
        let kind := bh / 2 % 4
        if kind = 3 then none
        else
          let c := if kind = 1 then 1 else bh / 8
          if 3 + c > src.size - p then none
          else if bh % 2 = 1 then
            let e := p + 3 + c
            if h.checksum then (if src.size - e < 4 then none else some (e + 4 - pos))
            else some (e - pos)
          else go fuel (p + 3 + c)
  go (src.size + 1) (pos + h.size)

/-- Decode the blocks from `p` on. Returns the content, the position after the last block and
whether that block was empty. -/
def blocks (src : ByteArray) (h : Header) (onePass : Bool) (limit : Nat) :
    Nat → Nat → Entropy → ByteArray → Except DecodeError (ByteArray × Nat × Bool)
  | 0, _, _, _ => .error .truncated
  | fuel + 1, p, e, out => do
    if src.size - p < 3 then throw .truncated
    let bh := Bytes.readLE src p 3
    let last := bh % 2 = 1
    let kind := bh / 2 % 4
    let size := bh / 8
    if kind = 3 then throw .corrupt
    let c := if kind = 1 then 1 else size
    if !onePass && c > limit then throw .corrupt
    if src.size - (p + 3) < c then throw .truncated
    let start := p + 3
    let (out, e, empty) ←
      if c = 0 && !onePass then pure (out, e, true)
      else if kind = 0 then pure (out ++ src.extract start (start + c), e, false)
      else if kind = 1 then
        if !onePass && size > limit then throw .corrupt
        pure (Bytes.pushRepeat out (Bytes.byteAt src start).toUInt8 size, e, false)
      else
        let (out, e) ← e.decodeBlock src start c limit out
        pure (out, e, false)
    if h.contentSize.any (out.size > ·) then throw .corrupt
    if last then return (out, start + c, empty)
    blocks src h onePass limit fuel (start + c) e out

/-- Decode the compressed frame at `pos`. `fresh` says no byte of the stream has been
produced yet. Returns the content and the position after the frame. -/
def decode (src : ByteArray) (pos : Nat) (fresh : Bool) : Except DecodeError (ByteArray × Nat) := do
  let h ← readHeader src pos
  let onePass := fresh && h.contentSize.any (· ≤ 32) && (extent src pos h).isSome
  if !onePass && max h.windowSize 1024 > maxWindow then throw .unsupported
  let limit := min h.windowSize maxBlock
  let (out, p, emptyLast) ← blocks src h onePass limit (src.size + 1) (pos + h.size) {} .empty
  if let some n := h.contentSize then
    if out.size ≠ n && (onePass || !emptyLast) then throw .corrupt
  if h.checksum then
    if src.size - p < 4 then throw .truncated
    if Bytes.readLE src p 4 ≠ (Xxh64.digest out).toNat % 2 ^ (32 : Nat) then throw .checksum
    return (out, p + 4)
  return (out, p)

/-- Decode frame after frame until the input ends. -/
def decodeFrom (src : ByteArray) : Nat → Nat → ByteArray → Except DecodeError ByteArray
  | 0, _, _ => .error .truncated
  | fuel + 1, pos, out =>
    if pos = src.size then .ok out
    else if src.size - pos < 4 then .error .truncated
    else
      let m := Bytes.readLE src pos 4
      if m = magic then
        match decode src pos (out.size = 0) with
        | .ok (content, next) => decodeFrom src fuel next (out ++ content)
        | .error e => .error e
      else if isSkippable m then
        if src.size - pos < 8 then .error .truncated
        else
          let skip := Bytes.readLE src (pos + 4) 4
          if src.size - pos - 8 < skip then .error .truncated
          else decodeFrom src fuel (pos + 8 + skip) out
      else .error .unknownFrame

/-- Decode a whole stream. An empty input holds no frame and is refused. -/
def decodeAll (src : ByteArray) : Except DecodeError ByteArray :=
  if src.size = 0 then .error .truncated else decodeFrom src (src.size + 1) 0 .empty

/-- Raw blocks holding `content` from `pos` on, the last one marked. -/
def rawBlocks (content : ByteArray) : Nat → Nat → ByteArray → ByteArray
  | 0, _, out => out
  | fuel + 1, pos, out =>
    let n := min maxBlock (content.size - pos)
    let last := pos + n ≥ content.size
    let out := Bytes.putLE out (n * 8 + (if last then 1 else 0)) 3
    let out := out ++ content.extract pos (pos + n)
    if last then out else rawBlocks content fuel (pos + n) out

/-- A frame that stores `content` in raw blocks, headed as a streaming compressor heads it:
no content size and no checksum, and a window of `2 ^ 21` bytes, so that content of any size
is decoded as a stream. -/
def encodeRaw (content : ByteArray) : ByteArray :=
  let head := Bytes.putLE .empty magic 4
  let head := (head.push 0x00).push 0x58
  rawBlocks content (content.size / maxBlock + 1) 0 head

end Frame

end ItemFlow
