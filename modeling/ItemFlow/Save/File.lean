import ItemFlow.Save.Binary
import ItemFlow.Compress.Frame
import ItemFlow.Checksum.Crc32
/-! Save files. A fourteen-byte header (magic `0x484C4245`, format version 1, the CRC-32 of
the payload and the payload's length, all little-endian) is followed by the payload: the
compressed binary form of the record list. Bytes after the payload are ignored. -/
namespace ItemFlow

namespace SaveFile

def magic : Nat := 0x484C4245

def version : Nat := 1

def headerSize : Nat := 14

/-- Why a save file could not be read. -/
inductive LoadError where
  /-- Fewer bytes than a header. -/
  | header
  /-- The file does not open with the magic number. -/
  | magic (found : Nat)
  /-- A format version other than 1. -/
  | version (found : Nat)
  /-- Fewer payload bytes than the header announces. -/
  | payload
  /-- The payload's CRC-32 differs from the header's. -/
  | checksum (stored computed : Nat)
  /-- The payload does not decompress. -/
  | decompress
  /-- The decompressed bytes are not a record list. -/
  | records
deriving DecidableEq, Repr

/-- The message reported for a load failure. -/
def LoadError.message : LoadError → String
  | .header => "Failed to read save header"
  | .magic m => "Invalid save magic: expected 0x484C4245, got 0x" ++ Bytes.hexUpper 8 m
  | .version v => "Unsupported save version " ++ toString v
  | .payload => "Failed to read save payload"
  | .checksum s c => "CRC32 mismatch: expected " ++ Bytes.hexUpper 8 s ++ ", got " ++ Bytes.hexUpper 8 c
  | .decompress => "Failed to decompress save"
  | .records => "Failed to deserialize block records"

/-- The bytes of a save file holding a record list, its binary form wrapped by `frame`. -/
def write (frame : ByteArray → ByteArray) (rs : List Record) : ByteArray :=
  let payload := frame (Binary.encode rs)
  let head := Bytes.putLE .empty magic 4
  let head := Bytes.putLE head version 2
  let head := Bytes.putLE head (Crc32.of payload).toNat 4
  Bytes.putLE head payload.size 4 ++ payload

def read (bytes : ByteArray) : Except LoadError (List Record) := do
  if bytes.size < headerSize then throw .header
  let m := Bytes.readLE bytes 0 4
  if m ≠ magic then throw (.magic m)
  let v := Bytes.readLE bytes 4 2
  if v ≠ version then throw (.version v)
  let stored := Bytes.readLE bytes 6 4
  let len := Bytes.readLE bytes 10 4
  if bytes.size - headerSize < len then throw .payload
  let payload := bytes.extract headerSize (headerSize + len)
  let computed := (Crc32.of payload).toNat
  if computed ≠ stored then throw (.checksum stored computed)
  let raw ← match Frame.decodeAll payload with
    | .ok raw => pure raw
    | .error _ => throw .decompress
  match Binary.decode raw with
  | some rs => return rs
  | none => throw .records

end SaveFile

end ItemFlow
