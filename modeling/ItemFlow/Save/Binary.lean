import ItemFlow.Save.Record
import ItemFlow.Bytes
/-! The binary form of a record list: integers little-endian at their own width, lengths as
64-bit counts, variants as 32-bit indices in declaration order, booleans as one byte 0 or 1,
strings as UTF-8 after their length. Reading stops after the last record; bytes after it
are ignored. -/
namespace ItemFlow

namespace Binary

/-- Append a signed value as a two's-complement word of `width` bytes. -/
def putSigned (b : ByteArray) (v : Int) (width : Nat) : ByteArray :=
  Bytes.putLE b (Int.emod v (2 ^ (8 * width))).toNat width

def putBytes (b : ByteArray) (bytes : ByteArray) : ByteArray :=
  Bytes.putLE b bytes.size 8 ++ bytes

def putString (b : ByteArray) (s : String) : ByteArray := putBytes b s.toUTF8

mutual
/-- Append a field value: its variant index, then its payload. -/
def putField (b : ByteArray) : Field → ByteArray
  | .byte v => putSigned (Bytes.putLE b 0 4) v.toInt 1
  | .short v => putSigned (Bytes.putLE b 1 4) v.toInt 2
  | .int v => putSigned (Bytes.putLE b 2 4) v.toInt 4
  | .long v => putSigned (Bytes.putLE b 3 4) v.toInt 8
  | .string s => putString (Bytes.putLE b 4 4) s
  | .bytes bs => putBytes (Bytes.putLE b 5 4) (ByteArray.mk bs.toArray)
  | .list vs => putFields (Bytes.putLE (Bytes.putLE b 6 4) vs.length 8) vs
  | .compound m => putEntries (Bytes.putLE (Bytes.putLE b 7 4) m.length 8) m

def putFields (b : ByteArray) : List Field → ByteArray
  | [] => b
  | v :: vs => putFields (putField b v) vs

def putEntries (b : ByteArray) : List (String × Field) → ByteArray
  | [] => b
  | (k, v) :: rest => putEntries (putField (putString b k) v) rest
end

/-- Append a record: position, kind, fields. -/
def putRecord (b : ByteArray) (r : Record) : ByteArray :=
  let b := putSigned (putSigned (putSigned b r.pos.x.toInt 4) r.pos.y.toInt 4) r.pos.z.toInt 4
  let b := match r.kind with
    | .solid id => Bytes.putLE (Bytes.putLE b 0 4) id.toNat 2
    | .hopper f p => Bytes.putLE (Bytes.putLE (Bytes.putLE b 1 4) f.index 4) (if p then 1 else 0) 1
    | .chest => Bytes.putLE b 2 4
    | .furnace => Bytes.putLE b 3 4
    | .enderChest => Bytes.putLE b 4 4
  putEntries (Bytes.putLE b r.fields.length 8) r.fields

def encode (rs : List Record) : ByteArray :=
  rs.foldl putRecord (Bytes.putLE .empty rs.length 8)

/-- An unsigned word of `n` bytes at `pos`, if the input holds it. -/
def take (src : ByteArray) (pos n : Nat) : Option (Nat × Nat) :=
  if src.size - pos < n then none else some (Bytes.readLE src pos n, pos + n)

/-- A signed word of `n` bytes at `pos`. -/
def takeSigned (src : ByteArray) (pos n : Nat) : Option (Int × Nat) :=
  (take src pos n).map fun (v, p) => (if v ≥ 2 ^ (8 * n - 1) then (v : Int) - 2 ^ (8 * n) else v, p)

def takeBytes (src : ByteArray) (pos : Nat) : Option (ByteArray × Nat) := do
  let (len, pos) ← take src pos 8
  if src.size - pos < len then none else some (src.extract pos (pos + len), pos + len)

/-- A string, which must be valid UTF-8. -/
def takeString (src : ByteArray) (pos : Nat) : Option (String × Nat) := do
  let (bytes, pos) ← takeBytes src pos
  let s ← String.fromUTF8? bytes
  pure (s, pos)

mutual
/-- A field value. `fuel` bounds the nesting and the number of items read, and is never the
limit for input that holds what it announces. -/
def takeField (src : ByteArray) : Nat → Nat → Option (Field × Nat)
  | 0, _ => none
  | fuel + 1, pos => do
    let (tag, pos) ← take src pos 4
    match tag with
    | 0 => (takeSigned src pos 1).map fun (v, p) => (.byte (Int8.ofInt v), p)
    | 1 => (takeSigned src pos 2).map fun (v, p) => (.short (Int16.ofInt v), p)
    | 2 => (takeSigned src pos 4).map fun (v, p) => (.int (Int32.ofInt v), p)
    | 3 => (takeSigned src pos 8).map fun (v, p) => (.long (Int64.ofInt v), p)
    | 4 => (takeString src pos).map fun (s, p) => (.string s, p)
    | 5 => (takeBytes src pos).map fun (b, p) => (.bytes b.toList, p)
    | 6 => do
      let (n, pos) ← take src pos 8
      let (vs, pos) ← takeFields src fuel n pos []
      pure (.list vs, pos)
    | 7 => do
      let (n, pos) ← take src pos 8
      let (m, pos) ← takeEntries src fuel n pos []
      pure (.compound m, pos)
    | _ => none

/-- `n` field values, gathered in reverse onto `acc`. -/
def takeFields (src : ByteArray) : Nat → Nat → Nat → List Field → Option (List Field × Nat)
  | _, 0, pos, acc => some (acc.reverse, pos)
  | 0, _ + 1, _, _ => none
  | fuel + 1, n + 1, pos, acc =>
    match takeField src fuel pos with
    | some (v, pos) => takeFields src fuel n pos (v :: acc)
    | none => none

/-- `n` named values; a repeated name keeps its last value, and names end up sorted. -/
def takeEntries (src : ByteArray) : Nat → Nat → Nat → FieldMap → Option (FieldMap × Nat)
  | _, 0, pos, m => some (m, pos)
  | 0, _ + 1, _, _ => none
  | fuel + 1, n + 1, pos, m =>
    match takeString src pos with
    | none => none
    | some (k, pos) =>
      match takeField src fuel pos with
      | some (v, pos) => takeEntries src fuel n pos (m.insert k v)
      | none => none
end

def takeKind (src : ByteArray) (pos : Nat) : Option (RecordKind × Nat) := do
  let (tag, pos) ← take src pos 4
  match tag with
  | 0 => (take src pos 2).map fun (id, p) => (.solid id.toUInt16, p)
  | 1 => do
    let (fi, pos) ← take src pos 4
    let f ← Face.ofIndex? fi
    let (b, pos) ← take src pos 1
    if b > 1 then none else pure (.hopper f (b = 1), pos)
  | 2 => some (.chest, pos)
  | 3 => some (.furnace, pos)
  | 4 => some (.enderChest, pos)
  | _ => none

def takeRecord (src : ByteArray) (fuel pos : Nat) : Option (Record × Nat) := do
  let (x, pos) ← takeSigned src pos 4
  let (y, pos) ← takeSigned src pos 4
  let (z, pos) ← takeSigned src pos 4
  let (kind, pos) ← takeKind src pos
  let (n, pos) ← take src pos 8
  let (fields, pos) ← takeEntries src fuel n pos []
  pure (⟨⟨Int32.ofInt x, Int32.ofInt y, Int32.ofInt z⟩, kind, fields⟩, pos)

/-- `n` records, gathered in reverse onto `acc`. -/
def takeRecords (src : ByteArray) (fuel : Nat) : Nat → Nat → List Record → Option (List Record)
  | 0, _, acc => some acc.reverse
  | n + 1, pos, acc =>
    match takeRecord src fuel pos with
    | some (r, pos) => takeRecords src fuel n pos (r :: acc)
    | none => none

/-- Read a record list; bytes after the last record are ignored. -/
def decode (src : ByteArray) : Option (List Record) := do
  let (n, pos) ← take src 0 8
  takeRecords src (src.size + 2) n pos []

end Binary

end ItemFlow
