import ItemFlow.Save.Record
import ItemFlow.Field.Json
/-! Block records as JSON: `{"pos": {"x","y","z"}, "kind": K, "fields": {…}}`, where `K` is
`"Chest"`, `"Furnace"`, `"EnderChest"`, `{"Solid": id}` or
`{"Hopper": {"facing": F, "powered": b}}`. Reading also takes the positional forms: a record
or position as an array of its parts, a unit kind as a one-key object with `null`. -/
namespace ItemFlow

namespace Record

def posJson (p : Pos) : Json := .obj [("x", .int p.x.toInt), ("y", .int p.y.toInt), ("z", .int p.z.toInt)]

def kindJson : RecordKind → Json
  | .solid id => .obj [("Solid", .int id.toNat)]
  | .hopper f p => .obj [("Hopper", .obj [("facing", .str f.name), ("powered", .bool p)])]
  | .chest => .str "Chest"
  | .furnace => .str "Furnace"
  | .enderChest => .str "EnderChest"

def toJson (r : Record) : Json :=
  .obj [("fields", r.fields.toJson), ("kind", kindJson r.kind), ("pos", posJson r.pos)]

/-- The parts of a struct-like JSON value: named members of an object, or the elements of
an array of exactly that length. -/
def parts? (j : Json) (names : List String) : Option (List Json) :=
  match j with
  | .obj _ => names.mapM j.get?
  | .arr xs => if xs.length = names.length then some xs else none
  | _ => none

def i32? (j : Json) : Option Int32 := (Json.intIn? (-2 ^ (31 : Nat)) (2 ^ (31 : Nat) - 1) j).map Int32.ofInt

def posOfJson? (j : Json) : Option Pos := do
  match ← parts? j ["x", "y", "z"] with
  | [x, y, z] => pure ⟨← i32? x, ← i32? y, ← i32? z⟩
  | _ => none

/-- A unit variant: its name as a string, or a one-key object holding `null`. -/
def unitName? : Json → Option String
  | .str s => some s
  | .obj [(k, .null)] => some k
  | _ => none

def faceOfJson? (j : Json) : Option Face := unitName? j >>= Face.ofName?

def kindOfJson? (j : Json) : Option RecordKind :=
  match j with
  | .obj [("Solid", v)] => (Json.intIn? 0 65535 v).map fun n => .solid n.toNat.toUInt16
  | .obj [("Hopper", v)] => do
    match ← parts? v ["facing", "powered"] with
    | [f, .bool p] => pure (.hopper (← faceOfJson? f) p)
    | _ => none
  | j =>
    match unitName? j with
    | some "Chest" => some .chest
    | some "Furnace" => some .furnace
    | some "EnderChest" => some .enderChest
    | _ => none

def ofJson? (j : Json) : Option Record := do
  match ← parts? j ["pos", "kind", "fields"] with
  | [p, k, f] => pure ⟨← posOfJson? p, ← kindOfJson? k, ← FieldMap.ofJson? f⟩
  | _ => none

end Record

end ItemFlow
