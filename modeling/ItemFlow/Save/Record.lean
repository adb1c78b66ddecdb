import ItemFlow.World.Tick
/-! Block records: a stored block as its position, its kind (with a hopper's facing and power,
a solid block's id) and its persisted fields. Capturing a world records every stored block in
position order; restoring places a fresh block of each kind and reads its fields back. -/
namespace ItemFlow

/-- The kind of a recorded block. -/
inductive RecordKind where
  | solid (id : UInt16)
  | hopper (facing : Face) (powered : Bool)
  | chest
  | furnace
  | enderChest
deriving DecidableEq, Repr

/-- A recorded block. -/
structure Record where
  pos : Pos
  kind : RecordKind
  fields : FieldMap

instance : BEq Record := ⟨fun a b => a.pos == b.pos && a.kind == b.kind && a.fields == b.fields⟩

namespace Record

/-- The record of a stored block; air has none. -/
def capture (r : Realm) (pos : Pos) (b : Block) : Option Record :=
  let kind : Option RecordKind := match b with
    | .air => none
    | .solid id => some (.solid id)
    | .hopper h => some (.hopper h.facing h.powered)
    | .chest _ => some .chest
    | .furnace _ => some .furnace
    | .enderChest => some .enderChest
  kind.map fun k => ⟨pos, k, (b.encode r).getD []⟩

/-- A fresh block of a recorded kind with the record's fields read back. -/
def restore (rec : Record) : Act Block := do
  match rec.kind with
  | .solid id => return .solid id
  | .enderChest => return .enderChest
  | .hopper facing powered => (Block.hopper (← Hopper.create facing powered "")).decode rec.fields
  | .chest => do
    let g ← Act.newRegistry
    let inv ← Act.newStorage Chest.slotCount g
    (Block.chest ⟨"", inv, g⟩).decode rec.fields
  | .furnace => do
    let g ← Act.newRegistry
    let inv ← Act.newStorage Furnace.slotCount g
    (Block.furnace ⟨0, 0, inv, g⟩).decode rec.fields

end Record

namespace World

/-- The records of every stored block, in position order. -/
def capture (r : Realm) : List Record :=
  r.blocks.entries.filterMap fun (p, b) => Record.capture r p b

/-- Replace the world by the blocks restored from records, placed in order. -/
def restore (recs : List Record) : Act Unit := do
  let placed ← recs.mapM fun rec => return (rec.pos, ← rec.restore)
  modify fun r => { r with blocks := placed.foldl (fun m (p, b) => m.set p b) {} }

end World

end ItemFlow
