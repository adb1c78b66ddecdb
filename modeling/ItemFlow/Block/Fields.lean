import ItemFlow.Block.Hopper
import ItemFlow.Field.Stack
/-! Blocks as persisted fields. A container writes its slots under `Items` and its kind under
`id`, a hopper its transfer cooldown and a named container its name; reading fields back
keeps the placed block's own settings and viewer registry and replays the slots into fresh
storage, so the block's viewers see every replayed slot. -/
namespace ItemFlow

namespace Hopper

/-- The registered name of the hopper block and of its item. -/
def blockName : String := "minecraft:hopper"

/-- The block state of a hopper: its name with its facing index and powered bit. -/
def blockState (facing : Face) (powered : Bool) : String × FieldMap :=
  (blockName, FieldMap.ofList [("facing_direction", .int (Int32.ofNat facing.index)),
    ("toggle_bit", .byte (if powered then 1 else 0))])

/-- The item form of a hopper: its name with metadata value zero. -/
def itemState : String × Int16 := (blockName, 0)

end Hopper

/-- How a block breaks: how hard it is, how well it resists blasts, which tool harvests
it and what it drops. -/
structure BreakInfo where
  hardness : Float
  blastResistance : Float
  harvestTool : Option Tool
  drops : List Stack

/-- A hopper is mined with a pickaxe and drops itself. -/
def Hopper.breakInfo : BreakInfo :=
  ⟨3.0, 24.0, some .pickaxe, [Stack.new ItemKind.hopperItem 1]⟩

namespace Block

/-- The fields a block persists; blocks without storage persist none. -/
def encode (r : Realm) : Block → Option FieldMap
  | .hopper h =>
    let m := FieldMap.ofList [("Items", (r.slotsOf h.inventory).toField),
      ("TransferCooldown", .int (Int32.ofInt (max (-2 ^ (31 : Nat)) (min h.transferCooldown.toInt (2 ^ (31 : Nat) - 1))))),
      ("id", .string "Hopper")]
    some (if h.name.isEmpty then m else m.insert "CustomName" (.string h.name))
  | .chest c =>
    let m := FieldMap.ofList [("Items", (r.slotsOf c.inventory).toField), ("id", .string "Chest")]
    some (if c.name.isEmpty then m else m.insert "CustomName" (.string c.name))
  | .furnace f =>
    some (FieldMap.ofList [("Items", (r.slotsOf f.inventory).toField),
      ("BurnTime", .int (Int32.ofInt f.burn.toNat)), ("CookTime", .int (Int32.ofInt f.cook.toNat)),
      ("id", .string "Furnace")])
  | _ => none

/-- Fresh storage on an existing registry, filled from the `Items` entries. -/
def reload (size : Nat) (g : RegistryId) (m : FieldMap) : Act InventoryId := do
  let inv ← Act.newStorage size g
  let e := (Slots.empty size).loadFields (m.getList "Items")
  modify (·.applyEdit inv e)
  return inv

/-- The block rebuilt from fields whose `id` names its kind; with any other `id` the block
is kept as it is. -/
def decode (b : Block) (m : FieldMap) : Act Block := do
  match b, m.getString "id" with
  | .hopper h, "Hopper" =>
    let inv ← reload Hopper.slotCount h.viewers m
    let cooldown := Int64.ofInt (m.getI32 "TransferCooldown").toInt
    return .hopper { h with name := m.getString "CustomName", lastTick := Tick.zero,
                            transferCooldown := cooldown, collectCooldown := 0, inventory := inv }
  | .chest c, "Chest" =>
    let inv ← reload Chest.slotCount c.viewers m
    return .chest { c with name := m.getString "CustomName", inventory := inv }
  | .furnace f, "Furnace" =>
    let inv ← reload Furnace.slotCount f.viewers m
    let burn := (max 0 (m.getI32 "BurnTime").toInt).toNat.toUInt32
    let cook := (max 0 (m.getI32 "CookTime").toInt).toNat.toUInt32
    return .furnace { f with burn := burn, cook := cook, inventory := inv }
  | b, _ => return b

/-- What breaking a block drops: a hopper drops itself, a container its stacks in slot
order, a solid block one unit of itself. -/
def drops (r : Realm) (b : Block) : List Stack :=
  let own := match b with
    | .hopper _ => Hopper.breakInfo.drops
    | _ => []
  let held := match b.inventory? with
    | some i => (r.slotsOf i).filled.map (·.2)
    | none => []
  let solid := match b with
    | .solid id => [Stack.new (.block id) 1]
    | _ => []
  own ++ held ++ solid

end Block

end ItemFlow
