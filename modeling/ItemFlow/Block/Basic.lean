import ItemFlow.Space.Pos
/-! Blocks as values. A container block names its slot storage and its viewer registry by
handle, so every copy of a block works on the same slots and the same viewers; everything
else in a block is its own. -/
namespace ItemFlow

/-- The handle of one container's slot storage. -/
structure InventoryId where
  idx : Nat
deriving DecidableEq, Repr

/-- The handle of one container's viewer registry. -/
structure RegistryId where
  idx : Nat
deriving DecidableEq, Repr

/-- A hopper: pushes items out of its facing side and pulls from the container above. -/
structure Hopper where
  facing : Face
  powered : Bool
  name : String
  lastTick : Tick
  transferCooldown : Int64
  collectCooldown : Int64
  inventory : InventoryId
  viewers : RegistryId
deriving DecidableEq, Repr

/-- A chest: 27 slots and a name. -/
structure Chest where
  name : String
  inventory : InventoryId
  viewers : RegistryId
deriving DecidableEq, Repr

/-- A furnace: input, fuel and output slots, with burn and cook counters. -/
structure Furnace where
  burn : UInt32
  cook : UInt32
  inventory : InventoryId
  viewers : RegistryId
deriving DecidableEq, Repr

/-- What occupies a position. -/
inductive Block where
  | air
  | solid (id : UInt16)
  | hopper (h : Hopper)
  | chest (c : Chest)
  | furnace (f : Furnace)
  | enderChest
deriving DecidableEq, Repr

namespace Hopper

def slotCount : Nat := 5

/-- Ticks a hopper rests after moving an item. -/
def cooldownTicks : Int64 := 8

end Hopper

def Chest.slotCount : Nat := 27

namespace Furnace

def slotCount : Nat := 3
def inputSlot : Nat := 0
def fuelSlot : Nat := 1
def outputSlot : Nat := 2

end Furnace

namespace Block

/-- Only air can be replaced by placing a block. -/
def isReplaceable : Block → Bool
  | .air => true
  | _ => false

/-- The slot storage of a block, if it has its own. -/
def inventory? : Block → Option InventoryId
  | .hopper h => some h.inventory
  | .chest c => some c.inventory
  | .furnace f => some f.inventory
  | _ => none

def viewersOf? : Block → Option RegistryId
  | .hopper h => some h.viewers
  | .chest c => some c.viewers
  | .furnace f => some f.viewers
  | _ => none

/-- Whether a block is a container; the ender chest is one without slots of its own. -/
def isContainer : Block → Bool
  | .air | .solid _ => false
  | _ => true

end Block

end ItemFlow
