import ItemFlow.World.Realm
import ItemFlow.Text.Visible
/-! The debug text of blocks: each value is written as its type's name followed by its
fields, `Name { field: value, … }` for records and `Name(value, …)` for tagged values. Slot
storage shows its slots and marks the fields it leaves out with `..`; a viewer registry
shows only how many live viewers it holds. -/
namespace ItemFlow

namespace Describe

def tool : Tool → String
  | .pickaxe => "Pickaxe"
  | .axe => "Axe"
  | .shovel => "Shovel"

def material : Material → String
  | .wood => "Wood"
  | .stone => "Stone"
  | .iron => "Iron"
  | .diamond => "Diamond"

def kind : ItemKind → String
  | .tool t m => "Tool(" ++ tool t ++ ", " ++ material m ++ ")"
  | .block id => "Block(" ++ toString id ++ ")"
  | .item id => "Item(" ++ toString id ++ ")"

def option {α : Type} (f : α → String) : Option α → String
  | some a => "Some(" ++ f a ++ ")"
  | none => "None"

def list {α : Type} (f : α → String) (xs : List α) : String :=
  "[" ++ ", ".intercalate (xs.map f) ++ "]"

def stack (s : Stack) : String :=
  "ItemStack \x7b item_type: " ++ kind s.kind ++ ", count: " ++ toString s.count ++
    ", durability: " ++ option toString s.durability ++ ", metadata: " ++
    option (list toString) s.metadata ++ " \x7d"

def slots (s : Slots) : String :=
  "Inventory \x7b slots: " ++ list (option stack) s.toList ++ ", .. \x7d"

/-- A viewer registry, by its live viewers. -/
def registry (r : Realm) (g : RegistryId) : String :=
  "ViewerRegistry \x7b viewers: " ++ toString (r.viewerCount g) ++ " \x7d"

def int64 (n : Int64) : String := toString n.toInt

end Describe

def Block.describe (r : Realm) : Block → String
  | .air => "Air"
  | .solid id => "Solid(" ++ toString id ++ ")"
  | .enderChest => "EnderChest(EnderChest)"
  | .hopper h =>
    "Hopper(Hopper \x7b facing: " ++ h.facing.name ++ ", powered: " ++ toString h.powered ++
      ", custom_name: " ++ Text.debugQuote h.name ++ ", last_tick: SimTick(" ++ toString h.lastTick.val ++
      "), transfer_cooldown: " ++ Describe.int64 h.transferCooldown ++ ", collect_cooldown: " ++
      Describe.int64 h.collectCooldown ++ ", inventory: " ++ Describe.slots (r.slotsOf h.inventory) ++
      ", viewers: " ++ Describe.registry r h.viewers ++ " \x7d)"
  | .chest c =>
    "Chest(Chest \x7b custom_name: " ++ Text.debugQuote c.name ++ ", inventory: " ++
      Describe.slots (r.slotsOf c.inventory) ++ ", viewers: " ++ Describe.registry r c.viewers ++ " \x7d)"
  | .furnace f =>
    "Furnace(Furnace \x7b burn_ticks: " ++ toString f.burn ++ ", cook_ticks: " ++ toString f.cook ++
      ", inventory: " ++ Describe.slots (r.slotsOf f.inventory) ++ ", viewers: " ++
      Describe.registry r f.viewers ++ " \x7d)"

end ItemFlow
