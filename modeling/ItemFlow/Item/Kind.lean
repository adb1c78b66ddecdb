import ItemFlow.Text.Decimal
/-! Item kinds: tools of a type and material, placeable blocks and generic items, with their
text keys (`block:15`, `item:263`, `tool:pickaxe:iron`) and stack limits. -/
namespace ItemFlow

/-- What a tool is for. -/
inductive Tool where
  | pickaxe
  | axe
  | shovel
deriving DecidableEq, Repr

/-- The tier a tool is made of. -/
inductive Material where
  | wood
  | stone
  | iron
  | diamond
deriving DecidableEq, Repr

/-- An item identity without count or wear. -/
inductive ItemKind where
  | tool (t : Tool) (m : Material)
  | block (id : UInt16)
  | item (id : UInt16)
deriving DecidableEq, Repr

namespace Tool

def key : Tool → String
  | .pickaxe => "pickaxe"
  | .axe => "axe"
  | .shovel => "shovel"

def ofKey? : String → Option Tool
  | "pickaxe" => some .pickaxe
  | "axe" => some .axe
  | "shovel" => some .shovel
  | _ => none

end Tool

namespace Material

def key : Material → String
  | .wood => "wood"
  | .stone => "stone"
  | .iron => "iron"
  | .diamond => "diamond"

def ofKey? : String → Option Material
  | "wood" => some .wood
  | "stone" => some .stone
  | "iron" => some .iron
  | "diamond" => some .diamond
  | _ => none

/-- Uses a fresh tool of this material can take. -/
def durability : Material → UInt32
  | .wood => 59
  | .stone => 131
  | .iron => 250
  | .diamond => 1561

end Material

namespace ItemKind

def coal : ItemKind := .item 263
def stick : ItemKind := .item 280
def ironIngot : ItemKind := .item 265
def goldIngot : ItemKind := .item 266
def hopperItem : ItemKind := .item 410
def stone : ItemKind := .block 1
def oakPlanks : ItemKind := .block 5
def ironOre : ItemKind := .block 15
def goldOre : ItemKind := .block 14

def key : ItemKind → String
  | .tool t m => "tool:" ++ t.key ++ ":" ++ m.key
  | .block id => "block:" ++ toString id.toNat
  | .item id => "item:" ++ toString id.toNat

/-- The kind named by a key split at colons into its parts. -/
def ofParts? : List String → Option ItemKind
  | ["block", n] => (Decimal.readU16? n).map .block
  | ["item", n] => (Decimal.readU16? n).map .item
  | ["tool", t, m] => do
    let t ← Tool.ofKey? t
    let m ← Material.ofKey? m
    pure (.tool t m)
  | _ => none

/-- The kind named by a key: a kind word and its parts, separated by colons, nothing more. -/
def ofKey? (s : String) : Option ItemKind :=
  ofParts? ((s.split ':').toList.map String.Slice.copy)

/-- Tools do not stack; everything else stacks to 64. -/
def maxStack : ItemKind → UInt32
  | .tool _ _ => 1
  | _ => 64

def freshDurability : ItemKind → Option UInt32
  | .tool _ m => some m.durability
  | _ => none

end ItemKind

end ItemFlow
