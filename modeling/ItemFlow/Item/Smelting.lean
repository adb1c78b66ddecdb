import ItemFlow.Item.Kind
/-! Smelting facts of item kinds: iron and gold ore smelt into ingots, and coal, oak planks and
sticks burn for 1600, 300 and 100 ticks. -/
namespace ItemFlow.ItemKind

/-- Ticks of burning one smelt takes. -/
def smeltTicks : UInt32 := 200

def smeltOutput? : ItemKind → Option ItemKind
  | .block 15 => some ironIngot
  | .block 14 => some goldIngot
  | _ => none

/-- Ticks one unit burns as fuel; zero for what does not burn. -/
def burnTicks : ItemKind → UInt32
  | .item 263 => 8 * smeltTicks
  | .block 5 => 3 * smeltTicks / 2
  | .item 280 => smeltTicks / 2
  | _ => 0

def isFuel (k : ItemKind) : Bool := k.burnTicks > 0

end ItemFlow.ItemKind
