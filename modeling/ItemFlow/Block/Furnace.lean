import ItemFlow.World.Realm
import ItemFlow.Item.Smelting
/-! Furnaces. A furnace burns fuel from its fuel slot while something in its input slot can
be smelted into its output slot; 200 burning ticks smelt one unit. Hoppers feed the input slot
from above and the fuel slot from the side, and take only from the output slot. -/
namespace ItemFlow.Furnace

/-- The output one more smelt would leave in the output slot: one fresh unit in an empty
slot, one more unit on a comparable stack that is not full, nothing otherwise. -/
def smeltTarget (s : Slots) : Option Stack := do
  let input ← (s[inputSlot]?).join
  let out := Stack.new (← input.kind.smeltOutput?) 1
  match (s[outputSlot]?) with
  | none => none
  | some none => some out
  | some (some e) =>
    if e.comparable out ∧ ¬e.isFull then some (e.withCount (e.count + 1)) else none

/-- Where a hopper facing `face` may put one unit: into the input slot from above, into the
fuel slot from the side when the unit burns (refused otherwise). The slot must be empty or
hold a comparable stack that is not full. -/
def acceptsInsert (s : Slots) (unit : Stack) (face : Face) : Bool × Nat :=
  let slot := if face = .down then some inputSlot
    else if unit.kind.isFuel then some fuelSlot else none
  match slot with
  | none => (false, fuelSlot)
  | some i =>
    let ok := match s[i]? with
      | some none => true
      | some (some e) => e.comparable unit && !e.isFull
      | none => false
    (ok, i)

/-- What a hopper may take: the output stack, if there is one. -/
def nominate (s : Slots) : Option (Stack × Nat) :=
  match s[outputSlot]? with
  | some (some st) => some (st, outputSlot)
  | _ => none

/-- Light one unit of fuel when nothing burns and a smelt is possible; the burn counter after.
Fuel is taken only if it burns. -/
def ignite (f : Furnace) (target : Option Stack) : Act UInt32 := do
  if f.burn == 0 && target.isSome then
    match ((← Act.slotsOf f.inventory)[fuelSlot]?).join with
    | some fuel =>
      if fuel.kind.burnTicks > 0 then
        let _ ← Act.decrement f.inventory fuelSlot
        return fuel.kind.burnTicks
      else return f.burn
    | none => return f.burn
  else return f.burn

/-- The cook counter after one burning tick toward `target`. Reaching the smelt time smelts:
one input unit is taken, the output slot becomes `target` and the counter restarts; without a
target the counter resets. -/
def cookStep (f : Furnace) (target : Option Stack) : Act UInt32 := do
  match target with
  | some out =>
    let cook ← Act.lift (Overflow.addU32 f.cook 1)
    if cook ≥ ItemKind.smeltTicks then
      let _ ← Act.decrement f.inventory inputSlot
      let _ ← Act.setItem f.inventory outputSlot (some out)
      return 0
    else return cook
  | none => return 0

/-- Store the furnace with new counters when one of them changed; whether one did. -/
def publish (f : Furnace) (pos : Pos) (burn cook : UInt32) : Act Bool := do
  let changed := burn != f.burn || cook != f.cook
  if changed then Act.setBlock pos (.furnace { f with burn, cook })
  return changed

/-- One furnace tick. With nothing burning and a smelt possible, a unit of fuel is lit.
While burning, the burn counter drops by one and the cook counter rises toward a smelt,
which takes one input unit and grows the output; without a smelt possible the cook counter
resets. The furnace is stored again only when a counter changed, which is the result. -/
def tick (f : Furnace) (pos : Pos) : Act Bool := do
  let target := smeltTarget (← Act.slotsOf f.inventory)
  let burn ← f.ignite target
  if burn > 0 then f.publish pos (burn - 1) (← f.cookStep target)
  else f.publish pos burn 0

end ItemFlow.Furnace
