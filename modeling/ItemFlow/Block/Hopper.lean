import ItemFlow.Block.Furnace
/-! Hoppers. Each tick counts both cooldowns down; when both have run out, an unpowered
hopper pushes one unit into the container it faces and pulls one unit from the container
above, then rests for eight ticks. -/
namespace ItemFlow

/-- What one hopper tick did. -/
inductive Phase where
  | idle
  | coolingDown
  | blocked
  | transferred (inserted extracted : Bool)
deriving DecidableEq, Repr

namespace Hopper

/-- Put one unit of `source` into a slot: an empty slot takes a single unit, a comparable
stack that is not full grows by one; anything else refuses. -/
def placeOne (inv : InventoryId) (slot : Nat) (source : Stack) : Act Bool := do
  match (← Act.slotsOf inv).item slot with
  | .error _ => return false
  | .ok none => return (← Act.setItem inv slot (some source.single)).toBool
  | .ok (some e) =>
    if !e.comparable source || e.isFull then return false
    return (← Act.setItem inv slot (some (e.withCount (e.count + 1)))).toBool

/-- Offer one unit of `source` to the faced block: a furnace picks the slot, any other
container takes it as an added stack. -/
def offer (h : Hopper) (dest : Block) (inv : InventoryId) (source : Stack) : Act Bool := do
  match dest with
  | .furnace _ =>
    let (ok, slot) := Furnace.acceptsInsert (← Act.slotsOf inv) source.single h.facing
    if ok then placeOne inv slot source else return false
  | _ => return (← Act.addItem inv source.single).toBool

/-- Offer the filled slots of a snapshot in order; the first accepted one loses a unit. -/
def offerEach (h : Hopper) (dest : Block) (inv : InventoryId) : List (Nat × Stack) → Act Bool
  | [] => return false
  | (slot, source) :: rest => do
    if ← h.offer dest inv source then
      let _ ← Act.decrement h.inventory slot
      return true
    else h.offerEach dest inv rest

/-- Push one unit into the container on the facing side. -/
def insert (h : Hopper) (pos : Pos) : Act Bool := do
  let dest ← Act.blockAt (← Act.lift (pos.side h.facing))
  match dest.inventory? with
  | none => return false
  | some inv => h.offerEach dest inv (← Act.slotsOf h.inventory).filled

/-- What a container nominates for a hopper to pull, as a stack with its slot: a furnace its
output slot, any other container its first filled slot. -/
def nomination (origin : Block) (slots : Slots) : Option (Stack × Nat) :=
  match origin with
  | .furnace _ => Furnace.nominate slots
  | _ => slots.firstFilled?.map fun (i, st) => (st, i)

/-- Move one unit of a nominated stack from storage `inv` into storage `own`. The nomination is
checked against the slot before anything moves: the stack must hold units and the slot must
still hold a comparable stack, so a stale or bogus nomination moves nothing. -/
def pullOne (own inv : InventoryId) (nominated : Option (Stack × Nat)) : Act Bool := do
  match nominated with
  | none => return false
  | some (stack, slot) =>
    if stack.isEmpty then return false
    match (← Act.slotsOf inv).item slot with
    | .ok (some held) =>
      if !held.comparable stack then return false
      match ← Act.addItem own stack.single with
      | .error _ => return false
      | .ok () => return (← Act.decrement inv slot).toBool
    | _ => return false

/-- Pull one unit from the container above, as it nominates. -/
def extract (h : Hopper) (pos : Pos) : Act Bool := do
  let origin ← Act.blockAt (← Act.lift (pos.side .up))
  match origin.inventory? with
  | none => return false
  | some inv => pullOne h.inventory inv (nomination origin (← Act.slotsOf inv))

/-- One hopper tick at a position. Every phase but idle stores the hopper again. -/
def tick (h : Hopper) (now : Tick) (pos : Pos) : Act Phase := do
  let tc ← Act.lift (Overflow.subI64 h.transferCooldown 1)
  let cc ← Act.lift (Overflow.subI64 h.collectCooldown 1)
  let next := { h with transferCooldown := tc, collectCooldown := cc, lastTick := now }
  if tc ≥ 0 || cc ≥ 0 then
    Act.setBlock pos (.hopper next)
    return .coolingDown
  let next := { next with transferCooldown := 0, collectCooldown := 0 }
  if next.powered then
    Act.setBlock pos (.hopper next)
    return .blocked
  let inserted ← next.insert pos
  let extracted ← next.extract pos
  if !inserted && !extracted then return .idle
  Act.setBlock pos (.hopper { next with transferCooldown := cooldownTicks, collectCooldown := cooldownTicks })
  return .transferred inserted extracted

/-- A new hopper with empty slots and no viewers. -/
def create (facing : Face) (powered : Bool) (name : String) : Act Hopper := do
  let g ← Act.newRegistry
  let inv ← Act.newStorage slotCount g
  return ⟨facing, powered, name, Tick.zero, 0, 0, inv, g⟩

/-- Place a new hopper against a face of the block at `pos`: at `pos` itself when that is
air, else next to it across the face, and only onto air. It faces down when the underside
was clicked and back into the clicked block otherwise, and takes the user's name. -/
def useOnBlock (name : String) (pos : Pos) (face : Face) : Act Bool := do
  let target ← if (← Act.blockAt pos).isReplaceable then pure pos else Act.lift (pos.side face)
  if !(← Act.blockAt target).isReplaceable then return false
  let facing := if face = .down then .down else face.opposite
  let h ← create facing false name
  Act.setBlock target (.hopper h)
  return true

/-- The twelve hopper block states: per face in order, unpowered then powered. -/
def states : List (Face × Bool) :=
  Face.all.flatMap fun f => [(f, false), (f, true)]

end Hopper

end ItemFlow
