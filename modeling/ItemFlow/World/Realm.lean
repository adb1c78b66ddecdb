import ItemFlow.World.BlockMap
import ItemFlow.Inventory.Basic
import ItemFlow.Viewer.Registry
/-! The realm: the block map together with the slot storages and viewer registries that
blocks name by handle, the viewers currently alive, and the log of notifications delivered.
A change to a storage's slots is delivered to the live viewers of the registry the storage
reports to, in id order, as it happens. -/
namespace ItemFlow

/-- One container's slots and the registry its changes are reported to. -/
structure Storage where
  slots : Slots
  registry : RegistryId
deriving Repr

/-- A notification as a viewer receives it. -/
structure Delivery where
  viewer : UInt64
  slot : Nat
  stack : Option Stack
deriving DecidableEq, Repr

/-- The shared state of a world. -/
structure Realm where
  blocks : BlockMap := {}
  storages : Array Storage := #[]
  registries : Array Registry := #[]
  alive : List Viewer := []
  log : Array Delivery := #[]

/-- An action on the realm that may trap on arithmetic overflow. -/
abbrev Act := StateT Realm (Except Overflow)

def Act.lift {α : Type} (x : Except Overflow α) : Act α :=
  match x with
  | .ok a => pure a
  | .error e => throw e

namespace Realm

/-- Whether a viewer is still held by someone. -/
def isAlive (r : Realm) (v : Viewer) : Bool := r.alive.contains v

def blockAt (r : Realm) (p : Pos) : Block := r.blocks.get p

def slotsOf (r : Realm) (i : InventoryId) : Slots :=
  match r.storages[i.idx]? with
  | some s => s.slots
  | none => #[]

def registry (r : Realm) (g : RegistryId) : Registry :=
  r.registries[g.idx]?.getD {}

def viewerCount (r : Realm) (g : RegistryId) : Nat := (r.registry g).len r.isAlive

def setRegistry (r : Realm) (g : RegistryId) (reg : Registry) : Realm :=
  { r with registries := r.registries.set! g.idx reg }

/-- Deliver one slot change through a registry: its live viewers log it in id order and
dead registrations are pruned. -/
def deliver (r : Realm) (g : RegistryId) (c : Change) : Realm :=
  let (reg, seen) := (r.registry g).notify r.isAlive
  let r := r.setRegistry g reg
  { r with log := seen.foldl (fun log v => log.push ⟨v.id, c.slot, c.stack⟩) r.log }

/-- Store the slots of an edit and deliver its changes in order. -/
def applyEdit (r : Realm) (i : InventoryId) (e : Edit) : Realm :=
  match r.storages[i.idx]? with
  | none => r
  | some s =>
    let r := { r with storages := r.storages.set! i.idx { s with slots := e.slots } }
    e.changes.foldl (fun r c => r.deliver s.registry c) r

def newRegistry (r : Realm) : RegistryId × Realm :=
  (⟨r.registries.size⟩, { r with registries := r.registries.push {} })

def newStorage (r : Realm) (size : Nat) (g : RegistryId) : InventoryId × Realm :=
  (⟨r.storages.size⟩, { r with storages := r.storages.push ⟨Slots.empty size, g⟩ })

end Realm

namespace Act

def realm : Act Realm := get

def blockAt (p : Pos) : Act Block := return (← get).blockAt p

/-- Store a block; air removes. -/
def setBlock (p : Pos) (b : Block) : Act Unit :=
  modify fun r => { r with blocks := r.blocks.set p b }

def slotsOf (i : InventoryId) : Act Slots := return (← get).slotsOf i

def setItem (i : InventoryId) (slot : Nat) (st : Option Stack) : Act (Except InventoryError Unit) := do
  match (← slotsOf i).setItem slot st with
  | .ok e => modify (·.applyEdit i e); return .ok ()
  | .error err => return .error err

def addItem (i : InventoryId) (st : Stack) : Act (Except InventoryError Unit) := do
  match (← slotsOf i).addItem st with
  | .ok e => modify (·.applyEdit i e); return .ok ()
  | .error err => return .error err

def decrement (i : InventoryId) (slot : Nat) : Act (Except InventoryError (Option Stack)) := do
  match (← slotsOf i).decrement slot with
  | .ok (c, e) => modify (·.applyEdit i e); return .ok c
  | .error err => return .error err

def clear (i : InventoryId) : Act Unit :=
  modify fun r => r.applyEdit i (r.slotsOf i).clear

/-- Replay field entries into a storage, delivering the changes. -/
def replay (i : InventoryId) (e : Edit) : Act Unit :=
  modify (·.applyEdit i e)

def newRegistry : Act RegistryId := modifyGet Realm.newRegistry

def newStorage (size : Nat) (g : RegistryId) : Act InventoryId :=
  modifyGet fun r => r.newStorage size g

def updateRegistry (g : RegistryId) (f : Registry → Registry) : Act Unit :=
  modify fun r => r.setRegistry g (f (r.registry g))

end Act

end ItemFlow
