import ItemFlow.World.Tick
import ItemFlow.Save.Store
import ItemFlow.Layout.Config
import ItemFlow.Json.Write
/-! The demo layout and its run. A source chest stands above a transfer hopper. Feeding a
chest, the hopper faces east into it. Feeding a furnace, the hopper faces down into it, a
fuel hopper at its east side faces back into it, and a collector hopper below it drops into
the chest at the bottom. A run ticks the layout, counts transfers and blocked hoppers,
logs each tick that moved something, and may save the final layout and read it back. -/
namespace ItemFlow

namespace Layout

def sourcePos : Pos := ⟨0, 65, 0⟩
def hopperPos : Pos := ⟨0, 64, 0⟩
def furnacePos : Pos := ⟨0, 63, 0⟩
def fuelPos : Pos := ⟨1, 63, 0⟩
def collectorPos : Pos := ⟨0, 62, 0⟩

def sinkPos : Destination → Pos
  | .chest => ⟨1, 64, 0⟩
  | .furnace => ⟨0, 61, 0⟩

def sourceItem : Destination → ItemKind
  | .chest => .stone
  | .furnace => .ironOre

def newChest : Act Chest := do
  let g ← Act.newRegistry
  return ⟨"", ← Act.newStorage Chest.slotCount g, g⟩

def newFurnace : Act Furnace := do
  let g ← Act.newRegistry
  return ⟨0, 0, ← Act.newStorage Furnace.slotCount g, g⟩

/-- Add `count` units to a storage in full stacks and one last partial stack. Every added
stack takes a slot of its own or fails, so the storage fills after as many stacks as it has
slots; `rounds` bounds the stacks added. -/
def fill (inv : InventoryId) (kind : ItemKind) : Nat → Nat → Act (Except InventoryError Unit)
  | 0, _ => return .ok ()
  | rounds + 1, count => do
    if count = 0 then return .ok ()
    let moved := min count kind.maxStack.toNat
    match ← Act.addItem inv (Stack.new kind moved.toUInt32) with
    | .ok () => fill inv kind rounds (count - moved)
    | .error e => return .error e

def build (s : Settings) : Act (Except Failure Unit) := do
  let source ← newChest
  let kind := sourceItem s.destination
  let filled ← fill source.inventory kind (Chest.slotCount + 1) s.sourceItems.toNat
  if let .error e := filled then
    return .error ((Failure.root e.message).context "source chest cannot hold the configured items")
  Act.setBlock sourcePos (.chest source)
  match s.destination with
  | .chest =>
    Act.setBlock hopperPos (.hopper (← Hopper.create .east false ""))
    Act.setBlock (sinkPos .chest) (.chest (← newChest))
    return .ok ()
  | .furnace =>
    Act.setBlock hopperPos (.hopper (← Hopper.create .down false ""))
    Act.setBlock furnacePos (.furnace (← newFurnace))
    let fueler ← Hopper.create .west false "Fuel"
    if s.fuelItems > 0 then
      if let .error e ← Act.addItem fueler.inventory (Stack.new .coal s.fuelItems) then
        return .error ((Failure.root e.message).context "fuel hopper cannot hold the configured coal")
    Act.setBlock fuelPos (.hopper fueler)
    Act.setBlock collectorPos (.hopper (← Hopper.create .down false ""))
    Act.setBlock (sinkPos .furnace) (.chest (← newChest))
    return .ok ()

end Layout

/-- The totals of a run. -/
structure RunReport where
  ticks : UInt64
  transfers : Nat := 0
  blocked : Nat := 0
  sourceLeft : Nat := 0
  delivered : Nat := 0
deriving DecidableEq, Repr

/-- Why a run stopped: a failure it reports, or an arithmetic trap. -/
inductive RunError where
  | failed (f : Failure)
  | trapped (o : Overflow)
deriving DecidableEq, Repr

namespace Layout

def eventLine (t : Nat) (s : Summary) : String :=
  Json.compact (.obj [("tick", .int t), ("kind", .str "Transfer"), ("payload", .str s.text)])

/-- Tick the layout `n` times from tick `t`, adding to the totals and the log lines. -/
def ticks : Nat → Nat → RunReport × Array String → Act (RunReport × Array String)
  | 0, _, acc => return acc
  | n + 1, t, (rep, log) => do
    let s ← World.tick ⟨t.toUInt64⟩
    let rep := { rep with transfers := rep.transfers + s.transfers, blocked := rep.blocked + s.blocked }
    let log := if s.transfers > 0 then log.push (eventLine t s) else log
    ticks n (t + 1) (rep, log)

/-- The units in the container at a position, or none for a block without slots. -/
def unitsAt (r : Realm) (p : Pos) : Nat :=
  match (r.blockAt p).inventory? with
  | some inv => (r.slotsOf inv).total
  | none => 0

/-- Tick a built layout: the final realm with the totals and the event-log lines. -/
def simulate (s : Settings) (r : Realm) : Except Overflow (Realm × RunReport × Array String) :=
  match (ticks s.ticks.toNat 1 ({ ticks := s.ticks }, #[])).run r with
  | .error o => .error o
  | .ok ((rep, log), r) =>
    .ok (r, { rep with sourceLeft := unitsAt r sourcePos, delivered := unitsAt r (sinkPos s.destination) }, log)

variable {m : Type → Type} [Monad m] [FileSystem m]

/-- Save the final layout under a name in a store, read it back, and check that as many
blocks come back. -/
def saveAndVerify (r : Realm) (dir name : String) : m (Except Failure Unit) := do
  match ← SaveStore.create dir with
  | .error f => return .error (f.context ("failed to open save dir " ++ dir))
  | .ok store =>
    let recs := World.capture r
    if let .error f ← store.save name recs then return .error f
    match ← store.load name with
    | .error f => return .error f
    | .ok loaded =>
      match (World.restore loaded).run {} with
      | .error _ => return .error (.root "failed to restore the saved layout")
      | .ok ((), back) =>
        if back.blocks.size = r.blocks.size then return .ok ()
        else return .error (.root ("reloaded save " ++ name ++ " has " ++ toString back.blocks.size ++
          " blocks, expected " ++ toString r.blocks.size))

/-- Open the event log: create its directory and an empty file. -/
def openLog (path : String) : m (Except IoError Unit) := do
  if let some dir := Path.parent? path then
    if let .error e ← FileSystem.createDirAll dir then return .error e
  FileSystem.writeFile path .empty

/-- Run the layout of some settings: build it, open the event log, tick, write the log,
and save when a save directory is set. -/
def run (s : Settings) : m (Except RunError RunReport) := do
  match (build s).run {} with
  | .error o => return .error (.trapped o)
  | .ok (.error f, _) => return .error (.failed f)
  | .ok (.ok (), r) =>
    if let some path := s.eventsPath then
      if let .error e ← openLog path then return .error (.failed (.ofIo e))
    match simulate s r with
    | .error o => return .error (.trapped o)
    | .ok (r, rep, log) =>
      if let some path := s.eventsPath then
        let text := String.join (log.toList.map (· ++ "\n"))
        if let .error e ← FileSystem.writeFile path text.toUTF8 then return .error (.failed (.ofIo e))
      if let some dir := s.saveDir then
        if let .error f ← saveAndVerify r dir s.saveName then return .error (.failed f)
      return .ok rep

end Layout

end ItemFlow
