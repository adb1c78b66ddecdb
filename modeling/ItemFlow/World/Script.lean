import ItemFlow.Save.File
import ItemFlow.Block.Describe
/-! Scripted sessions over a world. A session keeps named copies of blocks (which share slots
and viewers with the block they were taken from) and the recording viewers it holds, and runs
commands one at a time, each with a reply and the notifications it caused. -/
namespace ItemFlow

/-- A block to place, with the slot contents to set into it. -/
inductive Blueprint where
  | air
  | solid (id : UInt16)
  | hopper (facing : Face) (powered : Bool) (name : String) (transferCooldown collectCooldown : Int64)
      (lastTick : Tick) (slots : List (Nat × Option Stack))
  | chest (name : String) (slots : List (Nat × Option Stack))
  | furnace (burn cook : UInt32) (slots : List (Nat × Option Stack))
  | enderChest

/-- Why a script stops as a whole. -/
inductive Abort where
  | overflow (e : Overflow)
  | inventory (e : InventoryError)
  | missingHeld (name : String)

/-- Why a single command was refused; the script goes on. -/
inductive Refusal where
  | notAHopper
  | notAFurnace
  | noInventory
  | noRegistry
  | inventory (e : InventoryError)
  | failed (message : String)

namespace Refusal

/-- The kind name of a refusal. -/
def kind : Refusal → String
  | .notAHopper => "NotAHopper"
  | .notAFurnace => "NotAFurnace"
  | .noInventory => "NoInventory"
  | .noRegistry => "NoViewerRegistry"
  | .inventory .full => "Full"
  | .inventory (.slotOutOfRange _ _) => "SlotOutOfRange"
  | .failed _ => "Error"

/-- The text of a refusal. -/
def message : Refusal → String
  | .notAHopper => "no hopper at the given position"
  | .notAFurnace => "no furnace at the given position"
  | .noInventory => "no slot storage at the given position"
  | .noRegistry => "no viewer registry at the given position"
  | .inventory e => e.message
  | .failed m => m

end Refusal

/-- A command of a script. -/
inductive Command where
  | tick (now : Tick)
  | run (start : Nat) (count : Nat)
  | tickHopper (pos : Pos) (now : Tick) (held : Option String)
  | tickFurnace (pos : Pos)
  | insert (pos : Pos) (held : Option String)
  | extract (pos : Pos) (held : Option String)
  | place (pos : Pos) (b : Blueprint)
  | breakAt (pos : Pos)
  | useOnBlock (pos : Pos) (face : Face) (name : String)
  | activate (pos : Pos) (opener : Bool)
  | setSlot (pos : Pos) (slot : Nat) (stack : Option Stack)
  | addItem (pos : Pos) (stack : Stack)
  | decrement (pos : Pos) (slot : Nat)
  | item (pos : Pos) (slot : Nat)
  | furnaceInsert (pos : Pos) (stack : Stack) (face : Face)
  | furnaceExtract (pos : Pos)
  | hold (pos : Pos) (name : String)
  | placeHeld (pos : Pos) (name : String)
  | heldState (name : String)
  | addViewer (pos : Pos) (id : UInt64)
  | removeViewer (pos : Pos) (id : UInt64)
  | viewerInfo (pos : Pos) (ids : List UInt64)
  | dropViewer (id : UInt64)
  | detachViewer (pos : Pos) (id : UInt64)
  | encode (pos : Pos)
  | decode (pos : Pos) (fields : FieldMap)
  | capture
  | restore (records : Option (List Record))
  | saveLoad
  | worldLen
  | describe (pos : Pos)

/-- What a command answers. -/
inductive Reply where
  | none
  | flag (b : Bool)
  | summary (s : Summary)
  | summaries (ss : List Summary)
  | phase (p : Phase)
  | stacks (ss : List Stack)
  | stack (s : Option Stack)
  | placement (accepted : Bool) (slot : Nat)
  | nominated (n : Option (Stack × Nat))
  | activated (yes : Bool) (opened : Option Pos)
  | block (b : Block)
  | viewers (contains : List Bool) (isEmpty : Bool) (len : Nat)
  | fields (m : Option FieldMap)
  | records (rs : List Record)
  | reloaded (equal : Bool) (count : Nat)
  | size (isEmpty : Bool) (len : Nat)
  | text (s : String)
  | refused (r : Refusal)

/-- A scripted session. -/
structure Session where
  realm : Realm := {}
  held : List (String × Block) := []
  serials : Nat := 0

namespace Session

def act {α : Type} (s : Session) (a : Act α) : Except Abort (α × Session) :=
  match a.run s.realm with
  | .ok (x, r) => .ok (x, { s with realm := r })
  | .error e => .error (.overflow e)

/-- Set the slots of a blueprint into fresh storage, stopping at the first refusal. -/
def fill (inv : InventoryId) : List (Nat × Option Stack) → Act (Except InventoryError Unit)
  | [] => return .ok ()
  | (i, st) :: rest => do
    match ← Act.setItem inv i st with
    | .ok () => fill inv rest
    | .error e => return .error e

def build (b : Blueprint) : Act (Except InventoryError Block) := do
  match b with
  | .air => return .ok .air
  | .solid id => return .ok (.solid id)
  | .enderChest => return .ok .enderChest
  | .hopper facing powered name tc cc lt slots =>
    let h ← Hopper.create facing powered name
    let h := { h with transferCooldown := tc, collectCooldown := cc, lastTick := lt }
    return (← fill h.inventory slots).map fun _ => .hopper h
  | .chest name slots =>
    let g ← Act.newRegistry
    let inv ← Act.newStorage Chest.slotCount g
    return (← fill inv slots).map fun _ => .chest ⟨name, inv, g⟩
  | .furnace burn cook slots =>
    let g ← Act.newRegistry
    let inv ← Act.newStorage Furnace.slotCount g
    return (← fill inv slots).map fun _ => .furnace ⟨burn, cook, inv, g⟩

def place (s : Session) (pos : Pos) (b : Blueprint) : Except Abort Session := do
  let (res, s) ← s.act (build b)
  match res with
  | .ok blk => return { s with realm := { s.realm with blocks := s.realm.blocks.set pos blk } }
  | .error e => throw (.inventory e)

def heldBlock (s : Session) (name : String) : Except Abort Block :=
  match (s.held.find? (·.1 == name)) with
  | some (_, b) => .ok b
  | none => .error (.missingHeld name)

/-- The block a command works on: a held copy if named, else the block at the position. -/
def subject (s : Session) (pos : Pos) : Option String → Except Abort Block
  | some n => s.heldBlock n
  | none => .ok (s.realm.blockAt pos)

/-- Answer with no change. -/
def keep (s : Session) (r : Reply) : Except Abort (Reply × Session) := .ok (r, s)

/-- The live recorder with an id, if the session holds one. -/
def recorder? (s : Session) (id : UInt64) : Option Viewer :=
  s.realm.alive.find? (·.id == id)

/-- Ticks `start`, `start + 1`, … each as a pass, for `count` passes, after the summaries
in `done`. -/
def runPasses (start : Nat) : Nat → Array Summary → Act (Array Summary)
  | 0, done => return done
  | n + 1, done => do
    let first ← World.tick ⟨start.toUInt64⟩
    runPasses (start + 1) n (done.push first)

def exec (s : Session) : Command → Except Abort (Reply × Session)
  | .tick now => do
    let (sum, s) ← s.act (World.tick now)
    return (.summary sum, s)
  | .run start count => do
    let (ss, s) ← s.act (runPasses start count #[])
    return (.summaries ss.toList, s)
  | .tickHopper pos now held => do
    match ← s.subject pos held with
    | .hopper h => do
      let (p, s) ← s.act (h.tick now pos)
      return (.phase p, s)
    | _ => s.keep (.refused .notAHopper)
  | .tickFurnace pos =>
    match s.realm.blockAt pos with
    | .furnace f => do
      let (b, s) ← s.act (Furnace.tick f pos)
      return (.flag b, s)
    | _ => s.keep (.refused .notAFurnace)
  | .insert pos held => do
    match ← s.subject pos held with
    | .hopper h => do
      let (b, s) ← s.act (h.insert pos)
      return (.flag b, s)
    | _ => s.keep (.refused .notAHopper)
  | .extract pos held => do
    match ← s.subject pos held with
    | .hopper h => do
      let (b, s) ← s.act (h.extract pos)
      return (.flag b, s)
    | _ => s.keep (.refused .notAHopper)
  | .place pos b => do return (.none, ← s.place pos b)
  | .breakAt pos => do
    let (ds, s) ← s.act (World.breakAt pos)
    return (.stacks ds, s)
  | .useOnBlock pos face name => do
    let (b, s) ← s.act (Hopper.useOnBlock name pos face)
    return (.flag b, s)
  | .activate pos opener => s.keep (.activated opener (if opener then some pos else none))
  | .setSlot pos slot st =>
    match (s.realm.blockAt pos).inventory? with
    | some inv => do
      let (res, s) ← s.act (Act.setItem inv slot st)
      return (match res with | .ok () => .none | .error e => .refused (.inventory e), s)
    | none => s.keep (.refused .noInventory)
  | .addItem pos st =>
    match (s.realm.blockAt pos).inventory? with
    | some inv => do
      let (res, s) ← s.act (Act.addItem inv st)
      return (match res with | .ok () => .none | .error e => .refused (.inventory e), s)
    | none => s.keep (.refused .noInventory)
  | .decrement pos slot =>
    match (s.realm.blockAt pos).inventory? with
    | some inv => do
      let (res, s) ← s.act (Act.decrement inv slot)
      return (match res with | .ok c => .stack c | .error e => .refused (.inventory e), s)
    | none => s.keep (.refused .noInventory)
  | .item pos slot =>
    match (s.realm.blockAt pos).inventory? with
    | some inv =>
      s.keep (match (s.realm.slotsOf inv).item slot with
        | .ok c => .stack c
        | .error e => .refused (.inventory e))
    | none => s.keep (.refused .noInventory)
  | .furnaceInsert pos st face =>
    match s.realm.blockAt pos with
    | .furnace f =>
      let (ok, slot) := Furnace.acceptsInsert (s.realm.slotsOf f.inventory) st face
      s.keep (.placement ok slot)
    | _ => s.keep (.refused .notAFurnace)
  | .furnaceExtract pos =>
    match s.realm.blockAt pos with
    | .furnace f => s.keep (.nominated (Furnace.nominate (s.realm.slotsOf f.inventory)))
    | _ => s.keep (.refused .notAFurnace)
  | .hold pos name =>
    .ok (.none, { s with held := (s.held.filter (·.1 != name)) ++ [(name, s.realm.blockAt pos)] })
  | .placeHeld pos name => do
    let b ← s.heldBlock name
    return (.none, { s with realm := { s.realm with blocks := s.realm.blocks.set pos b } })
  | .heldState name => do
    let b ← s.heldBlock name
    s.keep (.block b)
  | .addViewer pos id =>
    match (s.realm.blockAt pos).viewersOf? with
    | some g =>
      let (v, s) := match s.recorder? id with
        | some v => (v, s)
        | none =>
          let v : Viewer := ⟨id, s.serials⟩
          (v, { s with serials := s.serials + 1, realm := { s.realm with alive := s.realm.alive ++ [v] } })
      .ok (.none, { s with realm := s.realm.setRegistry g ((s.realm.registry g).add v) })
    | none => s.keep (.refused .noRegistry)
  | .removeViewer pos id =>
    match (s.realm.blockAt pos).viewersOf? with
    | some g =>
      let (reg, was) := (s.realm.registry g).remove id
      .ok (.flag was, { s with realm := s.realm.setRegistry g reg })
    | none => s.keep (.refused .noRegistry)
  | .detachViewer pos id =>
    match (s.realm.blockAt pos).viewersOf? with
    | some g =>
      let (reg, _) := (s.realm.registry g).remove id
      .ok (.none, { s with realm := s.realm.setRegistry g reg })
    | none => s.keep (.refused .noRegistry)
  | .viewerInfo pos ids =>
    match (s.realm.blockAt pos).viewersOf? with
    | some g =>
      let reg := s.realm.registry g
      let n := reg.len s.realm.isAlive
      s.keep (.viewers (ids.map (reg.contains s.realm.isAlive)) (n == 0) n)
    | none => s.keep (.refused .noRegistry)
  | .dropViewer id =>
    match s.recorder? id with
    | some v => .ok (.flag true, { s with realm := { s.realm with alive := s.realm.alive.filter (· != v) } })
    | none => s.keep (.flag false)
  | .encode pos => s.keep (.fields ((s.realm.blockAt pos).encode s.realm))
  | .decode pos m => do
    let (b, s) ← s.act ((s.realm.blockAt pos).decode m)
    return (.none, { s with realm := { s.realm with blocks := s.realm.blocks.set pos b } })
  | .capture => s.keep (.records (World.capture s.realm))
  | .restore recs => do
    let recs := recs.getD (World.capture s.realm)
    let ((), s) ← s.act (World.restore recs)
    return (.none, s)
  | .saveLoad => do
    let recs := World.capture s.realm
    match SaveFile.read (SaveFile.write Frame.encodeRaw recs) with
    | .ok loaded => do
      let ((), s) ← s.act (World.restore loaded)
      return (.reloaded (loaded == recs) loaded.length, s)
    | .error e => s.keep (.refused (.failed e.message))
  | .worldLen => s.keep (.size (s.realm.blocks.size == 0) s.realm.blocks.size)
  | .describe pos => s.keep (.text ((s.realm.blockAt pos).describe s.realm))

end Session

end ItemFlow
