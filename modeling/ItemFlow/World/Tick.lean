import ItemFlow.Block.Fields
/-! The tick pass over a world: every hopper and furnace stored at the start is ticked once,
in position order, on the block found at its position just before its turn. Breaking a block
removes it, forgets its viewers and reports its drops. -/
namespace ItemFlow

/-- Counts of one tick pass. -/
structure Summary where
  hoppers : Nat := 0
  transfers : Nat := 0
  cooling : Nat := 0
  blocked : Nat := 0
  furnacesActive : Nat := 0
deriving DecidableEq, Repr

/-- What one block's turn in a tick pass did. -/
inductive Turn where
  | hopper (phase : Phase)
  | furnace (active : Bool)
  | skip
deriving DecidableEq, Repr

namespace Summary

def addPhase (s : Summary) : Phase → Summary
  | .transferred _ _ => { s with hoppers := s.hoppers + 1, transfers := s.transfers + 1 }
  | .coolingDown => { s with hoppers := s.hoppers + 1, cooling := s.cooling + 1 }
  | .blocked => { s with hoppers := s.hoppers + 1, blocked := s.blocked + 1 }
  | .idle => { s with hoppers := s.hoppers + 1 }

def addTurn (s : Summary) : Turn → Summary
  | .hopper ph => s.addPhase ph
  | .furnace true => { s with furnacesActive := s.furnacesActive + 1 }
  | .furnace false | .skip => s

def text (s : Summary) : String :=
  "TickSummary \x7b hoppers: " ++ toString s.hoppers ++ ", transfers: " ++ toString s.transfers ++
    ", cooling: " ++ toString s.cooling ++ ", blocked: " ++ toString s.blocked ++
    ", furnaces_active: " ++ toString s.furnacesActive ++ " \x7d"

end Summary

namespace World

/-- Whether a block takes part in the tick pass. -/
def ticks : Block → Bool
  | .hopper _ | .furnace _ => true
  | _ => false

/-- The positions a tick pass visits: those holding a hopper or a furnace, in order. -/
def tickPositions (m : BlockMap) : List Pos :=
  m.entries.filter (ticks ·.2) |>.map (·.1)

/-- Tick the block at one position, if it is still a hopper or furnace. -/
def turn (now : Tick) (pos : Pos) : Act Turn := do
  match ← Act.blockAt pos with
  | .hopper h => return .hopper (← h.tick now pos)
  | .furnace f => return .furnace (← Furnace.tick f pos)
  | _ => return .skip

/-- The turns of one tick pass, each with its position, in position order. -/
def turns (now : Tick) : Act (List (Pos × Turn)) := do
  (tickPositions (← get).blocks).mapM fun pos => return (pos, ← turn now pos)

def tick (now : Tick) : Act Summary := do
  return (← turns now).foldl (fun s t => s.addTurn t.2) {}

/-- Break the block at a position: it is removed, its registry forgets every viewer, and its
drops are returned. -/
def breakAt (pos : Pos) : Act (List Stack) := do
  let r ← get
  match r.blocks.take? pos with
  | none => return []
  | some (b, rest) =>
    set { r with blocks := rest }
    match b.viewersOf? with
    | some g => Act.updateRegistry g Registry.clear
    | none => pure ()
    return Block.drops (← get) b

end World

end ItemFlow
