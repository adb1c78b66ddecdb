/-! The six axis-aligned faces of a block, in their index order Down, Up, North, South, West,
East. -/
namespace ItemFlow

/-- One of the six directions a block side points to. -/
inductive Face where
  | down
  | up
  | north
  | south
  | west
  | east
deriving DecidableEq, Repr

namespace Face

/-- Every face in index order. -/
def all : List Face := [.down, .up, .north, .south, .west, .east]

def opposite : Face → Face
  | .down => .up
  | .up => .down
  | .north => .south
  | .south => .north
  | .west => .east
  | .east => .west

/-- The unit step `(dx, dy, dz)` across this face. -/
def offset : Face → Int32 × Int32 × Int32
  | .down => (0, -1, 0)
  | .up => (0, 1, 0)
  | .north => (0, 0, -1)
  | .south => (0, 0, 1)
  | .west => (-1, 0, 0)
  | .east => (1, 0, 0)

def index : Face → Nat
  | .down => 0
  | .up => 1
  | .north => 2
  | .south => 3
  | .west => 4
  | .east => 5

/-- The face at an index, if there is one. -/
def ofIndex? (i : Nat) : Option Face := all[i]?

def isVertical : Face → Bool
  | .up | .down => true
  | _ => false

def name : Face → String
  | .down => "Down"
  | .up => "Up"
  | .north => "North"
  | .south => "South"
  | .west => "West"
  | .east => "East"

/-- The face with a given name; names are case-sensitive. -/
def ofName? (s : String) : Option Face := all.find? (·.name == s)

end Face

end ItemFlow
