import ItemFlow.Item.Kind
import ItemFlow.Overflow
/-! Item stacks: a kind, a count, optional wear and optional opaque metadata. Two stacks are
comparable when they hold the same item, whatever their counts. -/
namespace ItemFlow

/-- What makes units of one item interchangeable: kind, wear and metadata. -/
structure Identity where
  kind : ItemKind
  durability : Option UInt32
  metadata : Option (List UInt8)
deriving DecidableEq, Repr

/-- A quantity of one item, as held in a container slot. -/
structure Stack where
  kind : ItemKind
  count : UInt32
  durability : Option UInt32
  metadata : Option (List UInt8)
deriving DecidableEq, Repr

namespace Stack

/-- A fresh stack: tools carry their material's durability, nothing carries metadata. -/
def new (kind : ItemKind) (count : UInt32) : Stack :=
  { kind, count, durability := kind.freshDurability, metadata := none }

def withMetadata (kind : ItemKind) (count : UInt32) (metadata : List UInt8) : Stack :=
  { new kind count with metadata := some metadata }

def identity (s : Stack) : Identity :=
  ⟨s.kind, s.durability, s.metadata⟩

/-- The largest count a slot keeps of this stack's kind. -/
def maxStack (s : Stack) : UInt32 := s.kind.maxStack

def isEmpty (s : Stack) : Bool := s.count == 0

def isFull (s : Stack) : Bool := s.count ≥ s.maxStack

/-- Whether two stacks hold the same item. -/
def comparable (a b : Stack) : Bool := a.identity == b.identity

def withCount (s : Stack) (n : UInt32) : Stack := { s with count := n }

def single (s : Stack) : Stack := s.withCount 1

/-- Whether `n` more units fit; the sum of the counts traps beyond 32 bits. -/
def canAdd (s : Stack) (n : UInt32) : Except Overflow Bool := do
  let total ← Overflow.addU32 s.count n
  pure (total ≤ s.maxStack)

/-- The count after adding `delta`: never below zero, never above the larger of the stack
limit and the current count. The sum traps outside 64-bit signed range; zero units is no
stack. -/
def grow (s : Stack) (delta : Int64) : Except Overflow (Option Stack) := do
  let current : Int := s.count.toNat
  let sum := current + delta.toInt
  if ¬(-2 ^ (63 : Nat) ≤ sum ∧ sum < 2 ^ (63 : Nat)) then throw .add
  let ceiling := max (s.maxStack.toNat : Int) current
  let n := max 0 (min sum ceiling)
  pure (if n = 0 then none else some (s.withCount n.toNat.toUInt32))

/-- One unit fewer; the last unit leaves no stack. -/
def shrink (s : Stack) : Option Stack :=
  if s.count ≤ 1 then none else some (s.withCount (s.count - 1))

/-- The form a slot stores: no stack for zero units, the count cut to the limit. -/
def stored (s : Stack) : Option Stack :=
  if s.count = 0 then none
  else if s.count > s.maxStack then some (s.withCount s.maxStack) else some s

end Stack

def totalCount (slots : List (Option Stack)) : Nat :=
  slots.foldl (fun acc s => acc + match s with | some s => s.count.toNat | none => 0) 0

end ItemFlow
