import ItemFlow.Item.Stack
/-! Fixed-size slot storage. Every operation returns the slots it leaves together with the
slot changes it reports, in the order it makes them; an observer of the inventory sees exactly
these changes. -/
namespace ItemFlow

/-- The slots of a container, indexed from zero; an empty slot holds no stack. -/
abbrev Slots := Array (Option Stack)

/-- A reported slot change: the slot and its content right after the change. -/
structure Change where
  slot : Nat
  stack : Option Stack
deriving DecidableEq, Repr

/-- Why an inventory operation refused. -/
inductive InventoryError where
  | slotOutOfRange (slot size : Nat)
  | full
deriving DecidableEq, Repr

def InventoryError.message : InventoryError → String
  | .slotOutOfRange slot size =>
    "slot " ++ toString slot ++ " out of range for inventory of size " ++ toString size
  | .full => "inventory is full"

/-- The slots after an operation, with the changes it reported. -/
structure Edit where
  slots : Slots
  changes : List Change

namespace Slots

def empty (size : Nat) : Slots := Array.replicate size none

def item (s : Slots) (i : Nat) : Except InventoryError (Option Stack) :=
  match s[i]? with
  | some c => .ok c
  | none => .error (.slotOutOfRange i s.size)

/-- Replace a slot's content, stored in slot form (no empty stack, no stack above its
limit); the change is reported even when nothing differs. -/
def setItem (s : Slots) (i : Nat) (st : Option Stack) : Except InventoryError Edit :=
  if i < s.size then
    let c := st.bind Stack.stored
    .ok ⟨s.set! i c, [⟨i, c⟩]⟩
  else .error (.slotOutOfRange i s.size)

/-- Room for units of `st` in one slot: a whole stack in an empty slot, the rest of a
comparable stack, none in a slot holding another item. -/
def room (st : Stack) : Option Stack → Nat
  | none => st.maxStack.toNat
  | some e => if e.comparable st then st.maxStack.toNat - e.count.toNat else 0

/-- Room for units of `st` across all slots. -/
def capacity (s : Slots) (st : Stack) : Nat :=
  s.foldl (fun acc c => acc + room st c) 0

/-- First pass of adding: top up comparable stacks that are not full, in slot order. -/
def topUp (st : Stack) : List (Option Stack) → Nat → Nat → List (Option Stack) × List Change × Nat
  | [], _, rem => ([], [], rem)
  | c :: cs, i, rem =>
    match c with
    | some e =>
      if rem ≠ 0 ∧ e.comparable st ∧ ¬e.isFull then
        let moved := min rem (e.maxStack.toNat - e.count.toNat)
        let e' := e.withCount (e.count + moved.toUInt32)
        let (rest, ch, r) := topUp st cs (i + 1) (rem - moved)
        (some e' :: rest, ⟨i, some e'⟩ :: ch, r)
      else
        let (rest, ch, r) := topUp st cs (i + 1) rem
        (c :: rest, ch, r)
    | none =>
      let (rest, ch, r) := topUp st cs (i + 1) rem
      (c :: rest, ch, r)

/-- Second pass of adding: fill empty slots in order with stacks of at most the limit. -/
def fillEmpty (st : Stack) : List (Option Stack) → Nat → Nat → List (Option Stack) × List Change × Nat
  | [], _, rem => ([], [], rem)
  | c :: cs, i, rem =>
    match c with
    | none =>
      if rem ≠ 0 then
        let moved := min rem st.maxStack.toNat
        let e := st.withCount moved.toUInt32
        let (rest, ch, r) := fillEmpty st cs (i + 1) (rem - moved)
        (some e :: rest, ⟨i, some e⟩ :: ch, r)
      else
        let (rest, ch, r) := fillEmpty st cs (i + 1) rem
        (c :: rest, ch, r)
    | some _ =>
      let (rest, ch, r) := fillEmpty st cs (i + 1) rem
      (c :: rest, ch, r)

/-- Add a whole stack, all or nothing: refused when the room across all slots is smaller
than its count; otherwise comparable stacks are topped up first, then empty slots filled. -/
def addItem (s : Slots) (st : Stack) : Except InventoryError Edit :=
  if st.isEmpty then .ok ⟨s, []⟩
  else if capacity s st < st.count.toNat then .error .full
  else
    let (l1, ch1, rem) := topUp st s.toList 0 st.count.toNat
    let (l2, ch2, _) := fillEmpty st l1 0 rem
    .ok ⟨l2.toArray, ch1 ++ ch2⟩

/-- Take one unit from a slot, returning its new content; an empty slot is left alone
and nothing is reported. -/
def decrement (s : Slots) (i : Nat) : Except InventoryError (Option Stack × Edit) :=
  match s[i]? with
  | none => .error (.slotOutOfRange i s.size)
  | some none => .ok (none, ⟨s, []⟩)
  | some (some e) =>
    let c := e.shrink
    .ok (c, ⟨s.set! i c, [⟨i, c⟩]⟩)

/-- Empty every slot, reporting each one that held a stack. -/
def clear (s : Slots) : Edit :=
  ⟨Array.replicate s.size none,
    ((List.range s.size).zip s.toList).filterMap fun (i, c) => c.map fun _ => ⟨i, none⟩⟩

def firstFilled? (s : Slots) : Option (Nat × Stack) :=
  ((List.range s.size).zip s.toList).findSome? fun (i, c) => c.map (i, ·)

def isEmpty (s : Slots) : Bool := s.all Option.isNone

def total (s : Slots) : Nat := totalCount s.toList

/-- The non-empty slots with their indices, in slot order. -/
def filled (s : Slots) : List (Nat × Stack) :=
  ((List.range s.size).zip s.toList).filterMap fun (i, c) => c.map (i, ·)

end Slots

end ItemFlow
