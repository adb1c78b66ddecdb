import ItemFlow.Field.Basic
import ItemFlow.Inventory.Basic
/-! Stacks and slot contents as fields. A stack is its key under `Name`, its count as a byte
under `Count` (at most 127), its durability under `Damage` and its metadata under `tag`; slot
contents are a list of such compounds, each with its slot index as a byte under `Slot`. -/
namespace ItemFlow

namespace Stack

def toFields (s : Stack) : FieldMap :=
  let m := FieldMap.ofList [("Name", .string s.kind.key),
    ("Count", .byte (Int8.ofInt (min s.count.toNat 127)))]
  let m := match s.durability with
    | some d => m.insert "Damage" (.int (Int32.ofInt (min d.toNat (2 ^ (31 : Nat) - 1))))
    | none => m
  match s.metadata with
  | some b => m.insert "tag" (.bytes b)
  | none => m

/-- The stack of some fields: a known key under `Name` and a positive count, cut to the
stack limit. Durability is read only from an `Int` (a negative one means none) and
metadata only from a byte array. -/
def ofFields? (m : FieldMap) : Option Stack := do
  let kind ← ItemKind.ofKey? (m.getString "Name")
  let count := (m.getI32 "Count").toInt
  if count ≤ 0 then none
  let count := min count.toNat kind.maxStack.toNat
  let s := Stack.new kind count.toUInt32
  let s := match m.get? "Damage" with
    | some (.int d) => { s with durability := if d.toInt < 0 then none else some d.toInt.toNat.toUInt32 }
    | _ => s
  let s := match m.get? "tag" with
    | some (.bytes b) => { s with metadata := some b }
    | _ => s
  pure s

end Stack

namespace Slots

/-- The list field of the filled slots, each compound with its slot index wrapped to a
signed byte. -/
def toField (s : Slots) : Field :=
  .list (s.filled.map fun (i, st) => .compound (st.toFields.insert "Slot" (.byte (Int8.ofInt i))))

/-- Replay one entry: a compound whose slot index is not negative and whose stack reads is
set into its slot; anything else, or a slot out of range, is skipped. -/
def loadEntry (e : Edit) : Field → Edit
  | .compound m =>
    let slot := (FieldMap.getI32 m "Slot").toInt
    if slot < 0 then e
    else match Stack.ofFields? m with
      | none => e
      | some st =>
        match e.slots.setItem slot.toNat (some st) with
        | .ok e' => ⟨e'.slots, e.changes ++ e'.changes⟩
        | .error _ => e
  | _ => e

def loadFields (s : Slots) (entries : List Field) : Edit :=
  entries.foldl loadEntry ⟨s, []⟩

end Slots

end ItemFlow
