import ItemFlow.Overflow
/-! Persisted field values: tagged integers of four widths, strings, byte arrays, lists and
compounds, which map names to values in name order. Readers are lenient: a missing or
mistyped field reads as an empty default. -/
namespace ItemFlow

/-- A persisted value. -/
inductive Field where
  | byte (v : Int8)
  | short (v : Int16)
  | int (v : Int32)
  | long (v : Int64)
  | string (s : String)
  | bytes (b : List UInt8)
  | list (vs : List Field)
  | compound (m : List (String × Field))
deriving Inhabited, Repr

mutual
def Field.beq : Field → Field → Bool
  | .byte a, .byte b => a == b
  | .short a, .short b => a == b
  | .int a, .int b => a == b
  | .long a, .long b => a == b
  | .string a, .string b => a == b
  | .bytes a, .bytes b => a == b
  | .list a, .list b => Field.listBeq a b
  | .compound a, .compound b => Field.entriesBeq a b
  | _, _ => false

def Field.listBeq : List Field → List Field → Bool
  | [], [] => true
  | a :: as, b :: bs => Field.beq a b && Field.listBeq as bs
  | _, _ => false

def Field.entriesBeq : List (String × Field) → List (String × Field) → Bool
  | [], [] => true
  | (k, a) :: as, (l, b) :: bs => k == l && Field.beq a b && Field.entriesBeq as bs
  | _, _ => false
end

instance : BEq Field := ⟨Field.beq⟩

/-- Named fields, kept sorted by name with each name once. -/
abbrev FieldMap := List (String × Field)

namespace FieldMap

def get? (m : FieldMap) (k : String) : Option Field :=
  (m.find? (·.1 == k)).map (·.2)

/-- Bind a name, replacing an earlier value and keeping the names sorted. -/
def insert (m : FieldMap) (k : String) (v : Field) : FieldMap :=
  match m with
  | [] => [(k, v)]
  | (k', v') :: rest =>
    if k < k' then (k, v) :: (k', v') :: rest
    else if k == k' then (k, v) :: rest
    else (k', v') :: insert rest k v

/-- The map of a list of bindings, later bindings of a name winning. -/
def ofList (kvs : List (String × Field)) : FieldMap :=
  kvs.foldl (fun m (k, v) => m.insert k v) []

/-- A string field, empty when missing or not a string. -/
def getString (m : FieldMap) (k : String) : String :=
  match m.get? k with
  | some (.string s) => s
  | _ => ""

/-- An integer field of at most 32 bits: narrower widths widen, a long is clamped to the
32-bit range, anything else reads as zero. -/
def getI32 (m : FieldMap) (k : String) : Int32 :=
  match m.get? k with
  | some (.byte v) => Int32.ofInt v.toInt
  | some (.short v) => Int32.ofInt v.toInt
  | some (.int v) => v
  | some (.long v) => Int32.ofInt (max (-2 ^ (31 : Nat)) (min v.toInt (2 ^ (31 : Nat) - 1)))
  | _ => 0

/-- A list field, empty when missing or not a list. -/
def getList (m : FieldMap) (k : String) : List Field :=
  match m.get? k with
  | some (.list vs) => vs
  | _ => []

end FieldMap

end ItemFlow
