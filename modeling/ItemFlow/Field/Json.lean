import ItemFlow.Field.Basic
import ItemFlow.Json.Value
/-! Field values as JSON: each value is an object with one key naming its tag (`Byte`, `Short`,
`Int`, `Long`, `String`, `ByteArray`, `List`, `Compound`) and the payload under it. -/
namespace ItemFlow

mutual
def Field.toJson : Field → Json
  | .byte v => .obj [("Byte", .int v.toInt)]
  | .short v => .obj [("Short", .int v.toInt)]
  | .int v => .obj [("Int", .int v.toInt)]
  | .long v => .obj [("Long", .int v.toInt)]
  | .string s => .obj [("String", .str s)]
  | .bytes b => .obj [("ByteArray", .arr (b.map fun x => .int x.toNat))]
  | .list vs => .obj [("List", .arr (Field.listToJson vs))]
  | .compound m => .obj [("Compound", .obj (Field.mapToJson m))]

def Field.listToJson : List Field → List Json
  | [] => []
  | v :: vs => v.toJson :: Field.listToJson vs

def Field.mapToJson : List (String × Field) → List (String × Json)
  | [] => []
  | (k, v) :: rest => (k, v.toJson) :: Field.mapToJson rest
end

def FieldMap.toJson (m : FieldMap) : Json := .obj (Field.mapToJson m)

def Json.intIn? (lo hi : Int) : Json → Option Int
  | .int n => if lo ≤ n ∧ n ≤ hi then some n else none
  | _ => none

mutual
def Field.ofJson? : Json → Option Field
  | .obj [(tag, v)] =>
    match tag, v with
    | "Byte", v => (Json.intIn? (-128) 127 v).map (.byte ∘ Int8.ofInt)
    | "Short", v => (Json.intIn? (-2 ^ (15 : Nat)) (2 ^ (15 : Nat) - 1) v).map (.short ∘ Int16.ofInt)
    | "Int", v => (Json.intIn? (-2 ^ (31 : Nat)) (2 ^ (31 : Nat) - 1) v).map (.int ∘ Int32.ofInt)
    | "Long", v => (Json.intIn? (-2 ^ (63 : Nat)) (2 ^ (63 : Nat) - 1) v).map (.long ∘ Int64.ofInt)
    | "String", .str s => some (.string s)
    | "ByteArray", .arr xs => (xs.mapM fun x => (Json.intIn? 0 255 x).map (·.toNat.toUInt8)).map .bytes
    | "List", .arr xs => (Field.listOfJson? xs).map .list
    | "Compound", .obj kvs => (Field.mapOfJson? kvs).map (.compound ∘ FieldMap.ofList)
    | _, _ => none
  | _ => none

/-- Field values of JSON forms, all or none. -/
def Field.listOfJson? : List Json → Option (List Field)
  | [] => some []
  | j :: js => do pure ((← Field.ofJson? j) :: (← Field.listOfJson? js))

/-- Named field values of JSON entries, all or none. -/
def Field.mapOfJson? : List (String × Json) → Option (List (String × Field))
  | [] => some []
  | (k, j) :: rest => do pure ((k, ← Field.ofJson? j) :: (← Field.mapOfJson? rest))
end

def FieldMap.ofJson? : Json → Option FieldMap
  | .obj kvs => (Field.mapOfJson? kvs).map FieldMap.ofList
  | _ => none

end ItemFlow
