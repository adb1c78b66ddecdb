/-! JSON values as the snapshot and record formats use them: integers are kept exact (the
unsigned 64-bit and signed 64-bit ranges), other numbers are doubles, and objects keep their
entries in order. -/
namespace ItemFlow

/-- A JSON document. -/
inductive Json where
  | null
  | bool (b : Bool)
  | int (n : Int)
  | float (f : Float)
  | str (s : String)
  | arr (xs : List Json)
  | obj (kvs : List (String × Json))
deriving Inhabited

namespace Json

/-- The value under a key of an object; the last entry with that key wins. -/
def get? (j : Json) (k : String) : Option Json :=
  match j with
  | .obj kvs => (kvs.reverse.find? (·.1 == k)).map (·.2)
  | _ => none

/-- An object entry list with `k` bound to `v`: an existing entry keeps its place. -/
def setEntry (kvs : List (String × Json)) (k : String) (v : Json) : List (String × Json) :=
  if kvs.any (·.1 == k) then kvs.map (fun e => if e.1 == k then (k, v) else e) else kvs ++ [(k, v)]

def nat (n : Nat) : Json := .int n

/-- An optional value, `null` when absent. -/
def opt {α : Type} (f : α → Json) : Option α → Json
  | some a => f a
  | none => .null

end Json

end ItemFlow
