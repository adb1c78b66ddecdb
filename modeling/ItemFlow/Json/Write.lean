import ItemFlow.Json.Value
import ItemFlow.Text.Shortest
/-! Writing JSON text: a compact form with entries in their stored order, and the canonical
snapshot form, indented by two spaces with object keys sorted and a final newline. -/
namespace ItemFlow.Json

def hexDigit (n : Nat) : Char :=
  if n < 10 then Char.ofNat ('0'.toNat + n) else Char.ofNat ('a'.toNat + n - 10)

def escapeChar (c : Char) : String :=
  match c with
  | '"' => "\\\""
  | '\\' => "\\\\"
  | '\n' => "\\n"
  | '\r' => "\\r"
  | '\t' => "\\t"
  | '\x08' => "\\b"
  | '\x0c' => "\\f"
  | c =>
    if c.toNat < 0x20 then
      "\\u00" ++ (hexDigit (c.toNat / 16)).toString ++ (hexDigit (c.toNat % 16)).toString
    else c.toString

/-- A string literal: quotes, backslashes and control characters escaped, all else as is. -/
def quote (s : String) : String :=
  "\"" ++ String.join (s.toList.map escapeChar) ++ "\""

/-- Exponent text of the float layout: a minus sign when negative, no padding. -/
def exponentText (e : Int) : String :=
  if e < 0 then "-" ++ toString (-e).toNat else toString e.toNat

/-- The layout of a decimal with `n` digits `ds` and exponent `k`: positional with a `.0`
when it is an integer below `10 ^ 16`, positional when its point falls among the first 16
places or at most five places after it, scientific with a single digit or `d.ddd` form
otherwise. -/
def layout (ds : String) (k : Int) : String :=
  let n : Int := ds.length
  let kk := n + k
  if 0 ≤ k ∧ kk ≤ 16 then ds ++ String.ofList (List.replicate k.toNat '0') ++ ".0"
  else if 0 < kk ∧ kk ≤ 16 then
    String.ofList (ds.toList.take kk.toNat) ++ "." ++ String.ofList (ds.toList.drop kk.toNat)
  else if -5 < kk ∧ kk ≤ 0 then "0." ++ String.ofList (List.replicate (-kk).toNat '0') ++ ds
  else if n = 1 then ds ++ "e" ++ exponentText (kk - 1)
  else
    String.ofList (ds.toList.take 1) ++ "." ++ String.ofList (ds.toList.drop 1) ++ "e" ++
      exponentText (kk - 1)

/-- A double's text: the shortest digits in the float layout; a non-finite value is `null`. -/
def floatText (f : Float) : String :=
  if f.isNaN || f.isInf then "null"
  else
    let sign := if f.toBits ≥ 0x8000000000000000 then "-" else ""
    if f.toBits &&& 0x7fffffffffffffff = 0 then sign ++ "0.0"
    else
      let d := Shortest.ofFloat f
      sign ++ layout (toString d.digits) d.exponent

def intText (n : Int) : String :=
  if n < 0 then "-" ++ toString (-n).toNat else toString n.toNat

mutual
/-- Compact text appended to `acc`: no blanks, entries in stored order. -/
def compactOnto (acc : String) : Json → String
  | .null => acc ++ "null"
  | .bool b => acc ++ (if b then "true" else "false")
  | .int n => acc ++ intText n
  | .float f => acc ++ floatText f
  | .str s => acc ++ quote s
  | .arr xs => (compactItemsOnto (acc.push '[') xs).push ']'
  | .obj kvs => (compactEntriesOnto (acc.push '\x7b') kvs).push '\x7d'

/-- Compact items separated by commas, appended to `acc`. -/
def compactItemsOnto (acc : String) : List Json → String
  | [] => acc
  | [x] => compactOnto acc x
  | x :: xs => compactItemsOnto ((compactOnto acc x).push ',') xs

/-- Compact entries separated by commas, appended to `acc`. -/
def compactEntriesOnto (acc : String) : List (String × Json) → String
  | [] => acc
  | [(k, v)] => compactOnto ((acc ++ quote k).push ':') v
  | (k, v) :: rest => compactEntriesOnto ((compactOnto ((acc ++ quote k).push ':') v).push ',') rest
end

/-- Compact text: no blanks, entries in stored order. -/
def compact (j : Json) : String := compactOnto "" j

/-- Insert a keyed text into a key-sorted list; an equal key is replaced. -/
def insertSorted (e : String × String) : List (String × String) → List (String × String)
  | [] => [e]
  | f :: rest =>
    if e.1 < f.1 then e :: f :: rest
    else if e.1 == f.1 then e :: rest
    else f :: insertSorted e rest

/-- Keyed texts sorted by key, the last of equal keys kept. -/
def sortEntries (kvs : List (String × String)) : List (String × String) :=
  kvs.foldl (fun acc e => insertSorted e acc) []

def indent (depth : Nat) : String := String.ofList (List.replicate (2 * depth) ' ')

mutual
/-- Pretty text at an indentation depth, object keys sorted. -/
def pretty (depth : Nat) : Json → String
  | .arr [] => "[]"
  | .obj [] => "\x7b\x7d"
  | .arr xs =>
    "[\n" ++ ",\n".intercalate (prettyItems (depth + 1) xs) ++ "\n" ++ indent depth ++ "]"
  | .obj kvs =>
    "\x7b\n" ++ ",\n".intercalate ((sortEntries (prettyEntries (depth + 1) kvs)).map
      fun (k, t) => indent (depth + 1) ++ quote k ++ ": " ++ t) ++ "\n" ++ indent depth ++ "\x7d"
  | .null => "null"
  | .bool b => if b then "true" else "false"
  | .int n => intText n
  | .float f => floatText f
  | .str s => quote s

def prettyItems (depth : Nat) : List Json → List String
  | [] => []
  | x :: xs => (indent depth ++ pretty depth x) :: prettyItems depth xs

def prettyEntries (depth : Nat) : List (String × Json) → List (String × String)
  | [] => []
  | (k, v) :: rest => (k, pretty depth v) :: prettyEntries depth rest
end

/-- The canonical snapshot text of a value: pretty, keys sorted, newline-terminated. -/
def canonical (j : Json) : String := pretty 0 j ++ "\n"

end ItemFlow.Json
