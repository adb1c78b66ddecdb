import ItemFlow.Json.Value
import ItemFlow.Overflow
/-! Reading JSON text. Integers without fraction or exponent stay exact when they fit the
unsigned or signed 64-bit range; other numbers become doubles by scaling the first 19 or so
significant digits with one power of ten. Nesting deeper than 127 levels, lone surrogates,
raw control characters and trailing text are refused. -/
namespace ItemFlow.Json

def isBlank (c : Char) : Bool := c == ' ' || c == '\t' || c == '\n' || c == '\r'

def skipBlanks : List Char → List Char
  | c :: cs => if isBlank c then skipBlanks cs else c :: cs
  | [] => []

/-- The double nearest to a natural number, ties to even. -/
def natToFloat (n : Nat) : Float :=
  let l := n.log2
  if l ≤ 52 then n.toUInt64.toFloat
  else
    let shift := l - 52
    let m := n >>> shift
    let rest := n - (m <<< shift)
    let half := 2 ^ (shift - 1)
    let m := if rest > half ∨ (rest = half ∧ m % 2 = 1) then m + 1 else m
    Float.scaleB m.toUInt64.toFloat shift

/-- Powers of ten `10 ^ 0 … 10 ^ 308` as nearest doubles. -/
def powersOfTen : Array Float := (List.range 309).toArray.map fun k => natToFloat (10 ^ k)

def u64Max : Nat := 2 ^ (64 : Nat) - 1

/-- Whether `acc * 10 + d` would pass `max`. -/
def passes (acc d max : Nat) : Bool := acc ≥ max / 10 && (acc > max / 10 || d > max % 10)

/-- Scale a significand by a power of ten in double arithmetic: one multiplication or
division by a tabled power, dividing by `1e308` first for smaller exponents. Too large a
result is refused. -/
def scale (positive : Bool) (sig : Nat) (exp : Int) : Option Float :=
  let rec go : Nat → Float → Int → Option Float
    | 0, _, _ => none
    | fuel + 1, f, e =>
      match powersOfTen[e.natAbs]? with
      | some p =>
        if e ≥ 0 then
          let g := f * p
          if g.isInf then none else some g
        else some (f / p)
      | none =>
        if f == 0 then some f
        else if e ≥ 0 then none
        else go fuel (f / natToFloat (10 ^ (308 : Nat))) (e + 308)
  (go 40 sig.toUInt64.toFloat exp).map fun f => if positive then f else -f

def digitRun : List Char → List Char × List Char
  | c :: cs => if c.isDigit then let (d, r) := digitRun cs; (c :: d, r) else ([], c :: cs)
  | [] => ([], [])

def digitVal (c : Char) : Nat := c.toNat - '0'.toNat

/-- Accumulate digits into a significand while it stays in 64 bits; report the digits taken
and the rest of the run. -/
def accumulate : Nat → List Char → Nat × Nat × List Char
  | acc, c :: cs =>
    if passes acc (digitVal c) u64Max then (acc, 0, c :: cs)
    else let (a, n, r) := accumulate (acc * 10 + digitVal c) cs; (a, n + 1, r)
  | acc, [] => (acc, 0, [])

/-- The exponent part after `e`: an optional sign and at least one digit. -/
def exponentPart (positive : Bool) (sig : Nat) (start : Int) (cs : List Char) :
    Option (Float × List Char) :=
  let (neg, cs) := match cs with
    | '+' :: r => (false, r)
    | '-' :: r => (true, r)
    | r => (false, r)
  let (ds, rest) := digitRun cs
  if ds.isEmpty then none
  else
    let rec expo : Nat → List Char → Option Nat
      | acc, c :: r =>
        if passes acc (digitVal c) (2 ^ (31 : Nat) - 1) then none else expo (acc * 10 + digitVal c) r
      | acc, [] => some acc
    match expo 0 ds with
    | none =>
      if sig ≠ 0 ∧ ¬neg then none
      else some ((if positive then 0.0 else -0.0), rest)
    | some e =>
      let e : Int := if neg then max (start - e) (-2 ^ (31 : Nat)) else min (start + e) (2 ^ (31 : Nat) - 1)
      (scale positive sig e).map (·, rest)

def fractionPart (positive : Bool) (sig : Nat) (start : Int) (cs : List Char) :
    Option (Float × List Char) :=
  match cs with
  | '.' :: r =>
    let (ds, rest) := digitRun r
    if ds.isEmpty then none
    else
      let (sig, taken, _) := accumulate sig ds
      let e := start - taken
      match rest with
      | c :: r2 => if c == 'e' || c == 'E' then exponentPart positive sig e r2 else (scale positive sig e).map (·, c :: r2)
      | [] => (scale positive sig e).map (·, [])
  | c :: r => if c == 'e' || c == 'E' then exponentPart positive sig start r else (scale positive sig start).map (·, c :: r)
  | [] => (scale positive sig start).map (·, [])

/-- A number; `cs` starts after an optional minus sign. -/
def number (positive : Bool) (cs : List Char) : Option (Json × List Char) :=
  let (ds, rest) := digitRun cs
  match ds with
  | [] => none
  | '0' :: _ :: _ => none
  | _ =>
    let (sig, taken, dropped) := accumulate 0 ds
    let extra : Int := dropped.length
    let asFloat := fractionPart positive sig extra rest |>.map fun (f, r) => (Json.float f, r)
    let isFloat := dropped ≠ [] || (match rest with | c :: _ => c == '.' || c == 'e' || c == 'E' | [] => false)
    if isFloat then asFloat
    else if taken = 0 then none
    else if positive then some (.int sig, rest)
    else if sig = 0 then some (.float (-0.0), rest)
    else if sig ≤ 2 ^ (63 : Nat) then some (.int (-(sig : Int)), rest)
    else some (.float (-(natToFloat sig)), rest)

def hex4 : List Char → Option (Nat × List Char)
  | a :: b :: c :: d :: r => do
    let v ← [a, b, c, d].foldlM (fun acc ch =>
      if ch.isDigit then some (acc * 16 + digitVal ch)
      else if 'a' ≤ ch ∧ ch ≤ 'f' then some (acc * 16 + ch.toNat - 'a'.toNat + 10)
      else if 'A' ≤ ch ∧ ch ≤ 'F' then some (acc * 16 + ch.toNat - 'A'.toNat + 10)
      else none) 0
    pure (v, r)
  | _ => none

/-- The character of a `\u` escape, pairing surrogates; `cs` starts after the `u`. -/
def unicodeEscape (cs : List Char) : Option (Char × List Char) := do
  let (n, r) ← hex4 cs
  if 0xDC00 ≤ n ∧ n ≤ 0xDFFF then none
  else if n < 0xD800 ∨ n > 0xDBFF then pure (Char.ofNat n, r)
  else
    match r with
    | '\\' :: 'u' :: r2 =>
      let (n2, r3) ← hex4 r2
      if n2 < 0xDC00 ∨ n2 > 0xDFFF then none
      else pure (Char.ofNat ((((n - 0xD800) <<< 10) ||| (n2 - 0xDC00)) + 0x10000), r3)
    | _ => none

/-- A string body up to its closing quote; `cs` starts after the opening quote. -/
def stringBody : List Char → List Char → Option (String × List Char)
  | acc, '"' :: r => some (String.ofList acc.reverse, r)
  | acc, '\\' :: e :: r =>
    match e with
    | '"' => stringBody ('"' :: acc) r
    | '\\' => stringBody ('\\' :: acc) r
    | '/' => stringBody ('/' :: acc) r
    | 'b' => stringBody ('\x08' :: acc) r
    | 'f' => stringBody ('\x0c' :: acc) r
    | 'n' => stringBody ('\n' :: acc) r
    | 'r' => stringBody ('\r' :: acc) r
    | 't' => stringBody ('\t' :: acc) r
    | 'u' =>
      match unicodeEscape r with
      | some (c, r2) => if _h : r2.length < r.length then stringBody (c :: acc) r2 else none
      | none => none
    | _ => none
  | acc, c :: r => if c.toNat < 0x20 then none else stringBody (c :: acc) r
  | _, [] => none
termination_by _ cs => cs.length

mutual
/-- A value at nesting `depth`, with `fuel` bounding the recursion. -/
def value : Nat → Nat → List Char → Option (Json × List Char)
  | 0, _, _ => none
  | fuel + 1, depth, cs =>
    match skipBlanks cs with
    | 'n' :: 'u' :: 'l' :: 'l' :: r => some (.null, r)
    | 't' :: 'r' :: 'u' :: 'e' :: r => some (.bool true, r)
    | 'f' :: 'a' :: 'l' :: 's' :: 'e' :: r => some (.bool false, r)
    | '"' :: r => (stringBody [] r).map fun (s, r) => (.str s, r)
    | '-' :: r => number false r
    | '[' :: r =>
      if depth + 1 ≥ 128 then none
      else match skipBlanks r with
        | ']' :: r2 => some (.arr [], r2)
        | r2 => items fuel (depth + 1) [] r2
    | '{' :: r =>
      if depth + 1 ≥ 128 then none
      else match skipBlanks r with
        | '}' :: r2 => some (.obj [], r2)
        | r2 => entries fuel (depth + 1) [] r2
    | c :: r => if c.isDigit then number true (c :: r) else none
    | [] => none

/-- Array items after `[`, each followed by `,` or `]`. -/
def items : Nat → Nat → List Json → List Char → Option (Json × List Char)
  | 0, _, _, _ => none
  | fuel + 1, depth, acc, cs =>
    match value fuel depth cs with
    | none => none
    | some (v, r) =>
      match skipBlanks r with
      | ',' :: r2 => items fuel depth (v :: acc) r2
      | ']' :: r2 => some (.arr (v :: acc).reverse, r2)
      | _ => none

/-- Object entries after the opening brace, each a key, a colon and a value. -/
def entries : Nat → Nat → List (String × Json) → List Char → Option (Json × List Char)
  | 0, _, _, _ => none
  | fuel + 1, depth, acc, cs =>
    match skipBlanks cs with
    | '"' :: r =>
      match stringBody [] r with
      | none => none
      | some (k, r2) =>
        match skipBlanks r2 with
        | ':' :: r3 =>
          match value fuel depth r3 with
          | none => none
          | some (v, r4) =>
            match skipBlanks r4 with
            | ',' :: r5 => entries fuel depth (setEntry acc k v) r5
            | '}' :: r5 => some (.obj (setEntry acc k v), r5)
            | _ => none
        | _ => none
    | _ => none
end

/-- Read a whole text as one JSON value; only blanks may follow it. -/
def parse? (s : String) : Option Json :=
  let cs := s.toList
  match value (cs.length + 1) 0 cs with
  | some (v, rest) => if (skipBlanks rest).isEmpty then some v else none
  | none => none

end ItemFlow.Json
