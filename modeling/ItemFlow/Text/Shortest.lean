import ItemFlow.Overflow
/-! Shortest decimal digits of a double: the fewest significant digits whose value rounds back
to the same double, the nearest such decimal when two qualify, and the even one on an exact
tie. Everything is exact `Nat` arithmetic on the double's fields. -/
namespace ItemFlow.Shortest

/-- A positive decimal `digits × 10 ^ exponent`. -/
structure Decimal where
  digits : Nat
  exponent : Int
deriving DecidableEq, Repr

/-- A positive finite double as `m × 2 ^ e`, with the half-gaps to its neighbours:
the interval of reals that round to it is `[(4m - lower) × 2 ^ (e - 2), (4m + 2) × 2 ^ (e - 2)]`,
ends included when `m` is even. -/
structure Binary where
  m : Nat
  e : Int
  lower : Nat

/-- The fields of a positive finite double given its biased exponent and fraction bits. -/
def Binary.ofFields (biased fraction : Nat) : Binary :=
  if biased = 0 then ⟨fraction, -1074, 2⟩
  else ⟨fraction + 2 ^ (52 : Nat), (biased : Int) - 1075, if fraction = 0 ∧ biased > 1 then 1 else 2⟩

def pow10 (k : Nat) : Nat := 10 ^ k

/-- `a / 2 ^ s` as a fraction `(num, den)` with both sides natural. -/
def scaled (a : Nat) (s : Int) : Nat × Nat :=
  if 0 ≤ s then (a * 2 ^ s.toNat, 1) else (a, 2 ^ (-s).toNat)

/-- Compare `c × 10 ^ k` with `num / den`. -/
def cmpGrid (c : Nat) (k : Int) (num den : Nat) : Ordering :=
  if 0 ≤ k then compare (c * pow10 k.toNat * den) num
  else compare (c * den) (num * pow10 (-k).toNat)

/-- The largest `E` with `10 ^ E ≤ num / den`, for `num > 0`, searched downwards from
`start` for at most `fuel` steps. -/
def floorLog10 (num den : Nat) : Nat → Int → Int
  | 0, k => k
  | fuel + 1, k => if cmpGrid 1 k num den ≠ .gt then k else floorLog10 num den fuel (k - 1)

/-- The grid point `floor (num / den / 10 ^ k)`. -/
def floorGrid (k : Int) (num den : Nat) : Nat :=
  if 0 ≤ k then num / (den * pow10 k.toNat) else num * pow10 (-k).toNat / den

/-- Whether `c × 10 ^ k` lies in the rounding interval `[lo, hi]` (over the common
denominator `den`), ends included when `closed`. -/
def inside (c : Nat) (k : Int) (lo hi den : Nat) (closed : Bool) : Bool :=
  let a := cmpGrid c k lo den
  let b := cmpGrid c k hi den
  (a == .gt || (closed && a == .eq)) && (b == .lt || (closed && b == .eq))

/-- Drop trailing zeros of the digits, raising the exponent. -/
def trim : Nat → Nat → Int → Decimal
  | 0, d, k => ⟨d, k⟩
  | fuel + 1, d, k => if d ≠ 0 ∧ d % 10 = 0 then trim fuel (d / 10) (k + 1) else ⟨d, k⟩

/-- The pick among the two grid neighbours `a` and `a + 1` at spacing `10 ^ k`. -/
def pickOnGrid (a : Nat) (k : Int) (v lo hi den : Nat) (closed : Bool) : Option Nat :=
  let inA := a ≠ 0 && inside a k lo hi den closed
  let inB := inside (a + 1) k lo hi den closed
  match inA, inB with
  | true, false => some a
  | false, true => some (a + 1)
  | false, false => none
  | true, true =>
    -- distances from v down to a and up to a + 1, over one scale
    let (below, above) :=
      if 0 ≤ k then (v - a * pow10 k.toNat * den, (a + 1) * pow10 k.toNat * den - v)
      else (v * pow10 (-k).toNat - a * den, (a + 1) * den - v * pow10 (-k).toNat)
    if below < above then some a
    else if above < below then some (a + 1)
    else if a % 2 = 0 then some a else some (a + 1)

/-- Try grids of `n`, `n + 1`, … significant digits, at most `fuel` of them. -/
def search (top : Int) (v lo hi den : Nat) (closed : Bool) : Nat → Nat → Option Decimal
  | 0, _ => none
  | fuel + 1, n =>
    let k := top + 1 - n
    match pickOnGrid (floorGrid k v den) k v lo hi den closed with
    | some c => some (trim 40 c k)
    | none => search top v lo hi den closed fuel (n + 1)

/-- The shortest decimal of a positive finite double. -/
def ofBinary (b : Binary) : Decimal :=
  let (v, den) := scaled (4 * b.m) (b.e - 2)
  let lo := (scaled (4 * b.m - b.lower) (b.e - 2)).1
  let hi := (scaled (4 * b.m + 2) (b.e - 2)).1
  let top := floorLog10 v den 700 330
  match search top v lo hi den (b.m % 2 == 0) 20 1 with
  | some d => d
  | none => trim 40 (floorGrid (top - 16) v den) (top - 16)

/-- The shortest decimal of the magnitude of a finite nonzero double. -/
def ofFloat (f : Float) : Decimal :=
  let bits := f.toBits.toNat
  ofBinary (Binary.ofFields ((bits / 2 ^ (52 : Nat)) % 2 ^ (11 : Nat)) (bits % 2 ^ (52 : Nat)))

end ItemFlow.Shortest
