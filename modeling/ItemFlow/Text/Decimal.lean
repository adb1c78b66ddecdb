import ItemFlow.Overflow
/-! Reading unsigned decimal numerals: an optional `+`, then one or more ASCII digits, leading
zeros allowed, the value bounded by the width of the target word. -/
namespace ItemFlow.Decimal

/-- Why a text is not an unsigned numeral of the requested width. -/
inductive ReadError where
  | empty
  | invalidDigit
  | tooLarge
deriving DecidableEq, Repr

/-- The text reported for each failure. -/
def ReadError.message : ReadError → String
  | .empty => "cannot parse integer from empty string"
  | .invalidDigit => "invalid digit found in string"
  | .tooLarge => "number too large to fit in target type"

/-- Digits read left to right: the first non-digit or the first value above `max` stops the
scan, whichever comes first. -/
def digits (max : Nat) : Nat → List Char → Except ReadError Nat
  | acc, [] => .ok acc
  | acc, c :: cs =>
    if c.isDigit then
      let v := acc * 10 + (c.toNat - '0'.toNat)
      if v ≤ max then digits max v cs else .error .tooLarge
    else .error .invalidDigit

/-- An unsigned numeral with value at most `max`. A lone sign is an invalid digit. -/
def readBounded (max : Nat) (s : String) : Except ReadError Nat :=
  match s.toList with
  | [] => .error .empty
  | ['+'] => .error .invalidDigit
  | '+' :: cs => digits max 0 cs
  | cs => digits max 0 cs

def readU16? (s : String) : Option UInt16 :=
  match readBounded (2 ^ (16 : Nat) - 1) s with
  | .ok n => some n.toUInt16
  | .error _ => none

def readU64 (s : String) : Except ReadError UInt64 :=
  (readBounded (2 ^ (64 : Nat) - 1) s).map Nat.toUInt64

end ItemFlow.Decimal
