/-! Checked arithmetic on fixed-width words: an operation whose exact result leaves the word's
range traps instead of wrapping. -/
namespace ItemFlow

/-- Powers by a natural exponent, of naturals and integers alike, resolve to the core power
whether or not Mathlib, which adds a monoid power of its own, is in scope. -/
instance (priority := 1100) powNat {α : Type _} [NatPow α] : Pow α Nat := instPowNat

/-- The arithmetic trap raised when an exact result does not fit its word. -/
inductive Overflow where
  | add
  | sub
deriving DecidableEq, Repr

namespace Overflow

def message : Overflow → String
  | .add => "attempt to add with overflow"
  | .sub => "attempt to subtract with overflow"

/-- Sum of two unsigned 32-bit words, trapping at `2 ^ 32`. -/
def addU32 (a b : UInt32) : Except Overflow UInt32 :=
  if a.toNat + b.toNat < 2 ^ (32 : Nat) then .ok (a + b) else .error .add

/-- Sum of two unsigned 64-bit words, trapping at `2 ^ 64`. -/
def addU64 (a b : UInt64) : Except Overflow UInt64 :=
  if a.toNat + b.toNat < 2 ^ (64 : Nat) then .ok (a + b) else .error .add

/-- Sum of two signed 32-bit words, trapping outside `[-2 ^ 31, 2 ^ 31)`. -/
def addI32 (a b : Int32) : Except Overflow Int32 :=
  let s := a.toInt + b.toInt
  if -2 ^ (31 : Nat) ≤ s ∧ s < 2 ^ (31 : Nat) then .ok (Int32.ofInt s) else .error .add

/-- Sum of two signed 64-bit words, trapping outside `[-2 ^ 63, 2 ^ 63)`. -/
def addI64 (a b : Int64) : Except Overflow Int64 :=
  let s := a.toInt + b.toInt
  if -2 ^ (63 : Nat) ≤ s ∧ s < 2 ^ (63 : Nat) then .ok (Int64.ofInt s) else .error .add

/-- Difference of two signed 64-bit words, trapping outside `[-2 ^ 63, 2 ^ 63)`. -/
def subI64 (a b : Int64) : Except Overflow Int64 :=
  let s := a.toInt - b.toInt
  if -2 ^ (63 : Nat) ≤ s ∧ s < 2 ^ (63 : Nat) then .ok (Int64.ofInt s) else .error .sub

end Overflow

end ItemFlow
