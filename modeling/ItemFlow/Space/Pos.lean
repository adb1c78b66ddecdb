import ItemFlow.Space.Face
import ItemFlow.Overflow
/-! Integer block positions. Stepping across a face adds the face's offset coordinate by
coordinate in 32-bit signed arithmetic, trapping at the edge of the range. Positions are
ordered by x, then y, then z. -/
namespace ItemFlow

/-- A block position in world space. -/
structure Pos where
  x : Int32
  y : Int32
  z : Int32
deriving DecidableEq, Repr

namespace Pos

def side (p : Pos) (f : Face) : Except Overflow Pos := do
  let (dx, dy, dz) := f.offset
  let x ← Overflow.addI32 p.x dx
  let y ← Overflow.addI32 p.y dy
  let z ← Overflow.addI32 p.z dz
  pure ⟨x, y, z⟩

/-- All six neighbours in face index order. -/
def neighbors (p : Pos) : Except Overflow (List Pos) :=
  Face.all.mapM p.side

def key (p : Pos) : Int × Int × Int := (p.x.toInt, p.y.toInt, p.z.toInt)

/-- Lexicographic order on x, then y, then z. -/
def cmp (a b : Pos) : Ordering :=
  (compare a.x.toInt b.x.toInt).then ((compare a.y.toInt b.y.toInt).then (compare a.z.toInt b.z.toInt))

theorem cmp_eq_lt_iff {a b : Pos} :
    a.cmp b = .lt ↔ a.x.toInt < b.x.toInt ∨ a.x.toInt = b.x.toInt ∧
      (a.y.toInt < b.y.toInt ∨ a.y.toInt = b.y.toInt ∧ a.z.toInt < b.z.toInt) := by
  simp only [cmp, Ordering.then_eq_lt, Int.compare_eq_lt, Int.compare_eq_eq]

theorem cmp_eq_gt_iff {a b : Pos} : a.cmp b = .gt ↔ b.cmp a = .lt := by
  simp only [cmp, Ordering.then_eq_gt, Ordering.then_eq_lt, Int.compare_eq_gt, Int.compare_eq_lt,
    Int.compare_eq_eq]
  omega

theorem cmp_eq_eq_iff {a b : Pos} : a.cmp b = .eq ↔ a = b := by
  obtain ⟨a1, a2, a3⟩ := a
  obtain ⟨b1, b2, b3⟩ := b
  simp only [cmp, Ordering.then_eq_eq, Int.compare_eq_eq, Int32.toInt_inj, mk.injEq]

theorem cmp_lt_trans {a b c : Pos} (hab : a.cmp b = .lt) (hbc : b.cmp c = .lt) : a.cmp c = .lt := by
  rw [cmp_eq_lt_iff] at *
  omega

theorem ne_of_cmp_lt {a b : Pos} (h : a.cmp b = .lt) : a ≠ b := by
  rintro rfl
  rw [cmp_eq_lt_iff] at h
  omega

end Pos

/-- A simulation tick number. -/
structure Tick where
  val : UInt64
deriving DecidableEq, Repr

namespace Tick

def zero : Tick := ⟨0⟩

/-- The tick `delta` later; the sum traps beyond 64 bits. -/
def advance (t : Tick) (delta : UInt64) : Except Overflow Tick :=
  Tick.mk <$> Overflow.addU64 t.val delta

end Tick

end ItemFlow
