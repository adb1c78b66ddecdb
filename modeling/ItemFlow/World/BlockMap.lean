import ItemFlow.Block.Basic
/-! The block map: stored blocks by position, in position order. Air is never stored, so
setting air removes and reading a free position gives air. -/
namespace ItemFlow

/-- Entries whose positions strictly increase, so that each position is bound at most once. -/
def BlockMap.Ascending (l : List (Pos × Block)) : Prop :=
  (l.map (·.1)).Pairwise fun p q => p.cmp q = .lt

theorem BlockMap.ascending_nil : BlockMap.Ascending [] := List.Pairwise.nil

/-- Stored blocks sorted by position, one per position, none of them air. -/
structure BlockMap where
  entries : List (Pos × Block) := []
  ascending : BlockMap.Ascending entries := by exact BlockMap.ascending_nil
deriving DecidableEq, Repr

namespace BlockMap

theorem Ascending.filter {l : List (Pos × Block)} (h : Ascending l) (f : Pos × Block → Bool) :
    Ascending (l.filter f) :=
  h.sublist ((List.filter_sublist).map _)

/-- The block at a position; air where nothing is stored. -/
def get (m : BlockMap) (p : Pos) : Block :=
  match m.entries.find? (·.1 == p) with
  | some (_, b) => b
  | none => .air

/-- Entries with a position bound, keeping the order. -/
def insertEntry (p : Pos) (b : Block) : List (Pos × Block) → List (Pos × Block)
  | [] => [(p, b)]
  | (q, c) :: rest =>
    match p.cmp q with
    | .lt => (p, b) :: (q, c) :: rest
    | .eq => (p, b) :: rest
    | .gt => (q, c) :: insertEntry p b rest

private theorem key_of_mem_insertEntry {p k : Pos} {b : Block} :
    ∀ {l : List (Pos × Block)}, k ∈ (insertEntry p b l).map (·.1) → k = p ∨ k ∈ l.map (·.1)
  | [], h => by simp_all [insertEntry]
  | (q, c) :: rest, h => by
    unfold insertEntry at h
    split at h
    · simp_all
    · simp only [List.map_cons, List.mem_cons] at h ⊢
      rcases h with rfl | h
      · exact .inl rfl
      · exact .inr (.inr h)
    · simp only [List.map_cons, List.mem_cons] at h
      rcases h with rfl | h
      · simp
      · rcases key_of_mem_insertEntry h with h | h <;> simp_all

theorem Ascending.insertEntry {p : Pos} {b : Block} :
    ∀ {l : List (Pos × Block)}, Ascending l → Ascending (BlockMap.insertEntry p b l)
  | [], _ => by simp [Ascending, BlockMap.insertEntry]
  | (q, c) :: rest, h => by
    simp only [Ascending, List.map_cons, List.pairwise_cons] at h
    unfold BlockMap.insertEntry
    split
    · next hpq =>
      simp only [Ascending, List.map_cons, List.pairwise_cons, List.mem_cons]
      refine ⟨?_, h.1, h.2⟩
      rintro k (rfl | hk)
      · exact hpq
      · exact Pos.cmp_lt_trans hpq (h.1 k hk)
    · next hpq =>
      rw [Pos.cmp_eq_eq_iff] at hpq
      subst hpq
      simpa [Ascending] using h
    · next hpq =>
      simp only [Ascending, List.map_cons, List.pairwise_cons]
      refine ⟨fun k hk => ?_, Ascending.insertEntry h.2⟩
      rcases key_of_mem_insertEntry hk with rfl | hk
      · exact Pos.cmp_eq_gt_iff.mp hpq
      · exact h.1 k hk

/-- Store a block at a position; air removes what was there. -/
def set (m : BlockMap) (p : Pos) (b : Block) : BlockMap :=
  match b with
  | .air => ⟨m.entries.filter (·.1 != p), m.ascending.filter _⟩
  | b => ⟨insertEntry p b m.entries, m.ascending.insertEntry⟩

theorem find?_insertEntry_self (p : Pos) (b : Block) :
    ∀ l : List (Pos × Block), (insertEntry p b l).find? (·.1 == p) = some (p, b)
  | [] => by simp [insertEntry]
  | (q, c) :: rest => by
    unfold insertEntry
    split
    · simp
    · simp
    · next hpq =>
      have hne : q ≠ p := by
        rintro rfl
        simp [Pos.cmp_eq_gt_iff, Pos.cmp_eq_lt_iff] at hpq
      simp [hne, find?_insertEntry_self p b rest]

theorem find?_insertEntry_ne {p q : Pos} (b : Block) (h : q ≠ p) :
    ∀ l : List (Pos × Block), (insertEntry p b l).find? (·.1 == q) = l.find? (·.1 == q)
  | [] => by simp [insertEntry, Ne.symm h]
  | (q', c) :: rest => by
    unfold insertEntry
    split
    · simp [Ne.symm h]
    · next hpq =>
      rw [Pos.cmp_eq_eq_iff] at hpq
      subst hpq
      simp [Ne.symm h]
    · rw [List.find?_cons, List.find?_cons, find?_insertEntry_ne b h rest]

theorem find?_set_ne (m : BlockMap) {p q : Pos} (b : Block) (h : q ≠ p) :
    (m.set p b).entries.find? (·.1 == q) = m.entries.find? (·.1 == q) := by
  unfold set
  split
  · rw [List.find?_filter]
    congr 1
    funext a
    by_cases ha : a.1 = q <;> simp [ha, h]
  · exact find?_insertEntry_ne _ h _

theorem get_set_self (m : BlockMap) (p : Pos) {b : Block} (hb : b ≠ .air) : (m.set p b).get p = b := by
  have : (m.set p b).entries = insertEntry p b m.entries := by
    unfold set
    split
    · exact absurd rfl hb
    · rfl
  simp [get, this, find?_insertEntry_self]

/-- Storing at one position leaves every other position as it was. -/
theorem get_set_ne (m : BlockMap) {p q : Pos} (b : Block) (h : q ≠ p) : (m.set p b).get q = m.get q := by
  simp only [get, find?_set_ne m b h]

/-- Remove and return the block at a position, if one is stored. -/
def take? (m : BlockMap) (p : Pos) : Option (Block × BlockMap) :=
  (m.entries.find? (·.1 == p)).map fun (_, b) => (b, ⟨m.entries.filter (·.1 != p), m.ascending.filter _⟩)

def size (m : BlockMap) : Nat := m.entries.length

/-- The positions of stored blocks, in order. -/
def positions (m : BlockMap) : List Pos := m.entries.map (·.1)

end BlockMap

end ItemFlow
