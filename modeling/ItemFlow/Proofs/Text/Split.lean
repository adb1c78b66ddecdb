import Mathlib
/-! Splitting a text at a character that takes one byte. The library's `String.splitOn` walks
byte positions, and its recursion is not one the kernel can run; read at the level of characters
it is `List.splitOn`, which runs. -/
namespace ItemFlow.Text

open String

theorem read_of_valid (p : List Char) (c : Char) (r : List Char) :
    (⟨utf8Len p⟩ : Pos.Raw).atEnd (ofList (p ++ c :: r)) = false ∧
      Pos.Raw.get (ofList (p ++ c :: r)) ⟨utf8Len p⟩ = c ∧
      Pos.Raw.next (ofList (p ++ c :: r)) ⟨utf8Len p⟩ = ⟨utf8Len p + c.utf8Size⟩ := by
  refine ⟨?_, by simpa using get_of_valid p (c :: r), by simpa using next_of_valid p c r⟩
  have h := atEnd_of_valid p (c :: r)
  simp only [reduceCtorEq, iff_false, Bool.not_eq_true] at h
  exact h

variable {d : Char}

/-- Splitting at a one-byte character, from a position inside the text: the part begun at `l`,
with `m` read so far, and what follows in `r`. -/
theorem splitOnAux_singleton (hd : d.utf8Size = 1) (r : List Char) :
    ∀ (l m : List Char) (acc : List String),
    splitOnAux (ofList (l ++ m ++ r)) (String.singleton d) ⟨utf8Len l⟩ ⟨utf8Len l + utf8Len m⟩ 0 acc =
      acc.reverse ++ (List.splitOnPPrepend (· == d) r m.reverse).map ofList := by
  -- the separator has one character, so the separator index never leaves `0`
  have hsep : Pos.Raw.get (String.singleton d) 0 = d := by
    have h := get_of_valid [] [d]
    rw [String.singleton_eq_ofList]
    simp only [List.nil_append, utf8Len_nil, List.headD_cons] at h
    exact h
  have hsep1 : Pos.Raw.next (String.singleton d) 0 = ⟨1⟩ := by
    have h := next_of_valid [] d []
    rw [String.singleton_eq_ofList]
    simp only [List.nil_append, utf8Len_nil, Nat.zero_add, hd] at h
    exact h
  have hsepEnd : Pos.Raw.atEnd (String.singleton d) ⟨1⟩ = true := by
    have h := (atEnd_of_valid [d] []).mpr rfl
    rw [String.singleton_eq_ofList]
    simpa only [List.append_nil, utf8Len_cons, utf8Len_nil, Nat.zero_add, hd] using h
  induction r with
  | nil =>
    intro l m acc
    rw [splitOnAux]
    have hend : (⟨utf8Len l + utf8Len m⟩ : Pos.Raw).atEnd (ofList (l ++ m ++ [])) := by
      simpa [List.append_nil] using (atEnd_of_valid (l ++ m) []).mpr rfl
    simp only [hend, ite_true]
    simpa using extract_of_valid l m []
  | cons c r ih =>
    intro l m acc
    rw [splitOnAux]
    obtain ⟨hnot, hget, hnext⟩ := read_of_valid (l ++ m) c r
    rw [utf8Len_append] at hnot hget hnext
    simp only [hnot, Bool.false_eq_true, ↓reduceIte, hget, hsep]
    by_cases hc : c = d
    · subst hc
      have hback : (⟨utf8Len l + utf8Len m + 1⟩ : Pos.Raw).unoffsetBy ⟨1⟩ =
          ⟨utf8Len l + utf8Len m⟩ := by
        simp [Pos.Raw.unoffsetBy]
      have hpos : utf8Len (l ++ m ++ [c]) = utf8Len l + utf8Len m + 1 := by
        simp [hd, Nat.add_assoc]
      have hrest := ih (l ++ m ++ [c]) [] (ofList m :: acc)
      rw [utf8Len_nil, Nat.add_zero, List.append_nil, hpos, List.append_assoc (l ++ m) [c] r,
        List.singleton_append] at hrest
      simp only [beq_self_eq_true, ↓reduceIte, hsep1, hsepEnd, hnext, hd, hback,
        extract_of_valid l m (c :: r), hrest,
        List.splitOnPPrepend_cons_pos (p := (· == c)) (beq_self_eq_true c)]
      simp
    · have hne : (c == d) = false := beq_false_of_ne hc
      have hpos : utf8Len l + utf8Len (m ++ [c]) = utf8Len l + utf8Len m + c.utf8Size := by
        simp [Nat.add_assoc]
      have hrest := ih l (m ++ [c]) acc
      rw [hpos, List.append_assoc l (m ++ [c]) r, List.append_assoc m [c] r, List.singleton_append,
        ← List.append_assoc] at hrest
      simp only [hne, Bool.false_eq_true, ↓reduceIte, Pos.Raw.unoffsetBy_zero, hnext]
      rw [hrest, List.splitOnPPrepend_cons_neg (p := (· == d)) hne]
      simp

/-- Splitting a text at a one-byte character splits its characters. -/
theorem splitOn_singleton (s : String) (hd : d.utf8Size = 1) :
    s.splitOn (String.singleton d) = (s.toList.splitOn d).map ofList := by
  have h := splitOnAux_singleton hd s.toList [] [] []
  simp only [List.nil_append, utf8Len_nil, Nat.add_zero, ofList_toList] at h
  rw [String.splitOn, if_neg (by rw [String.singleton_eq_ofList]; simp), List.splitOn_eq_splitOnP]
  exact h

end ItemFlow.Text
