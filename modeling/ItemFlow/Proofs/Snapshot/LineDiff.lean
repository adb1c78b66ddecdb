import ItemFlow.Snapshot.Golden
import ItemFlow.Json.Write
import ItemFlow.Files.Tree
import ItemFlow.Proofs.Text.Split
import Mathlib
/-! Comparing a text with its golden file, line by line. Splitting at line feeds is the
library's `String.splitOn`, read here at the level of characters; a text written as lines, each
ended by a line feed or by a carriage return and a line feed, has exactly those lines whatever
the endings. The first difference of two lists of lines lies just past their longest common
prefix, a missing line showing as `<eof>`.

Main statement: two texts show no difference exactly when their lines are equal, so endings
do not matter; otherwise the difference names the first line past the common prefix; and a
check that does not update succeeds exactly when the golden file reads as a text with the
lines of the canonical form. -/
namespace ItemFlow.Golden

section Split

open String

theorem splitOn_lineFeed (s : String) :
    s.splitOn "\n" = (s.toList.splitOn '\n').map ofList :=
  Text.splitOn_singleton (d := '\n') s rfl

theorem endsWith_return_iff (s : String) :
    s.endsWith "\r" = true ↔ s.toList.getLast? = some '\r' := by
  rw [endsWith_eq_endsWith_toSlice, Slice.endsWith_string_iff, copy_toSlice,
    ← List.singleton_suffix_iff_getLast?_eq_some]
  rfl

theorem dropCarriageReturn_ofList (cs : List Char) :
    dropCarriageReturn (ofList cs) = ofList (if cs.getLast? = some '\r' then cs.dropLast else cs) := by
  unfold dropCarriageReturn
  by_cases h : cs.getLast? = some '\r'
  · have h' : (ofList cs).endsWith "\r" = true := by
      rw [endsWith_return_iff, toList_ofList]
      exact h
    simp [h, h']
  · have h' : (ofList cs).endsWith "\r" = false := by
      rw [← Bool.not_eq_true, endsWith_return_iff, toList_ofList]
      exact h
    simp [h, h']

end Split

section Written

/-- How a written line ends: a line feed, or a carriage return and a line feed. -/
inductive Ending where
  | lf
  | crlf
deriving DecidableEq, Repr

def Ending.before : Ending → List Char
  | .lf => []
  | .crlf => ['\r']

/-- A line of a text: no line feed in it, and no carriage return at its end, where it would
read as the start of a carriage-return-and-line-feed ending. -/
structure Line where
  text : String
  no_feed : '\n' ∉ text.toList
  no_final_return : text.toList.getLast? ≠ some '\r'

def written (ls : List (Line × Ending)) : String :=
  String.ofList (ls.flatMap fun p => p.1.text.toList ++ p.2.before ++ ['\n'])

theorem splitOn_written (ls : List (Line × Ending)) :
    (ls.flatMap fun p => p.1.text.toList ++ p.2.before ++ ['\n']).splitOn '\n' =
      ls.map (fun p => p.1.text.toList ++ p.2.before) ++ [[]] := by
  induction ls with
  | nil => rfl
  | cons p ls ih =>
    have hfeed : '\n' ∉ p.1.text.toList ++ p.2.before := by
      cases p.2 <;> simp [Ending.before, p.1.no_feed]
    rw [List.flatMap_cons, List.append_assoc, List.singleton_append,
      List.splitOn_append_cons_self_of_not_mem hfeed, ih]
    rfl

theorem dropCarriageReturn_line (p : Line × Ending) :
    dropCarriageReturn (String.ofList (p.1.text.toList ++ p.2.before)) = p.1.text := by
  rw [dropCarriageReturn_ofList]
  cases p.2 with
  | lf => simp [Ending.before, p.1.no_final_return]
  | crlf => simp [Ending.before]

/-- A text written as lines has exactly those lines, whichever endings they were written with. -/
theorem lines_written (ls : List (Line × Ending)) : lines (written ls) = ls.map (·.1.text) := by
  have hparts : (written ls).splitOn "\n" =
      ls.map (fun p => String.ofList (p.1.text.toList ++ p.2.before)) ++ [""] := by
    rw [splitOn_lineFeed, written, String.toList_ofList, splitOn_written]
    simp
  -- the final feed leaves an empty last part, which is no line
  simp only [lines, hparts, List.dropLast_concat, List.getLast?_concat, List.map_map,
    Function.comp_def, dropCarriageReturn_line]

end Written

section CommonPrefix

variable {α : Type}

/-- `k` is the length of the longest common prefix of two lists: they share a prefix of that
length and none longer. -/
def CommonPrefixLength (xs ys : List α) (k : Nat) : Prop :=
  (∃ p, p <+: xs ∧ p <+: ys ∧ p.length = k) ∧ ∀ p, p <+: xs → p <+: ys → p.length ≤ k

theorem commonPrefixLength_zero {xs ys : List α} (h : xs.head? ≠ ys.head?) :
    CommonPrefixLength xs ys 0 := by
  refine ⟨⟨[], List.nil_prefix, List.nil_prefix, rfl⟩, ?_⟩
  rintro (_ | ⟨a, p⟩) hx hy
  · exact le_rfl
  · obtain ⟨s, rfl⟩ := hx
    obtain ⟨t, rfl⟩ := hy
    exact absurd rfl h

theorem CommonPrefixLength.cons {xs ys : List α} {k : Nat} (a : α)
    (h : CommonPrefixLength xs ys k) : CommonPrefixLength (a :: xs) (a :: ys) (k + 1) := by
  obtain ⟨⟨p, hx, hy, rfl⟩, hmax⟩ := h
  refine ⟨⟨a :: p, List.cons_prefix_cons.mpr ⟨rfl, hx⟩, List.cons_prefix_cons.mpr ⟨rfl, hy⟩, rfl⟩, ?_⟩
  rintro (_ | ⟨b, q⟩) hqx hqy
  · exact Nat.zero_le _
  · exact Nat.succ_le_succ (hmax q (List.cons_prefix_cons.mp hqx).2 (List.cons_prefix_cons.mp hqy).2)

end CommonPrefix

theorem firstDifference_self (n : Nat) (xs : List String) : firstDifference n xs xs = none := by
  induction xs generalizing n with
  | nil => rfl
  | cons x xs ih => simp [firstDifference, ih]

/-- Two different lists of lines differ first just past their longest common prefix, where
each shows its line or `<eof>` when it has no more. -/
theorem firstDifference_of_ne {xs ys : List String} (h : xs ≠ ys) (n : Nat) :
    ∃ k, CommonPrefixLength xs ys k ∧
      firstDifference n xs ys = some (n + k, xs.getD k "<eof>", ys.getD k "<eof>") := by
  fun_induction firstDifference n xs ys with
  | case1 => exact absurd rfl h
  | case2 n w ws g gs heq ih =>
    obtain rfl : w = g := beq_iff_eq.mp heq
    obtain ⟨k, hk, hrun⟩ := ih fun hs => h (hs ▸ rfl)
    refine ⟨k + 1, hk.cons w, ?_⟩
    rw [hrun, Nat.add_right_comm, Nat.add_assoc]
    rfl
  | case3 n w ws g gs hne =>
    have hwg : w ≠ g := fun he => by simp [he] at hne
    exact ⟨0, commonPrefixLength_zero (by simpa using hwg), rfl⟩
  | case4 n w ws => exact ⟨0, commonPrefixLength_zero (by simp), rfl⟩
  | case5 n g gs => exact ⟨0, commonPrefixLength_zero (by simp), rfl⟩

theorem difference_eq_none_iff {expected actual : String} :
    difference expected actual = none ↔ lines expected = lines actual := by
  constructor
  · intro h
    by_contra hne
    obtain ⟨k, -, hrun⟩ := firstDifference_of_ne hne 1
    rw [difference, hrun] at h
    cases h
  · intro h
    rw [difference, h, firstDifference_self]

/-- Without updating, a check succeeds exactly when the golden file reads as a text with the
lines of the actual text. -/
theorem check_eq_ok_iff (path actual : String) (t : FileTree) :
    (check path actual false : OnTree _).run' t = .ok () ↔
      ∃ bytes expected, t.readAt path = .ok bytes ∧ String.fromUTF8? bytes = some expected ∧
        lines expected = lines actual := by
  rcases hread : t.readAt path with e | bytes
  · simp [check, FileSystem.readFile, hread]
  rcases hutf : String.fromUTF8? bytes with _ | expected
  · simp [check, FileSystem.readFile, hread, hutf]
  rcases hdiff : difference expected actual with _ | ⟨n, w, g⟩
  · simp [check, FileSystem.readFile, hread, hutf, hdiff, ← difference_eq_none_iff]
    rfl
  · simp [check, FileSystem.readFile, hread, hutf, hdiff, ← difference_eq_none_iff]

end ItemFlow.Golden

namespace ItemFlow

open Golden in
/-- Golden texts compare by lines. Two texts show no difference exactly when their lines are
equal; so texts written from the same lines compare equal whichever of a line feed or a
carriage return and a line feed ends each line. Otherwise the difference is at line `n`, where
`n - 1` is the length of the longest common prefix of the two lists of lines, with line `n` of
each text or `<eof>` for a text that has no line `n`. A check that does not update, as when the
update switch is unset, succeeds exactly when the golden file reads as a text whose lines are
those of the canonical form of the value. -/
theorem snapshots_compare_by_lines :
    (∀ a b : String, difference a b = none ↔ lines a = lines b) ∧
    (∀ a b : String, lines a ≠ lines b → ∃ n w g, difference a b = some (n, w, g) ∧ 0 < n ∧
      CommonPrefixLength (lines a) (lines b) (n - 1) ∧
      w = (lines a).getD (n - 1) "<eof>" ∧ g = (lines b).getD (n - 1) "<eof>") ∧
    (∀ xs ys : List (Line × Ending), xs.map (·.1) = ys.map (·.1) →
      difference (written xs) (written ys) = none) ∧
    (∀ (t : FileTree) (path : String) (v : Json),
      (check path (Json.canonical v) (updates none) : OnTree _).run' t = .ok () ↔
        ∃ bytes expected, t.readAt path = .ok bytes ∧ String.fromUTF8? bytes = some expected ∧
          lines expected = lines (Json.canonical v)) := by
  refine ⟨fun a b => difference_eq_none_iff, fun a b hne => ?_, fun xs ys hsame => ?_,
    fun t path v => check_eq_ok_iff path _ t⟩
  · obtain ⟨k, hk, hrun⟩ := firstDifference_of_ne hne 1
    refine ⟨1 + k, _, _, hrun, by omega, ?_, ?_, ?_⟩ <;> rw [Nat.add_sub_cancel_left]
    exact hk
  · rw [difference_eq_none_iff, lines_written, lines_written]
    have htexts := congrArg (List.map Line.text) hsame
    rwa [List.map_map, List.map_map] at htexts

end ItemFlow
