import ItemFlow.Files.Tree
/-! The in-memory file tree read back. Putting an entry changes only the lookup of its own path;
writing a file succeeds exactly when its directory is reached and no directory stands in its
place, and then the file reads back and can be written again. Making directories and writing
other files keep every directory and a given file, so that file reads back across them as
before.

Main statements: `readAt_writeAt`, a written file reads back, and `Keeps.readAt`, a file reads
back across any steps that keep it. -/
namespace ItemFlow

namespace FileTree

theorem isDir_eq_true_iff (t : FileTree) (p : List String) : t.isDir p = true ↔ t.find? p = some .dir := by
  unfold isDir
  split <;> simp_all

theorem find?_put_self (t : FileTree) {p : List String} (e : Entry) (hp : p ≠ []) :
    (t.put p e).find? p = some e := by
  cases p with
  | nil => exact absurd rfl hp
  | cons c cs =>
    have hnone : List.find? (fun _ => false) t.entries = none := List.find?_eq_none.mpr (by simp)
    simp [find?, put, List.find?_append, List.find?_filter, hnone]

theorem find?_put_of_ne (t : FileTree) {p q : List String} (e : Entry) (h : q ≠ p) :
    (t.put p e).find? q = t.find? q := by
  cases q with
  | nil => rfl
  | cons c cs =>
    -- the entries dropped by `put` are those at `p`, which a lookup of `q` skips anyway
    have hpred : (fun x : List String × Entry => !decide (x.1 = p) && decide (x.1 = c :: cs)) =
        fun x => x.1 == c :: cs := by
      funext x
      by_cases hx : x.1 = c :: cs <;> simp [hx, h]
    simp [find?, put, List.find?_append, List.find?_filter, hpred, Ne.symm h]

theorem reach_put (t : FileTree) {p : List String} (e : Entry) :
    ∀ (done rest : List String), done.length + rest.length < p.length →
      (t.put p e).reach done rest = t.reach done rest
  | _, [], _ => rfl
  | done, c :: rest, h => by
    have hne : done ++ [c] ≠ p := fun heq => by
      have := congrArg List.length heq
      simp at this h
      omega
    simp only [reach, find?_put_of_ne t e hne]
    rcases t.find? (done ++ [c]) with _ | _ | d
    · rfl
    · exact reach_put t e _ rest (by simp at h ⊢; omega)
    · rfl

theorem reach_put_dropLast (t : FileTree) {p : List String} (e : Entry) (hp : p ≠ []) :
    (t.put p e).reach [] p.dropLast = t.reach [] p.dropLast := by
  have hlen := List.length_pos_iff.mpr hp
  exact reach_put t e [] p.dropLast (by rw [List.length_nil, List.length_dropLast]; omega)

theorem mkdir_eq_ok {t t' : FileTree} {p : List String} (h : t.mkdir p = .ok t') :
    t.find? p = none ∧ t' = t.put p .dir := by
  simp only [mkdir, bind, Except.bind, throw, throwThe, MonadExceptOf.throw, pure,
    Except.pure] at h
  by_cases hp : p.isEmpty
  · simp [hp] at h
  cases hr : t.reach [] p.dropLast with
  | error e => simp [hp, hr] at h
  | ok u =>
    cases hf : t.find? p with
    | some e => simp [hp, hr, hf] at h
    | none =>
      simp only [hp, hr, hf, Option.isSome_none, Bool.false_eq_true, if_false,
        Except.ok.injEq] at h
      exact ⟨rfl, h.symm⟩

theorem writeFile_eq_ok_iff {t t' : FileTree} {cs : List String} {data : ByteArray} :
    t.writeFile cs data = .ok t' ↔
      cs ≠ [] ∧ t.reach [] cs.dropLast = .ok () ∧ t.isDir cs = false ∧ t' = t.put cs (.file data) := by
  simp only [writeFile, bind, Except.bind, throw, throwThe, MonadExceptOf.throw, pure, Except.pure]
  by_cases hcs : cs.isEmpty
  · simp [List.isEmpty_iff.mp hcs]
  have hne : cs ≠ [] := fun h => hcs (List.isEmpty_iff.mpr h)
  cases hr : t.reach [] cs.dropLast with
  | error e => simp [hcs]
  | ok u =>
    cases hd : t.isDir cs <;> simp [hcs, hne, eq_comm]

theorem readFile_eq_ok_iff {t : FileTree} {cs : List String} {data : ByteArray} :
    t.readFile cs = .ok data ↔
      cs ≠ [] ∧ t.reach [] cs.dropLast = .ok () ∧ t.find? cs = some (.file data) := by
  simp only [readFile, bind, Except.bind, throw, throwThe, MonadExceptOf.throw, pure, Except.pure]
  by_cases hcs : cs.isEmpty
  · simp [List.isEmpty_iff.mp hcs]
  have hne : cs ≠ [] := fun h => hcs (List.isEmpty_iff.mpr h)
  cases hr : t.reach [] cs.dropLast with
  | error e => simp [hcs]
  | ok u =>
    rcases t.find? cs with _ | _ | d <;> simp [hcs, hne]

/-- A path ending in a slash is never written: writing by a path is writing its components. -/
theorem writeAt_eq_ok_iff {t t' : FileTree} {p : String} {data : ByteArray} :
    t.writeAt p data = .ok t' ↔
      Path.namesDirectory p = false ∧ t.writeFile (Path.components p) data = .ok t' := by
  simp only [writeAt, bind, Except.bind, throw, throwThe, MonadExceptOf.throw]
  cases hd : Path.namesDirectory p with
  | false => simp
  | true =>
    simp only [if_true, Bool.true_eq_false, false_and, iff_false]
    cases t.reach [] (Path.components p).dropLast with
    | error e => simp
    | ok u =>
      simp only
      split <;> simp

/-- A path ending in a slash is never read: reading by a path is reading its components. The
one branch that could pass, a path ending in a slash with no file at its components, fails in
the read of those components. -/
theorem readAt_eq_ok_iff {t : FileTree} {p : String} {data : ByteArray} :
    t.readAt p = .ok data ↔
      Path.namesDirectory p = false ∧ t.readFile (Path.components p) = .ok data := by
  simp only [readAt, bind, Except.bind, throw, throwThe, MonadExceptOf.throw]
  cases hd : Path.namesDirectory p with
  | false => simp
  | true =>
    simp only [if_true, Bool.true_eq_false, false_and, iff_false]
    cases hf : t.find? (Path.components p) with
    | some e =>
      cases e with
      | file d =>
        simp only
        cases t.reach [] (Path.components p).dropLast <;> simp
      | dir => simp [readFile_eq_ok_iff, hf]
    | none => simp [readFile_eq_ok_iff, hf]

theorem readFile_writeFile {t t' : FileTree} {cs : List String} {data : ByteArray}
    (h : t.writeFile cs data = .ok t') : t'.readFile cs = .ok data := by
  obtain ⟨hne, hr, -, rfl⟩ := writeFile_eq_ok_iff.mp h
  exact readFile_eq_ok_iff.mpr ⟨hne, by rw [reach_put_dropLast t _ hne, hr], find?_put_self t _ hne⟩

theorem readAt_writeAt {t t' : FileTree} {p : String} {data : ByteArray}
    (h : t.writeAt p data = .ok t') : t'.readAt p = .ok data := by
  obtain ⟨hd, hw⟩ := writeAt_eq_ok_iff.mp h
  exact readAt_eq_ok_iff.mpr ⟨hd, readFile_writeFile hw⟩

theorem writeAt_writeAt {t t' : FileTree} {p : String} {data : ByteArray}
    (h : t.writeAt p data = .ok t') (data' : ByteArray) :
    t'.writeAt p data' = .ok (t'.put (Path.components p) (.file data')) := by
  obtain ⟨hd, hw⟩ := writeAt_eq_ok_iff.mp h
  obtain ⟨hne, hr, -, rfl⟩ := writeFile_eq_ok_iff.mp hw
  have hfile : (t.put (Path.components p) (.file data)).isDir (Path.components p) = false := by
    simp [isDir, find?_put_self t _ hne]
  exact writeAt_eq_ok_iff.mpr ⟨hd, writeFile_eq_ok_iff.mpr
    ⟨hne, by rw [reach_put_dropLast t _ hne, hr], hfile, rfl⟩⟩

/-- `t'` keeps every directory of `t`, and the file `t` has at `cs` if it has one there. -/
structure Keeps (t t' : FileTree) (cs : List String) : Prop where
  dirs : ∀ q, t.isDir q = true → t'.isDir q = true
  file : ∀ d, t.find? cs = some (.file d) → t'.find? cs = some (.file d)

namespace Keeps

variable {t t₁ t₂ t' : FileTree} {cs : List String}

theorem refl (t : FileTree) (cs : List String) : Keeps t t cs := ⟨fun _ h => h, fun _ h => h⟩

theorem trans (h₁ : Keeps t t₁ cs) (h₂ : Keeps t₁ t₂ cs) : Keeps t t₂ cs :=
  ⟨fun q h => h₂.dirs q (h₁.dirs q h), fun d h => h₂.file d (h₁.file d h)⟩

theorem put_dir {q : List String} (hq : t.find? q = none) : Keeps t (t.put q .dir) cs := by
  have hne : ∀ r, t.find? r ≠ none → r ≠ q := fun r hr heq => hr (heq ▸ hq)
  refine ⟨fun r hr => ?_, fun d hd => ?_⟩
  · have hr' := (isDir_eq_true_iff t r).mp hr
    rw [isDir_eq_true_iff, find?_put_of_ne t _ (hne r (by rw [hr']; simp)), hr']
  · rw [find?_put_of_ne t _ (hne cs (by rw [hd]; simp)), hd]

theorem put_file {q : List String} {data : ByteArray} (hd : t.isDir q = false) (hq : q ≠ cs) :
    Keeps t (t.put q (.file data)) cs := by
  refine ⟨fun r hr => ?_, fun d hf => ?_⟩
  · have hrq : r ≠ q := by
      rintro rfl
      rw [hd] at hr
      cases hr
    rw [isDir_eq_true_iff, find?_put_of_ne t _ hrq, ← isDir_eq_true_iff]
    exact hr
  · rw [find?_put_of_ne t _ (Ne.symm hq), hf]

theorem mkdir {q : List String} (h : t.mkdir q = .ok t') : Keeps t t' cs := by
  obtain ⟨hq, rfl⟩ := mkdir_eq_ok h
  exact put_dir hq

theorem createDirAllRev : ∀ (rest : List String) {t t' : FileTree},
    t.createDirAllRev rest = .ok t' → Keeps t t' cs
  | [], t, t', h => by
    cases h
    exact refl t cs
  | c :: rest, t, t', h => by
    rw [FileTree.createDirAllRev] at h
    cases hm : t.mkdir (c :: rest).reverse with
    | ok t₁ =>
      simp only [hm, Except.ok.injEq] at h
      exact h ▸ mkdir hm
    | error e =>
      cases e with
      | notFound =>
        -- the parents first, then the directory itself, unless it has appeared meanwhile
        cases hp : t.createDirAllRev rest with
        | error e' => simp only [hm, hp, reduceCtorEq] at h
        | ok t₁ =>
          have hk := createDirAllRev rest hp
          cases hm' : t₁.mkdir (c :: rest).reverse with
          | ok t₂ =>
            simp only [hm, hp, hm', Except.ok.injEq] at h
            exact h ▸ hk.trans (mkdir hm')
          | error e' =>
            simp only [hm, hp, hm'] at h
            split at h
            · cases h
              exact hk
            · cases h
      | alreadyExists | notDirectory | isDirectory | other _ _ =>
        simp only [hm] at h
        split at h
        · cases h
          exact refl t cs
        · cases h

theorem createDirAll {p : List String} (h : t.createDirAll p = .ok t') : Keeps t t' cs :=
  createDirAllRev p.reverse h

theorem writeFile {q : List String} {data : ByteArray} (h : t.writeFile q data = .ok t')
    (hq : q ≠ cs) : Keeps t t' cs := by
  obtain ⟨-, -, hd, rfl⟩ := writeFile_eq_ok_iff.mp h
  exact put_file hd hq

theorem writeAt {p : String} {data : ByteArray} (h : t.writeAt p data = .ok t')
    (hp : Path.components p ≠ cs) : Keeps t t' cs :=
  writeFile (writeAt_eq_ok_iff.mp h).2 hp

theorem reach (h : Keeps t t' cs) :
    ∀ (done rest : List String), t.reach done rest = .ok () → t'.reach done rest = .ok ()
  | _, [], _ => rfl
  | done, c :: rest, hr => by
    simp only [FileTree.reach] at hr ⊢
    cases hf : t.find? (done ++ [c]) with
    | none => simp [hf] at hr
    | some e =>
      cases e with
      | file _ => simp [hf] at hr
      | dir =>
        simp only [hf] at hr
        have hd := (isDir_eq_true_iff t' _).mp (h.dirs _ ((isDir_eq_true_iff t _).mpr hf))
        simp only [hd]
        exact h.reach _ rest hr

theorem readFile (h : Keeps t t' cs) {data : ByteArray} (hr : t.readFile cs = .ok data) :
    t'.readFile cs = .ok data := by
  obtain ⟨hne, hreach, hf⟩ := readFile_eq_ok_iff.mp hr
  exact readFile_eq_ok_iff.mpr ⟨hne, h.reach [] _ hreach, h.file data hf⟩

/-- A file read by a path reads back the same across steps that keep it. -/
theorem readAt {p : String} (h : Keeps t t' (Path.components p)) {data : ByteArray}
    (hr : t.readAt p = .ok data) : t'.readAt p = .ok data := by
  obtain ⟨hd, hf⟩ := readAt_eq_ok_iff.mp hr
  exact readAt_eq_ok_iff.mpr ⟨hd, h.readFile hf⟩

end Keeps

end FileTree

section OnTree

theorem run_writeFile_onTree (p : String) (data : ByteArray) (t : FileTree) :
    (FileSystem.writeFile p data : OnTree _).run t =
      match t.writeAt p data with
      | .ok t' => ((.ok () : Except IoError Unit), t')
      | .error e => (.error e, t) := by
  show (match t.writeAt p data with
    | .ok t' => (set t' : OnTree Unit) >>= fun _ => pure (Except.ok ())
    | .error e => pure (Except.error e)).run t = _
  cases t.writeAt p data <;> rfl

theorem run_createDirAll_onTree (p : String) (t : FileTree) :
    (FileSystem.createDirAll p : OnTree _).run t =
      match t.createDirAll (Path.components p) with
      | .ok t' => ((.ok () : Except IoError Unit), t')
      | .error e => (.error e, t) := by
  show (match t.createDirAll (Path.components p) with
    | .ok t' => (set t' : OnTree Unit) >>= fun _ => pure (Except.ok ())
    | .error e => pure (Except.error e)).run t = _
  cases t.createDirAll (Path.components p) <;> rfl

/-- An action on a tree whose every run keeps the directories and the file at `cs`. -/
def KeepsAt {α : Type} (cs : List String) (x : OnTree α) : Prop :=
  ∀ t : FileTree, FileTree.Keeps t (x.run t).2 cs

namespace KeepsAt

variable {cs : List String}

theorem pure {α : Type} (a : α) : KeepsAt cs (pure a : OnTree α) := fun t => .refl t cs

theorem bind {α β : Type} {x : OnTree α} {f : α → OnTree β} (hx : KeepsAt cs x)
    (hf : ∀ a, KeepsAt cs (f a)) : KeepsAt cs (x >>= f) :=
  fun t => (hx t).trans (hf (x.run t).1 (x.run t).2)

theorem readFile (p : String) : KeepsAt cs (FileSystem.readFile p : OnTree _) :=
  fun t => .refl t cs

theorem createDirAll (p : String) : KeepsAt cs (FileSystem.createDirAll p : OnTree _) := by
  intro t
  rw [run_createDirAll_onTree]
  cases h : t.createDirAll (Path.components p) with
  | ok t' => exact FileTree.Keeps.createDirAll h
  | error e => exact .refl t cs

theorem writeFile {p : String} (data : ByteArray) (hp : Path.components p ≠ cs) :
    KeepsAt cs (FileSystem.writeFile p data : OnTree _) := by
  intro t
  rw [run_writeFile_onTree]
  cases h : t.writeAt p data with
  | ok t' => exact FileTree.Keeps.writeAt h hp
  | error e => exact .refl t cs

end KeepsAt

end OnTree

end ItemFlow
