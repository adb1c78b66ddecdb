import Mathlib
import ItemFlow.Viewer.Registry
/-! The semantics of viewer registries. A registry is a map from viewer ids to the viewer
registered under each, beside the viewers alive, which their holders may drop at any time without
telling it. Registering replaces by id, removing an id and clearing forget, and a notification
reaches the live registrations in id order and forgets the dead ones.

Main statement: after any history of registrations, removals, clears, notifications and drops, an
id is reported registered exactly when the viewer added last under it, and not removed or cleared
since, is alive; the count is the number of such ids; a notification reaches exactly those
viewers, each once and in id order, and keeps every live registration and no dead one; and a
removal reports whether the map held the id, live or dead. -/
namespace ItemFlow
namespace Registry

/-! ### Registering keeps one entry per id, in id order -/

theorem mem_addEntry {v w : Viewer} {l : List Viewer} (hl : l.Pairwise (·.id < ·.id)) :
    w ∈ addEntry v l ↔ w = v ∨ w ∈ l ∧ w.id ≠ v.id := by
  induction l with
  | nil => simp [addEntry]
  | cons u us ih =>
    obtain ⟨hu, hus⟩ := List.pairwise_cons.mp hl
    simp only [addEntry]
    split
    · next hlt =>
      have hbelow : ∀ x ∈ u :: us, x.id ≠ v.id := by
        intro x hx
        rcases List.mem_cons.mp hx with rfl | hx
        · exact (UInt64.ne_of_lt hlt).symm
        · exact (UInt64.ne_of_lt (UInt64.lt_trans hlt (hu x hx))).symm
      constructor
      · intro hw
        rcases List.mem_cons.mp hw with rfl | hw
        · exact .inl rfl
        · exact .inr ⟨hw, hbelow w hw⟩
      · rintro (rfl | ⟨hw, -⟩)
        · exact List.mem_cons_self
        · exact List.mem_cons_of_mem _ hw
    · split
      · next hlt heq =>
        have hid : v.id = u.id := beq_iff_eq.mp heq
        constructor
        · intro hw
          rcases List.mem_cons.mp hw with rfl | hw
          · exact .inl rfl
          · exact .inr ⟨List.mem_cons_of_mem _ hw, hid ▸ (UInt64.ne_of_lt (hu w hw)).symm⟩
        · rintro (rfl | ⟨hw, hne⟩)
          · exact List.mem_cons_self
          · rcases List.mem_cons.mp hw with rfl | hw
            · exact absurd hid.symm hne
            · exact List.mem_cons_of_mem _ hw
      · next hlt heq =>
        have hne : u.id ≠ v.id := fun h => heq (beq_iff_eq.mpr h.symm)
        rw [List.mem_cons, ih hus, List.mem_cons]
        constructor
        · rintro (rfl | rfl | ⟨hw, hne'⟩)
          · exact .inr ⟨.inl rfl, hne⟩
          · exact .inl rfl
          · exact .inr ⟨.inr hw, hne'⟩
        · rintro (rfl | ⟨rfl | hw, hne'⟩)
          · exact .inr (.inl rfl)
          · exact .inl rfl
          · exact .inr (.inr ⟨hw, hne'⟩)

theorem pairwise_addEntry (v : Viewer) {l : List Viewer} (hl : l.Pairwise (·.id < ·.id)) :
    (addEntry v l).Pairwise (·.id < ·.id) := by
  induction l with
  | nil => simp [addEntry]
  | cons u us ih =>
    obtain ⟨hu, hus⟩ := List.pairwise_cons.mp hl
    simp only [addEntry]
    split
    · next hlt =>
      refine List.pairwise_cons.mpr ⟨fun x hx => ?_, hl⟩
      rcases List.mem_cons.mp hx with rfl | hx
      · exact hlt
      · exact UInt64.lt_trans hlt (hu x hx)
    · split
      · next hlt heq =>
        have hid : v.id = u.id := beq_iff_eq.mp heq
        exact List.pairwise_cons.mpr ⟨fun x hx => hid ▸ hu x hx, hus⟩
      · next hlt heq =>
        -- past `u`: every entry of the rest, `v` included, is above it
        have hgt : u.id < v.id :=
          UInt64.lt_of_le_of_ne (UInt64.not_lt.mp hlt) fun h => heq (beq_iff_eq.mpr h.symm)
        refine List.pairwise_cons.mpr ⟨fun x hx => ?_, ih hus⟩
        rcases (mem_addEntry hus).mp hx with rfl | ⟨hx, -⟩
        · exact hgt
        · exact hu x hx

/-! ### Histories -/

/-- A call on a registry, or the drop of a viewer by its holder, which the registry is not told
of. -/
inductive Call where
  | add (v : Viewer)
  | remove (id : UInt64)
  | clear
  | notify
  | drop (v : Viewer)
deriving DecidableEq, Repr

/-- A registry beside the viewers alive. -/
structure State where
  registry : Registry
  alive : Viewer → Bool

/-- The abstract registry: a map from ids to the viewer registered under each, live or not,
beside the viewers alive. -/
structure Model where
  entry : UInt64 → Option Viewer
  alive : Viewer → Bool

namespace Call

def keepAlive (alive : Viewer → Bool) : Call → Viewer → Bool
  | add _ | remove _ | clear | notify => alive
  | drop v => fun w => alive w && w != v

def run (s : State) (c : Call) : State where
  registry := match c with
    | add v => s.registry.add v
    | remove id => (s.registry.remove id).1
    | clear => s.registry.clear
    | notify => (s.registry.notify s.alive).1
    | drop _ => s.registry
  alive := keepAlive s.alive c

/-- Carry out a call on the model: a notification forgets the viewers dead during it. -/
def step (m : Model) (c : Call) : Model where
  entry := match c with
    | add v => fun id => if id = v.id then some v else m.entry id
    | remove j => fun id => if id = j then none else m.entry id
    | clear => fun _ => none
    | notify => fun id => (m.entry id).filter m.alive
    | drop _ => m.entry
  alive := keepAlive m.alive c

/-- The viewer added last under `id` and not removed since, by `remove id` or `clear`. -/
def lastAdd (id : UInt64) (o : Option Viewer) : Call → Option Viewer
  | add v => if v.id = id then some v else o
  | remove j => if j = id then none else o
  | clear => none
  | notify | drop _ => o

def addedId : Call → Option UInt64
  | add v => some v.id
  | remove _ | clear | notify | drop _ => none

end Call

def replay (alive : Viewer → Bool) (h : List Call) : State := h.foldl Call.run ⟨{}, alive⟩

def Model.replay (alive : Viewer → Bool) (h : List Call) : Model :=
  h.foldl Call.step ⟨fun _ => none, alive⟩

def lastAdded (h : List Call) (id : UInt64) : Option Viewer := h.foldl (Call.lastAdd id) none

theorem lastAdded_append_singleton (h : List Call) (c : Call) (id : UInt64) :
    lastAdded (h ++ [c]) id = Call.lastAdd id (lastAdded h id) c := by
  simp [lastAdded, List.foldl_append]

theorem lastAdded_spec {h : List Call} {id : UInt64} {v : Viewer} (hv : lastAdded h id = some v) :
    v.id = id ∧ id ∈ h.filterMap Call.addedId := by
  induction h using List.reverseRecOn generalizing v with
  | nil => simp [lastAdded] at hv
  | append_singleton h c ih =>
    rw [lastAdded_append_singleton] at hv
    rw [List.filterMap_append, List.mem_append]
    cases c with
    | add w =>
      by_cases hw : w.id = id
      · rw [Call.lastAdd, if_pos hw, Option.some.injEq] at hv
        subst hv
        exact ⟨hw, .inr (by simp [Call.addedId, hw])⟩
      · rw [Call.lastAdd, if_neg hw] at hv
        exact (ih hv).imp_right .inl
    | remove j =>
      by_cases hj : j = id
      · rw [Call.lastAdd, if_pos hj] at hv
        cases hv
      · rw [Call.lastAdd, if_neg hj] at hv
        exact (ih hv).imp_right .inl
    | clear => cases hv
    | notify => exact (ih hv).imp_right .inl
    | drop w => exact (ih hv).imp_right .inl

theorem Call.step_entry {c : Call} (hc : c ≠ .notify) (m : Model) (id : UInt64) :
    (Call.step m c).entry id = Call.lastAdd id (m.entry id) c := by
  cases c with
  | add v =>
    by_cases hid : id = v.id
    · simp [Call.step, Call.lastAdd, hid]
    · simp [Call.step, Call.lastAdd, hid, Ne.symm hid]
  | remove j =>
    by_cases hid : id = j
    · simp [Call.step, Call.lastAdd, hid]
    · simp [Call.step, Call.lastAdd, hid, Ne.symm hid]
  | clear => rfl
  | notify => exact absurd rfl hc
  | drop v => rfl

theorem Call.lastAdd_of_agree {P : Viewer → Prop} {o o' : Option Viewer}
    (hoo : ∀ v, o = some v → P v → o' = some v) (id : UInt64) (c : Call) {v : Viewer}
    (hv : Call.lastAdd id o c = some v) (hp : P v) : Call.lastAdd id o' c = some v := by
  cases c with
  | add w =>
    by_cases hw : w.id = id
    · simpa [Call.lastAdd, hw] using hv
    · simp only [Call.lastAdd, hw, if_false] at hv ⊢
      exact hoo v hv hp
  | remove j =>
    by_cases hj : j = id
    · simp [Call.lastAdd, hj] at hv
    · simp only [Call.lastAdd, hj, if_false] at hv ⊢
      exact hoo v hv hp
  | clear => cases hv
  | notify => exact hoo v hv hp
  | drop w => exact hoo v hv hp

theorem Call.alive_of_keepAlive {alive : Viewer → Bool} {c : Call} {v : Viewer}
    (h : Call.keepAlive alive c v = true) : alive v = true := by
  cases c with
  | drop w => exact ((Bool.and_eq_true _ _).mp h).1
  | add w => exact h
  | remove j => exact h
  | clear => exact h
  | notify => exact h

/-! ### The registry refines the model -/

/-- What a history leaves: the registry holds, in id order, exactly the model's entries; the
model's entry under an id is the viewer added last under it, and it keeps that viewer while it
lives. -/
structure Replays (h : List Call) (s : State) (m : Model) : Prop where
  sorted : s.registry.entries.Pairwise (·.id < ·.id)
  mem_iff : ∀ v, v ∈ s.registry.entries ↔ m.entry v.id = some v
  alive : s.alive = m.alive
  entry_last : ∀ id v, m.entry id = some v → lastAdded h id = some v
  last_entry : ∀ id v, lastAdded h id = some v → m.alive v = true → m.entry id = some v

namespace Replays
variable {h : List Call} {s : State} {m : Model}

theorem nil (alive : Viewer → Bool) : Replays [] ⟨{}, alive⟩ ⟨fun _ => none, alive⟩ where
  sorted := .nil
  mem_iff v := by simp
  alive := rfl
  entry_last _ _ hv := by simp at hv
  last_entry _ _ hv := by simp [lastAdded] at hv

theorem entry_last_step (hr : Replays h s m) (c : Call) (id : UInt64) (w : Viewer)
    (hw : (Call.step m c).entry id = some w) : lastAdded (h ++ [c]) id = some w := by
  rw [lastAdded_append_singleton]
  by_cases hc : c = .notify
  · subst hc
    exact hr.entry_last id w (Option.filter_eq_some_iff.mp hw).1
  · rw [Call.step_entry hc] at hw
    exact Call.lastAdd_of_agree (P := fun _ => True) (fun v hv _ => hr.entry_last id v hv) id c
      hw trivial

theorem last_entry_step (hr : Replays h s m) (c : Call) (id : UInt64) (w : Viewer)
    (hw : lastAdded (h ++ [c]) id = some w) (halive : (Call.step m c).alive w = true) :
    (Call.step m c).entry id = some w := by
  rw [lastAdded_append_singleton] at hw
  have ha : m.alive w = true := Call.alive_of_keepAlive halive
  by_cases hc : c = .notify
  · subst hc
    simp only [Call.step]
    rw [hr.last_entry id w hw ha]
    simp [ha]
  · rw [Call.step_entry hc]
    exact Call.lastAdd_of_agree (hr.last_entry id) id c hw ha

theorem step (hr : Replays h s m) (c : Call) :
    Replays (h ++ [c]) (Call.run s c) (Call.step m c) where
  sorted := by
    cases c with
    | add v => exact pairwise_addEntry v hr.sorted
    | remove j => exact hr.sorted.filter _
    | clear => exact .nil
    | notify => exact hr.sorted.filter _
    | drop v => exact hr.sorted
  mem_iff w := by
    cases c with
    | add v =>
      simp only [Call.run, Call.step, add]
      rw [mem_addEntry hr.sorted, hr.mem_iff]
      by_cases hid : w.id = v.id
      · simp only [hid, if_true, Option.some.injEq, ne_eq, not_true_eq_false, and_false, or_false]
        exact eq_comm
      · simp only [hid, if_false, ne_eq, not_false_eq_true, and_true]
        exact ⟨fun h' => h'.resolve_left fun hwv => hid (hwv ▸ rfl), .inr⟩
    | remove j =>
      simp only [Call.run, Call.step, remove, List.mem_filter, hr.mem_iff, bne_iff_ne, ne_eq]
      by_cases hid : w.id = j <;> simp [hid]
    | clear => simp [Call.run, Call.step, Registry.clear]
    | notify =>
      simp only [Call.run, Call.step, Registry.notify, live, List.mem_filter, hr.mem_iff,
        Option.filter_eq_some_iff, hr.alive]
    | drop v => exact hr.mem_iff w
  alive := by simp [Call.run, Call.step, hr.alive]
  entry_last := hr.entry_last_step c
  last_entry := hr.last_entry_step c

theorem mem_entries_iff (hr : Replays h s m) {v : Viewer} (halive : s.alive v = true) :
    v ∈ s.registry.entries ↔ lastAdded h v.id = some v := by
  rw [hr.mem_iff]
  exact ⟨hr.entry_last _ _, fun hv => hr.last_entry _ _ hv (hr.alive ▸ halive)⟩

theorem mem_live_iff (hr : Replays h s m) {v : Viewer} :
    v ∈ s.registry.live s.alive ↔ lastAdded h v.id = some v ∧ s.alive v = true := by
  rw [live, List.mem_filter]
  constructor
  · rintro ⟨hv, ha⟩
    exact ⟨(hr.mem_entries_iff ha).mp hv, ha⟩
  · rintro ⟨hv, ha⟩
    exact ⟨(hr.mem_entries_iff ha).mpr hv, ha⟩

theorem contains_iff (hr : Replays h s m) (id : UInt64) :
    s.registry.contains s.alive id = true ↔ ∃ v, lastAdded h id = some v ∧ s.alive v = true := by
  simp only [contains, List.any_eq_true, Bool.and_eq_true, beq_iff_eq]
  constructor
  · rintro ⟨v, hv, rfl, ha⟩
    exact ⟨v, (hr.mem_entries_iff ha).mp hv, ha⟩
  · rintro ⟨v, hv, ha⟩
    obtain ⟨rfl, -⟩ := lastAdded_spec hv
    exact ⟨v, (hr.mem_entries_iff ha).mpr hv, rfl, ha⟩

theorem len_eq (hr : Replays h s m) :
    s.registry.len s.alive =
      ((h.filterMap Call.addedId).toFinset.filter fun id => (lastAdded h id).any s.alive).card := by
  have hnodup : ((s.registry.live s.alive).map (·.id)).Nodup :=
    List.pairwise_map.mpr ((hr.sorted.filter _).imp UInt64.ne_of_lt)
  rw [len, ← List.length_map (f := (·.id)), ← List.toFinset_card_of_nodup hnodup]
  congr 1
  ext id
  simp only [List.mem_toFinset, List.mem_map, Finset.mem_filter]
  constructor
  · rintro ⟨v, hv, rfl⟩
    obtain ⟨hlast, ha⟩ := hr.mem_live_iff.mp hv
    exact ⟨(lastAdded_spec hlast).2, by simp [hlast, ha]⟩
  · rintro ⟨-, hany⟩
    obtain ⟨v, hv, ha⟩ := (Option.any_eq_true _ _).mp hany
    obtain ⟨hid, -⟩ := lastAdded_spec hv
    exact ⟨v, hr.mem_live_iff.mpr ⟨hid ▸ hv, ha⟩, hid⟩

theorem remove_iff (hr : Replays h s m) (id : UInt64) :
    (s.registry.remove id).2 = true ↔ (m.entry id).isSome := by
  simp only [remove, List.any_eq_true, beq_iff_eq]
  constructor
  · rintro ⟨v, hv, rfl⟩
    rw [(hr.mem_iff v).mp hv]
    rfl
  · intro hsome
    obtain ⟨v, hv⟩ := Option.isSome_iff_exists.mp hsome
    obtain ⟨hid, -⟩ := lastAdded_spec (hr.entry_last id v hv)
    refine ⟨v, (hr.mem_iff v).mpr ?_, hid⟩
    rw [hid]
    exact hv

end Replays

/-- Every history leaves the registry refining the model. -/
theorem replays (alive : Viewer → Bool) (h : List Call) :
    Replays h (replay alive h) (Model.replay alive h) := by
  induction h using List.reverseRecOn with
  | nil => exact Replays.nil alive
  | append_singleton h c ih =>
    simpa [replay, Model.replay, List.foldl_append] using ih.step c

end Registry

/-- The semantics of a viewer registry, over any history of registrations, removals, clears,
notifications and drops from a new registry. An id is reported registered exactly when the
viewer added last under it, and not removed or cleared since, is alive, and the count is the
number of such ids. A notification reaches exactly those viewers, each once and in increasing id
order, so never one replaced by a later registration under its id; it keeps every live
registration and no dead one. A removal reports whether the map held the id, live or dead. -/
theorem viewer_registry_semantics (alive₀ : Viewer → Bool) (h : List Registry.Call) :
    let s := Registry.replay alive₀ h
    (∀ id, s.registry.contains s.alive id = true ↔
        ∃ v, Registry.lastAdded h id = some v ∧ s.alive v = true) ∧
      s.registry.len s.alive =
        ((h.filterMap Registry.Call.addedId).toFinset.filter fun id =>
          (Registry.lastAdded h id).any s.alive).card ∧
      ((s.registry.notify s.alive).2.Pairwise (·.id < ·.id) ∧
        ∀ v, v ∈ (s.registry.notify s.alive).2 ↔
          Registry.lastAdded h v.id = some v ∧ s.alive v = true) ∧
      (∀ v ∈ (s.registry.notify s.alive).1.entries, s.alive v = true) ∧
      (∀ v ∈ s.registry.entries, s.alive v = true → v ∈ (s.registry.notify s.alive).1.entries) ∧
      ∀ id, (s.registry.remove id).2 = true ↔ ((Registry.Model.replay alive₀ h).entry id).isSome := by
  intro s
  have hr := Registry.replays alive₀ h
  refine ⟨hr.contains_iff, hr.len_eq, ⟨hr.sorted.filter _, fun v => hr.mem_live_iff⟩,
    fun v hv => ?_, fun v hv ha => ?_, hr.remove_iff⟩
  · exact (List.mem_filter.mp hv).2
  · exact List.mem_filter.mpr ⟨hv, ha⟩

/-- Registering again under an id replaces: a notification reaches the later viewer only. -/
example :
    ((Registry.replay (fun _ => true) [.add ⟨1, 0⟩, .add ⟨2, 0⟩, .add ⟨1, 1⟩]).registry.notify
      fun _ => true).2 = [⟨1, 1⟩, ⟨2, 0⟩] := by
  decide

end ItemFlow
