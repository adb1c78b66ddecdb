import ItemFlow.Proofs.Inventory.Mirror
import ItemFlow.Proofs.Save.Restore
/-! Viewers across reloading a block from its fields. Reloading keeps the block's registry and
replays the `Items` entries into fresh storage wired to it, so the registry's viewers receive
one change for each replayed entry and nothing for a slot no entry sets, while the old storage,
which earlier copies of the block still hold, stays wired to the same registry.

Main statement: a viewer that watched the block's storage alone receives exactly the replayed
changes; its mirror then equals the rebuilt slots exactly when every slot the replay leaves
alone was empty, and from then on each slot of its mirror shows that slot of the new storage
or of the old one. -/
namespace ItemFlow
open Act

namespace Slots

@[simp] theorem size_replay (s : Slots) (cs : List Change) : (s.replay cs).size = s.size := by
  induction cs generalizing s with
  | nil => rfl
  | cons c cs ih => simp [ih]

theorem getElem?_replay_of_not_mem {s : Slots} {cs : List Change} {k : Nat}
    (hk : k ∉ cs.map Change.slot) : (s.replay cs)[k]? = s[k]? := by
  induction cs generalizing s with
  | nil => rfl
  | cons c cs ih =>
    simp only [List.map_cons, List.mem_cons, not_or] at hk
    rw [replay_cons, ih hk.2, Array.getElem?_setIfInBounds_ne (Ne.symm hk.1)]

theorem getElem?_replay_of_mem {s t : Slots} (hst : s.size = t.size) {cs : List Change} {k : Nat}
    (hk : k ∈ cs.map Change.slot) : (s.replay cs)[k]? = (t.replay cs)[k]? := by
  induction cs generalizing s t with
  | nil => cases hk
  | cons c cs ih =>
    rw [replay_cons, replay_cons]
    by_cases hin : k ∈ cs.map Change.slot
    · exact ih (by simp [hst]) hin
    · have hc : k = c.slot := by simpa [hin] using hk
      subst hc
      rw [getElem?_replay_of_not_mem hin, getElem?_replay_of_not_mem hin,
        Array.getElem?_setIfInBounds_self, Array.getElem?_setIfInBounds_self, hst]

section
variable {s : Slots} {n : Nat} {entries : List Field}

/-- Onto slots of the same count, the changes of a replay into empty slots set the slots they
report as the replay leaves them and keep every other slot. -/
theorem getElem?_replay_loadFields (hs : s.size = n) (k : Nat) :
    (s.replay ((empty n).loadFields entries).changes)[k]? =
      if k ∈ ((empty n).loadFields entries).changes.map Change.slot
      then ((empty n).loadFields entries).slots[k]? else s[k]? := by
  split
  · next hk =>
    rw [getElem?_replay_of_mem (t := empty n) (by simp [hs, empty]) hk, replays_loadFields]
  · next hk => exact getElem?_replay_of_not_mem hk

theorem getElem?_loadFields_of_not_mem {k : Nat}
    (hk : k ∉ ((empty n).loadFields entries).changes.map Change.slot) :
    ((empty n).loadFields entries).slots[k]? = (empty n)[k]? := by
  rw [← replays_loadFields, getElem?_replay_of_not_mem hk]

/-- Onto slots of the same count, the changes of a replay into empty slots rebuild its slots
exactly when every slot it does not report was empty. -/
theorem replay_loadFields_eq_iff (hs : s.size = n) :
    s.replay ((empty n).loadFields entries).changes = ((empty n).loadFields entries).slots ↔
      ∀ k < n, k ∉ ((empty n).loadFields entries).changes.map Change.slot → s[k]? = some none := by
  constructor
  · intro h k hk hnot
    have hk' := @getElem?_replay_loadFields s n entries hs k
    rw [h, if_neg hnot, getElem?_loadFields_of_not_mem hnot] at hk'
    rw [← hk']
    simp [empty, hk]
  · intro h
    apply Array.ext_getElem?
    intro k
    rw [getElem?_replay_loadFields hs]
    split
    · rfl
    · next hnot =>
      rw [getElem?_loadFields_of_not_mem hnot]
      by_cases hk : k < n
      · rw [h k hk hnot]
        simp [empty, hk]
      · rw [Array.getElem?_eq_none (by omega), Array.getElem?_eq_none (by simp [empty]; omega)]

end

end Slots

namespace Block

/-- The realm a rebuilding read leaves: fresh storage of the block's slot count on the block's
registry, filled by replaying the `Items` entries. -/
def reloaded (r : Realm) (b : Block) (g : RegistryId) (m : FieldMap) : Realm :=
  (r.newStorage b.slotCount g).2.applyEdit ⟨r.storages.size⟩
    ((Slots.empty b.slotCount).loadFields (m.getList "Items"))

/-- Reading fields back either keeps the block (its `id` names another kind), or rebuilds it on
fresh storage of its kind's slot count, wired to its own registry and filled by replaying the
`Items` entries. -/
theorem run_decode (b : Block) (m : FieldMap) (r : Realm) :
    (b.decode m).run r = .ok (b, r) ∨
      ∃ g b', b.viewersOf? = some g ∧ b'.inventory? = some ⟨r.storages.size⟩ ∧
        b'.viewersOf? = some g ∧
        (b.decode m).run r = .ok (b', reloaded r b g m) := by
  unfold decode
  split
  · exact .inr ⟨_, _, rfl, rfl, rfl, rfl⟩
  · exact .inr ⟨_, _, rfl, rfl, rfl, rfl⟩
  · exact .inr ⟨_, _, rfl, rfl, rfl, rfl⟩
  · exact .inl rfl

end Block

namespace Realm
variable {r : Realm} {v : Viewer} {i i' : InventoryId}

/-- Viewer `v` watches storages `i` and `i'` together: `i'` reports to a registry in which `v`
is the one live registration under its id, `i` reports to that same registry, and every other
storage reports where the id is not live. -/
structure WatchesPair (r : Realm) (v : Viewer) (i i' : InventoryId) : Prop where
  watched : ∃ s, r.storages[i'.idx]? = some s ∧ (r.watchers s.registry).filter (·.id == v.id) = [v] ∧
    (r.storages[i.idx]?).map Storage.registry = some s.registry
  apart : ∀ (j : Nat) (s : Storage), r.storages[j]? = some s → j ≠ i.idx → j ≠ i'.idx →
    ∀ w ∈ r.watchers s.registry, w.id ≠ v.id

theorem WatchesPair.filter_watchers (hw : r.WatchesPair v i i') {j : InventoryId} (hj : j = i ∨ j = i')
    {s : Storage} (hs : r.storages[j.idx]? = some s) :
    (r.watchers s.registry).filter (·.id == v.id) = [v] := by
  obtain ⟨s', hs', hv, hreg⟩ := hw.watched
  rcases hj with rfl | rfl
  · rw [hs, Option.map_some, Option.some.injEq] at hreg
    rw [hreg, hv]
  · rw [hs, Option.some.injEq] at hs'
    rw [hs', hv]

theorem WatchesPair.of_sameWatch {r' : Realm} (hw : r.WatchesPair v i i') (h : r.SameWatch r') :
    r'.WatchesPair v i i' := by
  obtain ⟨s, hs, hv, hreg⟩ := hw.watched
  refine ⟨?_, fun j s' hs' hj hj' w hwm => ?_⟩
  · have hi' := h.registry i'.idx
    rw [hs, Option.map_some] at hi'
    obtain ⟨s', hs', hreg'⟩ := Option.map_eq_some_iff.mp hi'
    exact ⟨s', hs', by rw [h.watchers, hreg', hv], by rw [h.registry i.idx, hreg, hreg']⟩
  · obtain ⟨s, hs, hws⟩ := h.storage hs'
    exact hw.apart j s hs hj hj' w (hws ▸ hwm)

theorem WatchesPair.withStorage (hw : r.WatchesPair v i i') (size : Nat) :
    (r.withStorage size).WatchesPair v i i' := by
  obtain ⟨s, hs, hv, hreg⟩ := hw.watched
  have hlt : i'.idx < r.storages.size := (Array.getElem?_eq_some_iff.mp hs).1
  have hilt : i.idx < r.storages.size := by
    cases h : r.storages[i.idx]? with
    | none => rw [h] at hreg; cases hreg
    | some _ => exact (Array.getElem?_eq_some_iff.mp h).1
  refine ⟨⟨s, by rw [getElem?_storages_withStorage hlt, hs], by rw [watchers_withStorage, hv],
    by rw [getElem?_storages_withStorage hilt, hreg]⟩, ?_⟩
  intro j s' hs' hj hj' w hwm
  rcases watchers_new_withStorage hs' with hs' | hnil
  · rw [watchers_withStorage] at hwm
    exact hw.apart j s' hs' hj hj' w hwm
  · rw [hnil] at hwm
    cases hwm

/-- What viewer `v`, watching `i` and `i'` together, has made of the mirror `m` it held at `r₀`:
the log has only grown, the three have one size, and each slot of the mirror with the changes
delivered under `v`'s id since `r₀` applied shows that slot of `i'` or of `i`. -/
def Shows (r₀ : Realm) (v : Viewer) (m : Slots) (i i' : InventoryId) (r : Realm) : Prop :=
  r.WatchesPair v i i' ∧ r₀.log.toList <+: r.log.toList ∧
    (r.slotsOf i).size = m.size ∧ (r.slotsOf i').size = m.size ∧
    ∀ k : Nat, (m.replay (r.receivedSince r₀ v.id))[k]? = (r.slotsOf i')[k]? ∨
      (m.replay (r.receivedSince r₀ v.id))[k]? = (r.slotsOf i)[k]?

theorem slotsOf_applyEdit_of_lt {j : InventoryId} (hlt : j.idx < r.storages.size) (e : Edit)
    (l : InventoryId) : (r.applyEdit j e).slotsOf l = if j = l then e.slots else r.slotsOf l := by
  rw [slotsOf_applyEdit]
  by_cases hjl : j = l
  · subst hjl
    rw [if_pos ⟨rfl, hlt⟩, if_pos rfl]
  · rw [if_neg fun h => hjl h.1, if_neg hjl]

section
variable {r₀ : Realm} {m : Slots} {j : InventoryId} {e : Edit}

/-- Storing an edit that replays from the slots it edits keeps what the viewer shows: an edit of
either watched storage reaches it once and sets the slots it reports in both, and an edit of any
other storage neither reaches it nor touches the pair. -/
theorem Shows.applyEdit (h : Shows r₀ v m i i' r) (he : (r.slotsOf j).Replays e) :
    Shows r₀ v m i i' (r.applyEdit j e) := by
  obtain ⟨hw, hpre, hsi, hsi', hshow⟩ := h
  have hw' := hw.of_sameWatch (sameWatch_applyEdit j e)
  cases hs : r.storages[j.idx]? with
  | none =>
    rw [applyEdit_of_none hs]
    exact ⟨hw, hpre, hsi, hsi', hshow⟩
  | some s =>
    have hlt : j.idx < r.storages.size := (Array.getElem?_eq_some_iff.mp hs).1
    have hpre' : r₀.log.toList <+: (r.applyEdit j e).log.toList :=
      hpre.trans (log_applyEdit hs e ▸ List.prefix_append _ _)
    have hslots := slotsOf_applyEdit_of_lt hlt e
    refine ⟨hw', hpre', ?_⟩
    rw [receivedSince_applyEdit hpre hs]
    by_cases hj : j = i ∨ j = i'
    · rw [hw.filter_watchers hj hs]
      simp only [List.map_cons, List.map_nil, List.flatMap_singleton']
      have hsize : (r.slotsOf j).size = m.size := by rcases hj with rfl | rfl <;> assumption
      refine ⟨?_, ?_, fun k => ?_⟩
      · rw [hslots, ← he]; split <;> simp [*]
      · rw [hslots, ← he]; split <;> simp [*]
      · rw [Slots.replay_append]
        by_cases hk : k ∈ e.changes.map Change.slot
        · have hm : (Slots.replay (m.replay (r.receivedSince r₀ v.id)) e.changes)[k]? =
              ((r.slotsOf j).replay e.changes)[k]? :=
            Slots.getElem?_replay_of_mem (by simp [hsize]) hk
          rw [hm, he]
          rcases hj with rfl | rfl
          · exact .inr (by rw [hslots, if_pos rfl])
          · exact .inl (by rw [hslots, if_pos rfl])
        · rw [Slots.getElem?_replay_of_not_mem hk, hslots, hslots]
          have hkeep : ∀ l : InventoryId, (if j = l then e.slots else r.slotsOf l)[k]? = (r.slotsOf l)[k]? := by
            intro l
            split
            · next hjl => subst hjl; rw [← he, Slots.getElem?_replay_of_not_mem hk]
            · rfl
          rw [hkeep, hkeep]
          exact hshow k
    · have hidx : j.idx ≠ i.idx ∧ j.idx ≠ i'.idx := by
        constructor <;> intro hji <;> apply hj
        · exact .inl (by cases i; cases j; simp_all)
        · exact .inr (by cases i'; cases j; simp_all)
      have hnone : (r.watchers s.registry).filter (·.id == v.id) = [] :=
        List.filter_eq_nil_iff.mpr fun w hwm => by simpa using hw.apart j.idx s hs hidx.1 hidx.2 w hwm
      rw [hnone]
      simp only [List.map_nil, List.flatMap_eq_nil_iff.mpr fun _ _ => rfl, List.append_nil]
      rw [hslots, hslots, if_neg fun h => hj (.inl h), if_neg fun h => hj (.inr h)]
      exact ⟨hsi, hsi', hshow⟩

theorem Shows.setBlock (h : Shows r₀ v m i i' r) (p : Pos) (b : Block) :
    Shows r₀ v m i i' { r with blocks := r.blocks.set p b } :=
  ⟨h.1.of_sameWatch ⟨fun _ => rfl, fun _ => rfl⟩, h.2⟩

theorem Shows.withStorage (h : Shows r₀ v m i i' r) (size : Nat) :
    Shows r₀ v m i i' (r.withStorage size) := by
  obtain ⟨hw, hpre, hsi, hsi', hshow⟩ := h
  obtain ⟨s, hs, -, hreg⟩ := hw.watched
  have hlt : i'.idx < r.storages.size := (Array.getElem?_eq_some_iff.mp hs).1
  have hilt : i.idx < r.storages.size := by
    cases h : r.storages[i.idx]? with
    | none => rw [h] at hreg; cases hreg
    | some _ => exact (Array.getElem?_eq_some_iff.mp h).1
  refine ⟨hw.withStorage size, hpre, ?_⟩
  rw [slotsOf_withStorage size hlt, slotsOf_withStorage size hilt]
  exact ⟨hsi, hsi', hshow⟩

end

theorem Watches.pair_newStorage (hw : r.Watches v i) {g : RegistryId}
    (hwired : (r.storages[i.idx]?).map Storage.registry = some g) (size : Nat) :
    (r.newStorage size g).2.WatchesPair v i ⟨r.storages.size⟩ := by
  obtain ⟨s, hs, hv⟩ := hw.watched
  rw [hs, Option.map_some, Option.some.injEq] at hwired
  have hilt : i.idx < r.storages.size := (Array.getElem?_eq_some_iff.mp hs).1
  refine ⟨⟨⟨Slots.empty size, g⟩, by simp [newStorage], ?_, ?_⟩, fun j s' hs' hj hj' w hwm => ?_⟩
  · rw [← hwired]
    exact hv
  · simp [newStorage, Array.getElem?_push, Nat.ne_of_lt hilt, hs, hwired]
  · have hjlt : j < r.storages.size := by
      have := (Array.getElem?_eq_some_iff.mp hs').1
      simp [newStorage] at this hj'
      omega
    simp only [newStorage, Array.getElem?_push, Nat.ne_of_lt hjlt, if_false] at hs'
    exact hw.apart j s' hs' hj w hwm

end Realm

namespace Block
variable {r : Realm} {v : Viewer} {b : Block} {i : InventoryId} {g : RegistryId} {m : FieldMap}

theorem slotsOf_reloaded_old (hi : i.idx < r.storages.size) : (reloaded r b g m).slotsOf i = r.slotsOf i := by
  have hne : (⟨r.storages.size⟩ : InventoryId) ≠ i := fun h => by rw [← h] at hi; exact Nat.lt_irrefl _ hi
  rw [reloaded, Realm.slotsOf_applyEdit, if_neg fun h => hne h.1]
  simp [Realm.slotsOf, Realm.newStorage, Array.getElem?_push, Nat.ne_of_lt hi]

theorem slotsOf_reloaded_new :
    (reloaded r b g m).slotsOf ⟨r.storages.size⟩ =
      ((Slots.empty b.slotCount).loadFields (m.getList "Items")).slots := by
  rw [reloaded, Realm.slotsOf_applyEdit]
  simp [Realm.newStorage]

/-- While `v` watches the block's storage alone, the changes it receives from a rebuilding read
are those of the replayed entries, in order. -/
theorem receivedSince_reloaded (hw : r.Watches v i)
    (hwired : (r.storages[i.idx]?).map Storage.registry = some g) :
    (reloaded r b g m).receivedSince r v.id =
      ((Slots.empty b.slotCount).loadFields (m.getList "Items")).changes := by
  have hpair := hw.pair_newStorage hwired b.slotCount
  have hs : (r.newStorage b.slotCount g).2.storages[r.storages.size]? = some ⟨Slots.empty b.slotCount, g⟩ := by
    simp [Realm.newStorage]
  have h₀ : r.log.toList <+: (r.newStorage b.slotCount g).2.log.toList := List.prefix_refl _
  rw [reloaded, Realm.receivedSince_applyEdit (j := ⟨r.storages.size⟩) h₀ hs,
    hpair.filter_watchers (.inr rfl) hs]
  have hnil : (r.newStorage b.slotCount g).2.receivedSince r v.id = [] := Realm.receivedSince_self (r := r) v.id
  simp [hnil]

theorem shows_reloaded (hw : r.Watches v i)
    (hwired : (r.storages[i.idx]?).map Storage.registry = some g)
    (hsize : (r.slotsOf i).size = b.slotCount) :
    r.Shows v (r.slotsOf i) i ⟨r.storages.size⟩ (reloaded r b g m) := by
  obtain ⟨s, hs, -⟩ := hw.watched
  have hilt : i.idx < r.storages.size := (Array.getElem?_eq_some_iff.mp hs).1
  have hnew : (r.newStorage b.slotCount g).2.storages[r.storages.size]? =
      some ⟨Slots.empty b.slotCount, g⟩ := by
    simp [Realm.newStorage]
  refine ⟨(hw.pair_newStorage hwired b.slotCount).of_sameWatch (Realm.sameWatch_applyEdit _ _), ?_,
    by rw [slotsOf_reloaded_old hilt], ?_, fun k => ?_⟩
  · rw [reloaded, Realm.log_applyEdit (i := ⟨r.storages.size⟩) hnew]
    exact List.prefix_append _ _
  · rw [slotsOf_reloaded_new, hsize, ← Slots.replays_loadFields, Slots.size_replay]
    simp [Slots.empty]
  · rw [receivedSince_reloaded hw hwired, Slots.getElem?_replay_loadFields hsize,
      slotsOf_reloaded_new, slotsOf_reloaded_old hilt]
    split
    · exact .inl rfl
    · exact .inr rfl

end Block


namespace Realm

/-- A viewer watching two storages together keeps showing, slot by slot, one of them over every
sequence of slot actions. -/
theorem Shows.run {r₀ r r' : Realm} {v : Viewer} {m : Slots} {i i' : InventoryId}
    (h : Shows r₀ v m i i' r) (ops : List SlotOp) (hrun : (ops.forM SlotOp.run).run r = .ok ((), r')) :
    Shows r₀ v m i i' r' :=
  Act.Preserves.forM (SlotOp.run_preserves_of_edits (P := Shows r₀ v m i i')
    (fun _ _ _ hs he => hs.applyEdit he) (fun _ p b hs => hs.setBlock p b)
    (fun _ size hs => hs.withStorage size)) ops h hrun

end Realm

/-- What viewer `v` sees of reading fields `m` back into block `b`, whose storage `i` it watched:
the read succeeds and either keeps the block, delivering nothing, or rebuilds it on fresh
storage `i'` wired to `b`'s registry `g`, where `i` keeps its slots and its wiring. During the
read `v` receives exactly the changes of replaying the `Items` entries; with them applied, its
mirror holds the fresh slots where the replay reported and the old slots elsewhere, so it
equals the fresh slots exactly when every slot the replay leaves alone was empty. From then
on, over every sequence of slot actions, `v` watches `i` and `i'` together and each slot of
its mirror shows that slot of one of them. -/
def Realm.SeesReload (r : Realm) (v : Viewer) (b : Block) (i : InventoryId) (g : RegistryId)
    (m : FieldMap) : Prop :=
  ∃ b' r', (b.decode m).run r = .ok (b', r') ∧
    ((b' = b ∧ r' = r) ∨
      ∃ i', b'.inventory? = some i' ∧ b'.viewersOf? = some g ∧ i' ≠ i ∧
        (r'.storages[i'.idx]?).map Storage.registry = some g ∧
        (r'.storages[i.idx]?).map Storage.registry = some g ∧ r'.slotsOf i = r.slotsOf i ∧
        r'.receivedSince r v.id = ((Slots.empty b.slotCount).loadFields (m.getList "Items")).changes ∧
        (∀ k : Nat, ((r.slotsOf i).replay (r'.receivedSince r v.id))[k]? =
          if k ∈ (r'.receivedSince r v.id).map Change.slot then (r'.slotsOf i')[k]?
          else (r.slotsOf i)[k]?) ∧
        ((r.slotsOf i).replay (r'.receivedSince r v.id) = r'.slotsOf i' ↔
          ∀ k < b.slotCount, k ∉ (r'.receivedSince r v.id).map Change.slot →
            (r.slotsOf i)[k]? = some none) ∧
        ∀ (ops : List SlotOp) (r'' : Realm), (ops.forM SlotOp.run).run r' = .ok ((), r'') →
          r''.WatchesPair v i i' ∧ r.log.toList <+: r''.log.toList ∧
          ∀ k : Nat, ((r.slotsOf i).replay (r''.receivedSince r v.id))[k]? = (r''.slotsOf i')[k]? ∨
            ((r.slotsOf i).replay (r''.receivedSince r v.id))[k]? = (r''.slotsOf i)[k]?)

/-- Viewers across reloading a block from its fields. A viewer that watches alone a storage wired
to the registry of a hopper, chest or furnace and of the block's slot count, such as the block's
own storage, sees the read as `Realm.SeesReload` says, for every field map. -/
theorem viewers_across_reload (r : Realm) (v : Viewer) (b : Block) (i : InventoryId)
    (g : RegistryId) (m : FieldMap) (hg : b.viewersOf? = some g)
    (hwired : (r.storages[i.idx]?).map Storage.registry = some g)
    (hsize : (r.slotsOf i).size = b.slotCount) (hw : r.Watches v i) :
    r.SeesReload v b i g m := by
  rcases Block.run_decode b m r with hkeep | ⟨g', b', hg', hi', hgb', hrun⟩
  · exact ⟨b, r, hkeep, .inl ⟨rfl, rfl⟩⟩
  · rw [hg, Option.some.injEq] at hg'
    subst hg'
    obtain ⟨s, hs, -⟩ := hw.watched
    have hilt : i.idx < r.storages.size := (Array.getElem?_eq_some_iff.mp hs).1
    have hshows := Block.shows_reloaded (b := b) (m := m) hw hwired hsize
    have hrecv := Block.receivedSince_reloaded (b := b) (m := m) hw hwired
    have hreg : ∀ j : Nat, ((Block.reloaded r b g m).storages[j]?).map Storage.registry =
        ((r.newStorage b.slotCount g).2.storages[j]?).map Storage.registry :=
      Realm.registry_applyEdit _ _
    refine ⟨b', _, hrun, .inr ⟨⟨r.storages.size⟩, hi', hgb', ?_, ?_, ?_,
      Block.slotsOf_reloaded_old hilt, hrecv, fun k => ?_, ?_, fun ops r'' hrun'' => ?_⟩⟩
    · intro h
      rw [← h] at hilt
      exact Nat.lt_irrefl _ hilt
    · rw [hreg]
      simp [Realm.newStorage]
    · rw [hreg]
      simpa [Realm.newStorage, Array.getElem?_push, Nat.ne_of_lt hilt] using hwired
    · rw [hrecv, Slots.getElem?_replay_loadFields hsize, Block.slotsOf_reloaded_new]
    · rw [hrecv, Block.slotsOf_reloaded_new]
      exact Slots.replay_loadFields_eq_iff hsize
    · obtain ⟨hw'', hpre, -, -, hshow⟩ := hshows.run ops hrun''
      exact ⟨hw'', hpre, hshow⟩

/-- A hopper reading fields that hold its kind and no `Items` entry is rebuilt empty without a
single notification, so its viewer's mirror keeps the stone the hopper held. -/
theorem reload_leaves_mirror_stale :
    let v : Viewer := ⟨1, 0⟩
    let r : Realm :=
      { storages := #[⟨#[some (Stack.new .stone 2), none, none, none, none], ⟨0⟩⟩]
        registries := #[⟨[v]⟩], alive := [v] }
    let b : Block := .hopper ⟨.down, false, "", Tick.zero, 0, 0, ⟨0⟩, ⟨0⟩⟩
    r.Watches v ⟨0⟩ ∧ ∃ b' r', (b.decode [("id", .string "Hopper")]).run r = .ok (b', r') ∧
      b'.inventory? = some ⟨1⟩ ∧ (r.slotsOf ⟨0⟩).replay (r'.receivedSince r v.id) ≠ r'.slotsOf ⟨1⟩ := by
  intro v r b
  have hw : r.Watches v ⟨0⟩ := by
    refine ⟨⟨_, rfl, by decide⟩, fun j s hs hj => ?_⟩
    have hlt : j < 1 := (Array.getElem?_eq_some_iff.mp hs).1
    exact absurd (Nat.lt_one_iff.mp hlt) hj
  exact ⟨hw, _, _, rfl, rfl, by decide⟩

/-- A hopper read back from fields moves to fresh storage, while its old storage still reports to
the same registry: a stone set afterwards into the old storage, which no block holds any more,
reaches the viewer. -/
theorem old_storage_still_reaches_viewer :
    let v : Viewer := ⟨1, 0⟩
    let r : Realm :=
      { storages := #[⟨#[none, none, none, none, none], ⟨0⟩⟩]
        registries := #[⟨[v]⟩], alive := [v] }
    let b : Block := .hopper ⟨.down, false, "", Tick.zero, 0, 0, ⟨0⟩, ⟨0⟩⟩
    ∃ b' r' r'', (b.decode [("id", .string "Hopper")]).run r = .ok (b', r') ∧
      b'.inventory? = some ⟨1⟩ ∧ b'.viewersOf? = some ⟨0⟩ ∧
      (Act.setItem ⟨0⟩ 0 (some (Stack.new .stone 1))).run r' = .ok (.ok (), r'') ∧
      r''.receivedSince r' v.id = [⟨0, some (Stack.new .stone 1)⟩] := by
  intro v r b
  exact ⟨_, _, _, rfl, rfl, rfl, rfl, by decide⟩

/-- A viewer watching a hopper that holds stone sees the hopper read back from fields holding a
unit of stone in its first slot. -/
theorem viewer_sees_hopper_reload :
    let v : Viewer := ⟨1, 0⟩
    let r : Realm :=
      { storages := #[⟨#[some (Stack.new .stone 2), none, none, none, none], ⟨0⟩⟩]
        registries := #[⟨[v]⟩], alive := [v] }
    let b : Block := .hopper ⟨.down, false, "", Tick.zero, 0, 0, ⟨0⟩, ⟨0⟩⟩
    let m : FieldMap := [("Items", .list [.compound [("Count", .byte 1), ("Name", .string "block:1"),
      ("Slot", .byte 0)]]), ("id", .string "Hopper")]
    b.viewersOf? = some ⟨0⟩ ∧ (r.storages[0]?).map Storage.registry = some ⟨0⟩ ∧
      (r.slotsOf ⟨0⟩).size = b.slotCount ∧ r.Watches v ⟨0⟩ ∧ r.SeesReload v b ⟨0⟩ ⟨0⟩ m := by
  intro v r b m
  have hw : r.Watches v ⟨0⟩ := by
    refine ⟨⟨_, rfl, by decide⟩, fun j s hs hj => ?_⟩
    have hlt : j < 1 := (Array.getElem?_eq_some_iff.mp hs).1
    exact absurd (Nat.lt_one_iff.mp hlt) hj
  exact ⟨rfl, rfl, rfl, hw, viewers_across_reload r v b ⟨0⟩ ⟨0⟩ m rfl rfl rfl hw⟩

end ItemFlow
