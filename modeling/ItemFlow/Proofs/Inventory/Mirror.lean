import ItemFlow.Proofs.Inventory.Valid
/-! Viewers mirror what they watch. Every inventory operation reports its changes in the order
it makes them, each with the slot's content right after it, so replaying the reported changes
onto the slots before the operation gives the slots after it. A storage's changes are delivered,
one delivery per change, to each live viewer of the registry it reports to.

Main statement: when a viewer is the one live registration under its id in the registry of a
storage, and no other storage reports to a registry where its id is live, replaying the changes
delivered under its id onto the slots the storage held when watching began gives the slots it
holds after every sequence of slot actions; an id live in no storage's registry receives
nothing; and removing the viewer, clearing its registry or dropping it leaves its id live in no
storage's registry. -/
namespace ItemFlow

namespace Slots

def replay (s : Slots) (cs : List Change) : Slots :=
  cs.foldl (fun s c => s.setIfInBounds c.slot c.stack) s

@[simp] theorem replay_nil (s : Slots) : s.replay [] = s := rfl

@[simp] theorem replay_cons (s : Slots) (c : Change) (cs : List Change) :
    s.replay (c :: cs) = Slots.replay (s.setIfInBounds c.slot c.stack) cs := rfl

theorem replay_append (s : Slots) (cs cs' : List Change) :
    s.replay (cs ++ cs') = Slots.replay (s.replay cs) cs' := List.foldl_append

/-- An edit of `s` whose reported changes, applied to `s` in order, give its slots. -/
def Replays (s : Slots) (e : Edit) : Prop := s.replay e.changes = e.slots

private theorem toArray_setIfInBounds_length (pre cs : List (Option Stack)) (c x : Option Stack) :
    (pre ++ c :: cs).toArray.setIfInBounds pre.length x = (pre ++ x :: cs).toArray := by
  rw [List.setIfInBounds_toArray, List.set_append_right _ _ (Nat.le_refl _), Nat.sub_self]
  rfl

theorem replay_topUp (st : Stack) :
    ∀ (cs pre : List (Option Stack)) (rem : Nat),
      Slots.replay (pre ++ cs).toArray (topUp st cs pre.length rem).2.1 =
        (pre ++ (topUp st cs pre.length rem).1).toArray
  | [], pre, rem => by simp [topUp]
  | c :: cs, pre, rem => by
    have ih := fun rem => replay_topUp st cs (pre ++ [c]) rem
    simp only [List.length_append, List.length_singleton, List.append_assoc, List.singleton_append] at ih
    cases c with
    | none => simpa [topUp] using ih rem
    | some e =>
      by_cases hmove : rem ≠ 0 ∧ e.comparable st ∧ ¬e.isFull
      · have ih' := replay_topUp st cs (pre ++ [some (e.withCount (e.count +
          (min rem (e.maxStack.toNat - e.count.toNat)).toUInt32))])
          (rem - min rem (e.maxStack.toNat - e.count.toNat))
        simp only [List.length_append, List.length_singleton, List.append_assoc,
          List.singleton_append] at ih'
        simp only [topUp, if_pos hmove, replay_cons, toArray_setIfInBounds_length]
        exact ih'
      · simp only [topUp, if_neg hmove]
        exact ih rem

theorem replay_fillEmpty (st : Stack) :
    ∀ (cs pre : List (Option Stack)) (rem : Nat),
      Slots.replay (pre ++ cs).toArray (fillEmpty st cs pre.length rem).2.1 =
        (pre ++ (fillEmpty st cs pre.length rem).1).toArray
  | [], pre, rem => by simp [fillEmpty]
  | c :: cs, pre, rem => by
    have ih := fun rem => replay_fillEmpty st cs (pre ++ [c]) rem
    simp only [List.length_append, List.length_singleton, List.append_assoc, List.singleton_append] at ih
    cases c with
    | some e => simpa [fillEmpty] using ih rem
    | none =>
      by_cases hrem : rem ≠ 0
      · have ih' := replay_fillEmpty st cs (pre ++ [some (st.withCount (min rem st.maxStack.toNat).toUInt32)])
          (rem - min rem st.maxStack.toNat)
        simp only [List.length_append, List.length_singleton, List.append_assoc,
          List.singleton_append] at ih'
        simp only [fillEmpty, if_pos hrem, replay_cons, toArray_setIfInBounds_length]
        exact ih'
      · simp only [fillEmpty, if_neg hrem]
        exact ih rem

private theorem replay_clear_entries :
    ∀ (l pre : List (Option Stack)),
      Slots.replay (pre ++ l).toArray (((List.range' pre.length l.length).zip l).filterMap
        fun p => p.2.map fun _ => (⟨p.1, none⟩ : Change)) = (pre ++ List.replicate l.length none).toArray
  | [], pre => by simp
  | c :: l, pre => by
    have ih := replay_clear_entries l (pre ++ [none])
    simp only [List.length_append, List.length_singleton, List.append_assoc,
      List.singleton_append] at ih
    cases c with
    | none => simpa [List.range'_succ, List.replicate_succ] using ih
    | some e =>
      simp only [List.length_cons, List.range'_succ, List.zip_cons_cons, List.filterMap_cons,
        Option.map_some, replay_cons, toArray_setIfInBounds_length, List.replicate_succ]
      exact ih

theorem replays_setItem {s : Slots} {i : Nat} {st : Option Stack} {e : Edit}
    (h : s.setItem i st = .ok e) : s.Replays e := by
  unfold Slots.setItem at h
  split at h
  · cases h
    rfl
  · cases h

theorem replays_decrement {s : Slots} {i : Nat} {c : Option Stack} {e : Edit}
    (h : s.decrement i = .ok (c, e)) : s.Replays e := by
  unfold Slots.decrement at h
  split at h
  · cases h
  · cases h
    rfl
  · cases h
    rfl

theorem replays_addItem {s : Slots} {st : Stack} {e : Edit} (h : s.addItem st = .ok e) :
    s.Replays e := by
  unfold Slots.addItem at h
  split at h
  · cases h
    rfl
  · split at h
    · cases h
    · cases h
      have h1 := replay_topUp st s.toList [] st.count.toNat
      have h2 := replay_fillEmpty st (topUp st s.toList 0 st.count.toNat).1 []
        (topUp st s.toList 0 st.count.toNat).2.2
      simp only [List.nil_append, List.length_nil, Array.toArray_toList] at h1 h2
      simp only [Replays, replay_append, h1, h2]

theorem replays_clear (s : Slots) : s.Replays s.clear := by
  have h := replay_clear_entries s.toList []
  simp only [List.nil_append, List.length_nil, Array.toArray_toList, Array.length_toList] at h
  simpa [Replays, Slots.clear, List.range_eq_range'] using h

theorem replays_loadFields (s : Slots) (entries : List Field) : s.Replays (s.loadFields entries) := by
  -- each entry keeps the replay of all changes so far equal to the slots so far
  have step : ∀ (e : Edit) (f : Field), s.replay e.changes = e.slots →
      s.replay (loadEntry e f).changes = (loadEntry e f).slots := by
    intro e f he
    cases f with
    | compound m =>
      simp only [loadEntry]
      split
      · exact he
      · split
        · exact he
        · split
          · next e' hset =>
            simp only [replay_append, he]
            exact replays_setItem hset
          · exact he
    | _ => exact he
  unfold Replays loadFields
  generalize hinit : (⟨s, []⟩ : Edit) = e0
  have h0 : s.replay e0.changes = e0.slots := by subst hinit; rfl
  clear hinit
  induction entries generalizing e0 with
  | nil => exact h0
  | cons f fs ih => exact ih _ (step e0 f h0)

end Slots

namespace Realm

variable {r : Realm}

/-- The live viewers of a registry, in id order. -/
def watchers (r : Realm) (g : RegistryId) : List Viewer := (r.registry g).live r.isAlive

/-- The deliveries of one change through a registry: one to each of its live viewers. -/
def deliveries (r : Realm) (g : RegistryId) (c : Change) : List Delivery :=
  (r.watchers g).map fun w => ⟨w.id, c.slot, c.stack⟩

theorem registry_setRegistry (g g' : RegistryId) (reg : Registry) :
    (r.setRegistry g reg).registry g' =
      if g = g' ∧ g.idx < r.registries.size then reg else r.registry g' := by
  simp only [registry, setRegistry, Array.set!_eq_setIfInBounds, Array.getElem?_setIfInBounds]
  by_cases hg : g = g'
  · subst hg
    by_cases hlt : g.idx < r.registries.size <;> simp [hlt]
  · have hne : g.idx ≠ g'.idx := fun h => hg (by cases g; cases g'; simp_all)
    simp [hne, hg]

theorem watchers_setRegistry_live (g g' : RegistryId) :
    (r.setRegistry g ⟨r.watchers g⟩).watchers g' = r.watchers g' := by
  have halive : (r.setRegistry g ⟨r.watchers g⟩).isAlive = r.isAlive := rfl
  rw [watchers, registry_setRegistry, halive]
  split
  · next h =>
    obtain ⟨rfl, -⟩ := h
    simp only [watchers, Registry.live, List.filter_filter, Bool.and_self]
  · rfl

theorem watchers_deliver (g : RegistryId) (c : Change) (g' : RegistryId) :
    (r.deliver g c).watchers g' = r.watchers g' := by
  simp only [deliver, Registry.notify]
  exact @watchers_setRegistry_live r g g'

private theorem toList_foldl_push {α β : Type} (f : β → α) :
    ∀ (l : List β) (a : Array α), (l.foldl (fun a b => a.push (f b)) a).toList = a.toList ++ l.map f
  | [], a => by simp
  | b :: l, a => by simp

theorem log_deliver (g : RegistryId) (c : Change) :
    (r.deliver g c).log.toList = r.log.toList ++ r.deliveries g c := by
  simp only [deliver, deliveries, watchers, Registry.notify]
  exact toList_foldl_push _ _ _

theorem applyEdit_of_none {i : InventoryId} (h : r.storages[i.idx]? = none) (e : Edit) :
    r.applyEdit i e = r := by
  simp [applyEdit, h]

private theorem foldl_deliver_spec (g : RegistryId) :
    ∀ (cs : List Change) (r : Realm),
      (cs.foldl (fun r c => r.deliver g c) r).log.toList = r.log.toList ++ cs.flatMap (r.deliveries g) ∧
        (∀ g', (cs.foldl (fun r c => r.deliver g c) r).watchers g' = r.watchers g') ∧
        (cs.foldl (fun r c => r.deliver g c) r).storages = r.storages
  | [], r => by simp
  | c :: cs, r => by
    obtain ⟨hlog, hw, hs⟩ := foldl_deliver_spec g cs (r.deliver g c)
    have hdel : (r.deliver g c).deliveries g = r.deliveries g := by
      funext c'
      simp only [deliveries, watchers_deliver]
    refine ⟨?_, fun g' => (hw g').trans (watchers_deliver g c g'), hs⟩
    rw [List.foldl_cons, hlog, log_deliver, hdel, List.flatMap_cons, List.append_assoc]

theorem log_applyEdit {i : InventoryId} {s : Storage} (hs : r.storages[i.idx]? = some s) (e : Edit) :
    (r.applyEdit i e).log.toList = r.log.toList ++ e.changes.flatMap (r.deliveries s.registry) := by
  simp only [applyEdit, hs]
  exact (foldl_deliver_spec s.registry e.changes _).1

theorem watchers_applyEdit (i : InventoryId) (e : Edit) (g : RegistryId) :
    (r.applyEdit i e).watchers g = r.watchers g := by
  unfold applyEdit
  split
  · rfl
  · exact (foldl_deliver_spec _ e.changes _).2.1 g

theorem registry_applyEdit (i : InventoryId) (e : Edit) (j : Nat) :
    ((r.applyEdit i e).storages[j]?).map (·.registry) = (r.storages[j]?).map (·.registry) := by
  rw [storages_applyEdit]
  split
  · rfl
  · next s hs =>
    simp only [Array.set!_eq_setIfInBounds, Array.getElem?_setIfInBounds]
    split
    · next h =>
      subst h
      obtain ⟨hlt, hget⟩ := Array.getElem?_eq_some_iff.mp hs
      simp [hlt, hget]
    · rfl

/-- Viewer `v` watches storage `i` alone: it is the one live registration under its id in the
registry `i` reports to, and every other storage reports to a registry where that id is not
live. -/
structure Watches (r : Realm) (v : Viewer) (i : InventoryId) : Prop where
  watched : ∃ s, r.storages[i.idx]? = some s ∧ (r.watchers s.registry).filter (·.id == v.id) = [v]
  apart : ∀ (j : Nat) (s : Storage), r.storages[j]? = some s → j ≠ i.idx → ∀ w ∈ r.watchers s.registry, w.id ≠ v.id

/-- No storage reports to a registry where the id is live. -/
def Unwatched (r : Realm) (id : UInt64) : Prop :=
  ∀ (j : Nat) (s : Storage), r.storages[j]? = some s → ∀ w ∈ r.watchers s.registry, w.id ≠ id

/-- The changes delivered under an id since `r`, in order. -/
def receivedSince (r' r : Realm) (id : UInt64) : List Change :=
  ((r'.log.toList.drop r.log.size).filter (·.viewer == id)).map fun d => ⟨d.slot, d.stack⟩

/-- Realms alike in all a delivery reads: which registry each storage reports to, and the live
viewers of each registry. -/
structure SameWatch (r r' : Realm) : Prop where
  registry : ∀ j : Nat, (r'.storages[j]?).map Storage.registry = (r.storages[j]?).map Storage.registry
  watchers : ∀ g, r'.watchers g = r.watchers g

theorem sameWatch_applyEdit (i : InventoryId) (e : Edit) : r.SameWatch (r.applyEdit i e) :=
  ⟨registry_applyEdit i e, watchers_applyEdit i e⟩

theorem SameWatch.storage {r' : Realm} (h : r.SameWatch r') {j : Nat} {s' : Storage}
    (hs' : r'.storages[j]? = some s') :
    ∃ s, r.storages[j]? = some s ∧ r'.watchers s'.registry = r.watchers s.registry := by
  have hj := h.registry j
  rw [hs'] at hj
  cases hs : r.storages[j]? with
  | none => rw [hs] at hj; cases hj
  | some s =>
    rw [hs, Option.map_some, Option.map_some, Option.some.injEq] at hj
    exact ⟨s, rfl, by rw [hj, h.watchers]⟩

theorem Watches.of_sameWatch {r' : Realm} {v : Viewer} {i : InventoryId} (hw : r.Watches v i)
    (h : r.SameWatch r') : r'.Watches v i := by
  obtain ⟨s, hs, hv⟩ := hw.watched
  refine ⟨?_, fun j s' hs' hj w hwm => ?_⟩
  · have hi := h.registry i.idx
    rw [hs, Option.map_some] at hi
    obtain ⟨s', hs', hreg⟩ := Option.map_eq_some_iff.mp hi
    exact ⟨s', hs', by rw [h.watchers, hreg, hv]⟩
  · obtain ⟨s, hs, hws⟩ := h.storage hs'
    exact hw.apart j s hs hj w (hws ▸ hwm)

theorem Unwatched.of_sameWatch {r' : Realm} {id : UInt64} (hu : r.Unwatched id) (h : r.SameWatch r') :
    r'.Unwatched id := fun j s' hs' w hwm => by
  obtain ⟨s, hs, hws⟩ := h.storage hs'
  exact hu j s hs w (hws ▸ hwm)

theorem filter_deliveries (g : RegistryId) (c : Change) (id : UInt64) :
    (r.deliveries g c).filter (·.viewer == id) =
      ((r.watchers g).filter (·.id == id)).map fun w => ⟨w.id, c.slot, c.stack⟩ := by
  simp only [deliveries, List.filter_map]
  rfl

theorem receivedSince_append {r₀ r' : Realm} {id : UInt64} (h₀ : r₀.log.toList <+: r.log.toList)
    {new : List Delivery} (h : r'.log.toList = r.log.toList ++ new) :
    r'.receivedSince r₀ id = r.receivedSince r₀ id ++ (new.filter (·.viewer == id)).map fun d => ⟨d.slot, d.stack⟩ := by
  have hlen : r₀.log.size ≤ r.log.toList.length := by
    simpa using h₀.length_le
  simp only [receivedSince, h, List.drop_append_of_le_length hlen, List.filter_append, List.map_append]

@[simp] theorem receivedSince_self (id : UInt64) : r.receivedSince r id = [] := by
  rw [receivedSince, List.drop_eq_nil_of_le (by simp)]
  rfl

theorem receivedSince_applyEdit {r₀ : Realm} {id : UInt64} (h₀ : r₀.log.toList <+: r.log.toList)
    {j : InventoryId} {s : Storage} (hs : r.storages[j.idx]? = some s) (e : Edit) :
    (r.applyEdit j e).receivedSince r₀ id =
      r.receivedSince r₀ id ++ e.changes.flatMap fun c => ((r.watchers s.registry).filter (·.id == id)).map fun _ => c := by
  rw [receivedSince_append h₀ (log_applyEdit hs e), List.filter_flatMap, List.map_flatMap]
  congr 1
  apply List.flatMap_congr
  intro c _
  rw [filter_deliveries, List.map_map]
  rfl

def withStorage (r : Realm) (size : Nat) : Realm :=
  { r with registries := r.registries.push {},
           storages := r.storages.push ⟨Slots.empty size, ⟨r.registries.size⟩⟩ }

theorem watchers_withStorage (size : Nat) (g : RegistryId) :
    (r.withStorage size).watchers g = r.watchers g := by
  simp only [watchers, registry, withStorage, Array.getElem?_push]
  split
  · next h =>
    simp [Array.getElem?_eq_none (Nat.le_of_eq h.symm), Registry.live]
  · rfl

theorem getElem?_storages_withStorage {size j : Nat} (hj : j < r.storages.size) :
    (r.withStorage size).storages[j]? = r.storages[j]? := by
  simp [withStorage, Array.getElem?_push, Nat.ne_of_lt hj]

theorem watchers_new_withStorage {size j : Nat} {s : Storage}
    (hs : (r.withStorage size).storages[j]? = some s) :
    r.storages[j]? = some s ∨ (r.withStorage size).watchers s.registry = [] := by
  simp only [withStorage, Array.getElem?_push] at hs
  split at hs
  · cases hs
    right
    rw [watchers_withStorage]
    simp [watchers, registry, Registry.live]
  · exact .inl hs

theorem Watches.withStorage {v : Viewer} {i : InventoryId} (hw : r.Watches v i) (size : Nat) :
    (r.withStorage size).Watches v i := by
  obtain ⟨s, hs, hv⟩ := hw.watched
  have hi : i.idx < r.storages.size := (Array.getElem?_eq_some_iff.mp hs).1
  refine ⟨⟨s, by rw [getElem?_storages_withStorage hi, hs], by rw [watchers_withStorage, hv]⟩, ?_⟩
  intro j s' hs' hj w hwm
  rcases watchers_new_withStorage hs' with hs' | hnil
  · rw [watchers_withStorage] at hwm
    exact hw.apart j s' hs' hj w hwm
  · rw [hnil] at hwm
    cases hwm

theorem Unwatched.withStorage {id : UInt64} (hu : r.Unwatched id) (size : Nat) :
    (r.withStorage size).Unwatched id := by
  intro j s hs w hwm
  rcases watchers_new_withStorage hs with hs | hnil
  · rw [watchers_withStorage] at hwm
    exact hu j s hs w hwm
  · rw [hnil] at hwm
    cases hwm

theorem slotsOf_withStorage (size : Nat) {i : InventoryId} (hi : i.idx < r.storages.size) :
    (r.withStorage size).slotsOf i = r.slotsOf i := by
  simp only [slotsOf]
  rw [getElem?_storages_withStorage hi]

/-- What viewer `v` has seen of storage `i` since `r₀`: `v` still watches `i` alone, the log
has only grown, and replaying the changes delivered under `v`'s id onto the slots `i` held in
`r₀` gives the slots it holds now. -/
def Mirrors (r₀ : Realm) (v : Viewer) (i : InventoryId) (r : Realm) : Prop :=
  r.Watches v i ∧ r₀.log.toList <+: r.log.toList ∧
    Slots.replay (r₀.slotsOf i) (r.receivedSince r₀ v.id) = r.slotsOf i

/-- Nothing has been delivered under an id since `r₀`, and the id is live in no storage's
registry. -/
def Quiet (r₀ : Realm) (id : UInt64) (r : Realm) : Prop :=
  r.Unwatched id ∧ r₀.log.toList <+: r.log.toList ∧ r.receivedSince r₀ id = []

section
variable {r₀ : Realm} {v : Viewer} {i j : InventoryId} {e : Edit}

/-- Storing an edit of storage `j` that replays from its slots keeps the mirror: the watched
storage's changes reach `v` once each, and no other storage's reach it at all. -/
theorem Mirrors.applyEdit (h : Mirrors r₀ v i r) (he : (r.slotsOf j).Replays e) :
    Mirrors r₀ v i (r.applyEdit j e) := by
  obtain ⟨hw, hpre, hrep⟩ := h
  refine ⟨hw.of_sameWatch (sameWatch_applyEdit j e), ?_⟩
  cases hs : r.storages[j.idx]? with
  | none =>
    rw [applyEdit_of_none hs]
    exact ⟨hpre, hrep⟩
  | some s =>
    refine ⟨hpre.trans (log_applyEdit hs e ▸ List.prefix_append _ _), ?_⟩
    rw [receivedSince_applyEdit hpre hs, Slots.replay_append, hrep, slotsOf_applyEdit]
    by_cases hji : j = i
    · subst hji
      obtain ⟨s', hs', hv⟩ := hw.watched
      rw [hs, Option.some.injEq] at hs'
      subst hs'
      have hlt : j.idx < r.storages.size := (Array.getElem?_eq_some_iff.mp hs).1
      rw [if_pos ⟨rfl, hlt⟩]
      simp only [hv, List.map_cons, List.map_nil, List.flatMap_singleton']
      exact he
    · have hidx : j.idx ≠ i.idx := fun h => hji (by cases i; cases j; simp_all)
      have hnone : (r.watchers s.registry).filter (·.id == v.id) = [] :=
        List.filter_eq_nil_iff.mpr fun w hwm => by simpa using hw.apart j.idx s hs hidx w hwm
      rw [if_neg fun h => hji h.1, hnone]
      simp only [List.map_nil]
      rw [List.flatMap_eq_nil_iff.mpr fun _ _ => rfl, Slots.replay_nil]

theorem Quiet.applyEdit {id : UInt64} (h : Quiet r₀ id r) (j : InventoryId) (e : Edit) :
    Quiet r₀ id (r.applyEdit j e) := by
  obtain ⟨hu, hpre, hnil⟩ := h
  refine ⟨hu.of_sameWatch (sameWatch_applyEdit j e), ?_⟩
  cases hs : r.storages[j.idx]? with
  | none =>
    rw [applyEdit_of_none hs]
    exact ⟨hpre, hnil⟩
  | some s =>
    have hnone : (r.watchers s.registry).filter (·.id == id) = [] :=
      List.filter_eq_nil_iff.mpr fun w hwm => by simpa using hu j.idx s hs w hwm
    refine ⟨hpre.trans (log_applyEdit hs e ▸ List.prefix_append _ _), ?_⟩
    simp [receivedSince_applyEdit hpre hs, hnil, hnone]

theorem Mirrors.setBlock (h : Mirrors r₀ v i r) (p : Pos) (b : Block) :
    Mirrors r₀ v i { r with blocks := r.blocks.set p b } :=
  ⟨h.1.of_sameWatch ⟨fun _ => rfl, fun _ => rfl⟩, h.2⟩

theorem Quiet.setBlock {id : UInt64} (h : Quiet r₀ id r) (p : Pos) (b : Block) :
    Quiet r₀ id { r with blocks := r.blocks.set p b } :=
  ⟨h.1.of_sameWatch ⟨fun _ => rfl, fun _ => rfl⟩, h.2⟩

theorem Mirrors.withStorage (h : Mirrors r₀ v i r) (size : Nat) : Mirrors r₀ v i (r.withStorage size) := by
  obtain ⟨hw, hpre, hrep⟩ := h
  obtain ⟨s, hs, -⟩ := hw.watched
  have hi : i.idx < r.storages.size := (Array.getElem?_eq_some_iff.mp hs).1
  exact ⟨hw.withStorage size, hpre, by rw [slotsOf_withStorage size hi]; exact hrep⟩

theorem Quiet.withStorage {id : UInt64} (h : Quiet r₀ id r) (size : Nat) : Quiet r₀ id (r.withStorage size) :=
  ⟨h.1.withStorage size, h.2⟩

theorem Watches.registry_lt {v : Viewer} {i : InventoryId} (hw : r.Watches v i) {s : Storage}
    (hs : r.storages[i.idx]? = some s) : s.registry.idx < r.registries.size := by
  obtain ⟨s', hs', hv⟩ := hw.watched
  rw [hs, Option.some.injEq] at hs'
  subst hs'
  by_contra hge
  have hnone : r.registries[s.registry.idx]? = none := Array.getElem?_eq_none (by omega)
  simp [watchers, registry, hnone, Registry.live] at hv

theorem Watches.unwatched_setRegistry {v : Viewer} {i : InventoryId} (hw : r.Watches v i)
    {s : Storage} (hs : r.storages[i.idx]? = some s) {reg : Registry}
    (hreg : ∀ w ∈ reg.live r.isAlive, w.id ≠ v.id) :
    (r.setRegistry s.registry reg).Unwatched v.id := by
  intro j s' hs' w hwm
  have hlt := hw.registry_lt hs
  change r.storages[j]? = some s' at hs'
  simp only [watchers, registry_setRegistry] at hwm
  split at hwm
  · exact hreg w hwm
  · next hg =>
    have hj : j ≠ i.idx := by
      rintro rfl
      rw [hs, Option.some.injEq] at hs'
      exact hg ⟨congrArg Storage.registry hs', hlt⟩
    exact hw.apart j s' hs' hj w hwm

theorem Watches.unwatched_remove {v : Viewer} {i : InventoryId} (hw : r.Watches v i) {s : Storage}
    (hs : r.storages[i.idx]? = some s) :
    (r.setRegistry s.registry ((r.registry s.registry).remove v.id).1).Unwatched v.id := by
  refine hw.unwatched_setRegistry hs fun w hwm => ?_
  simp only [Registry.remove, Registry.live, List.mem_filter] at hwm
  simpa using hwm.1.2

theorem Watches.unwatched_clear {v : Viewer} {i : InventoryId} (hw : r.Watches v i) {s : Storage}
    (hs : r.storages[i.idx]? = some s) :
    (r.setRegistry s.registry (r.registry s.registry).clear).Unwatched v.id :=
  hw.unwatched_setRegistry hs fun w hwm => by simp [Registry.clear, Registry.live] at hwm

theorem Watches.unwatched_drop {v : Viewer} {i : InventoryId} (hw : r.Watches v i) :
    ({ r with alive := r.alive.filter (· != v) }).Unwatched v.id := by
  intro j s hs w hwm
  change r.storages[j]? = some s at hs
  have hold : w ∈ r.watchers s.registry ∧ w ≠ v := by
    simp only [watchers, Registry.live, isAlive, List.mem_filter, List.contains_iff_mem,
      bne_iff_ne, ne_eq] at hwm ⊢
    exact ⟨⟨hwm.1, hwm.2.1⟩, hwm.2.2⟩
  by_cases hj : j = i.idx
  · -- where `v` watched, it was the only live registration under its id
    subst hj
    obtain ⟨s', hs', hv⟩ := hw.watched
    rw [hs, Option.some.injEq] at hs'
    subst hs'
    intro hid
    have hin : w ∈ (r.watchers s.registry).filter (·.id == v.id) := by simp [hold.1, hid]
    rw [hv, List.mem_singleton] at hin
    exact hold.2 hin
  · exact hw.apart j s hs hj w hold.1

end

end Realm

namespace SlotOp

/-- An invariant kept by storing any edit that replays from the slots it edits, by storing a
block and by creating a storage holds after every slot action. -/
theorem run_preserves_of_edits {P : Realm → Prop}
    (hE : ∀ r j e, P r → (r.slotsOf j).Replays e → P (r.applyEdit j e))
    (hB : Act.BlockStable P) (hC : ∀ r size, P r → P (r.withStorage size)) :
    ∀ op : SlotOp, Act.Preserves P op.run := by
  have hS : Act.SlotStable P :=
    ⟨fun r i _ _ e hr h => hE r i e hr (Slots.replays_setItem h),
      fun r i _ e hr h => hE r i e hr (Slots.replays_addItem h),
      fun r i _ _ e hr h => hE r i e hr (Slots.replays_decrement h)⟩
  intro op
  cases op with
  | setItem inv slot st => exact .bind (.setItem hS inv slot st) fun _ => .pure _
  | addItem inv st => exact .bind (.addItem hS inv st) fun _ => .pure _
  | decrement inv slot => exact .bind (.decrement hS inv slot) fun _ => .pure _
  | clear inv =>
    intro r _ r' hr h
    cases h
    exact hE r inv _ hr (Slots.replays_clear _)
  | load inv entries =>
    intro r _ r' hr h
    cases h
    exact hE r inv _ hr (Slots.replays_loadFields _ entries)
  | create size =>
    intro r _ r' hr h
    cases h
    exact hC r size hr
  | insert h pos => exact .bind (h.insert_preserves hS pos) fun _ => .pure _
  | extract h pos => exact .bind (h.extract_preserves hS pos) fun _ => .pure _
  | hopperTick h now pos => exact .bind (h.tick_preserves hS (hB.at pos) now) fun _ => .pure _
  | furnaceTick f pos => exact .bind (Furnace.tick_preserves hS (hB.at pos) f) fun _ => .pure _
  | pass now => exact .bind (World.tick_preserves hS hB now) fun _ => .pure _

end SlotOp

/-- Viewers mirror what they watch. While a viewer is the one live registration under its id in
the registry of a storage, and no other storage reports where that id is live, the log only
grows over any sequence of slot actions, and replaying the changes delivered under its id onto
the slots the storage held at the start gives the slots it holds at the end. An id live in no
storage's registry receives nothing over any sequence of slot actions; and removing the watching
viewer's id from its registry, clearing that registry or dropping the viewer leaves its id so. -/
theorem viewer_mirror_law (v : Viewer) (i : InventoryId) :
    (∀ (r r' : Realm) (ops : List SlotOp), r.Watches v i → (ops.forM SlotOp.run).run r = .ok ((), r') →
      r.log.toList <+: r'.log.toList ∧ (r.slotsOf i).replay (r'.receivedSince r v.id) = r'.slotsOf i) ∧
    (∀ (r r' : Realm) (ops : List SlotOp), r.Unwatched v.id → (ops.forM SlotOp.run).run r = .ok ((), r') →
      r.log.toList <+: r'.log.toList ∧ r'.receivedSince r v.id = []) ∧
    (∀ (r : Realm) (s : Storage), r.Watches v i → r.storages[i.idx]? = some s →
      (r.setRegistry s.registry ((r.registry s.registry).remove v.id).1).Unwatched v.id ∧
      (r.setRegistry s.registry (r.registry s.registry).clear).Unwatched v.id ∧
      ({ r with alive := r.alive.filter (· != v) }).Unwatched v.id) := by
  refine ⟨fun r r' ops hw h => ?_, fun r r' ops hu h => ?_, fun r s hw hs =>
    ⟨hw.unwatched_remove hs, hw.unwatched_clear hs, hw.unwatched_drop⟩⟩
  · -- the mirror since `r` holds at `r`, and every slot action keeps it
    have h₀ : Realm.Mirrors r v i r := ⟨hw, List.prefix_refl _, by simp⟩
    have hrun := Act.Preserves.forM (SlotOp.run_preserves_of_edits (P := Realm.Mirrors r v i)
      (fun _ _ _ hm he => hm.applyEdit he) (fun _ p b hm => hm.setBlock p b) (fun _ size hm => hm.withStorage size))
      ops h₀ h
    exact hrun.2
  · have h₀ : Realm.Quiet r v.id r := ⟨hu, List.prefix_refl _, by simp⟩
    have hrun := Act.Preserves.forM (SlotOp.run_preserves_of_edits (P := Realm.Quiet r v.id)
      (fun _ j e hq _ => hq.applyEdit j e) (fun _ p b hq => hq.setBlock p b) (fun _ size hq => hq.withStorage size))
      ops h₀ h
    exact hrun.2

/-- A viewer watching a three-slot storage alone sees a set and an add that tops the set stack
up and spills into the next slot, and its mirror follows. -/
theorem lone_viewer_mirrors_set_and_add :
    let v : Viewer := ⟨1, 0⟩
    let r : Realm := { storages := #[⟨Slots.empty 3, ⟨0⟩⟩], registries := #[⟨[v]⟩], alive := [v] }
    let ops := [SlotOp.setItem ⟨0⟩ 0 (some (Stack.new .coal 60)), .addItem ⟨0⟩ (Stack.new .coal 10)]
    r.Watches v ⟨0⟩ ∧ ∃ r', (ops.forM SlotOp.run).run r = .ok ((), r') ∧
      r.log.toList <+: r'.log.toList ∧ (r.slotsOf ⟨0⟩).replay (r'.receivedSince r v.id) = r'.slotsOf ⟨0⟩ := by
  intro v r ops
  have hw : r.Watches v ⟨0⟩ := by
    refine ⟨⟨_, rfl, by decide⟩, fun j s hs hj => ?_⟩
    have hlt : j < 1 := (Array.getElem?_eq_some_iff.mp hs).1
    exact absurd (Nat.lt_one_iff.mp hlt) hj
  obtain ⟨r', hrun⟩ : ∃ r', (ops.forM SlotOp.run).run r = .ok ((), r') := ⟨_, rfl⟩
  exact ⟨hw, r', hrun, (viewer_mirror_law v ⟨0⟩).1 r r' ops hw hrun⟩

/-- A viewer registered with two storages receives the changes of both, so replaying them onto
either storage's slots does not give its slots. -/
theorem viewer_of_two_storages_mirrors_neither :
    let v : Viewer := ⟨1, 0⟩
    let r : Realm :=
      { storages := #[⟨Slots.empty 3, ⟨0⟩⟩, ⟨Slots.empty 3, ⟨1⟩⟩], registries := #[⟨[v]⟩, ⟨[v]⟩],
        alive := [v] }
    let ops := [SlotOp.setItem ⟨1⟩ 0 (some (Stack.new .coal 5)), .setItem ⟨0⟩ 1 (some (Stack.new .stone 2))]
    ∃ r', (ops.forM SlotOp.run).run r = .ok ((), r') ∧
      (r.slotsOf ⟨0⟩).replay (r'.receivedSince r v.id) ≠ r'.slotsOf ⟨0⟩ :=
  ⟨_, rfl, by decide⟩

end ItemFlow
