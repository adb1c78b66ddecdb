import ItemFlow.Proofs.Tick.Invariant
import ItemFlow.Field.Stack
/-! Slot validity: a slot holds nothing or a stack of at least one and at most its kind's limit
of units. Every inventory write keeps it, so every sequence of inventory, hopper, furnace and
tick actions from valid storage ends in valid storage. -/
namespace ItemFlow

theorem ItemKind.one_le_maxStack (k : ItemKind) : 1 ≤ k.maxStack.toNat ∧ k.maxStack.toNat ≤ 64 := by
  cases k <;> simp [ItemKind.maxStack]

theorem UInt32.toNat_sub_one {x : UInt32} (h : 0 < x.toNat) : (x - 1).toNat = x.toNat - 1 := by
  rw [UInt32.toNat_sub_of_le _ _ (by rw [UInt32.le_iff_toNat_le, UInt32.toNat_one]; exact h),
    UInt32.toNat_one]

/-- A stack a slot may hold: at least one unit and at most its kind's limit. -/
def Stack.Fits (st : Stack) : Prop := 1 ≤ st.count ∧ st.count ≤ st.maxStack

/-- Every slot is empty or holds a stack that fits. -/
def Slots.Valid (s : Slots) : Prop := ∀ st, some st ∈ s → st.Fits

instance (st : Stack) : Decidable st.Fits := inferInstanceAs (Decidable (_ ∧ _))

instance (s : Slots) : Decidable s.Valid :=
  decidable_of_iff (∀ c ∈ s.toList, ∀ st ∈ c, st.Fits) <| by
    simp only [Slots.Valid, Array.mem_toList_iff, Option.mem_def]
    exact ⟨fun h st hst => h _ hst st rfl, fun h c hc st hst => h st (hst ▸ hc)⟩

namespace Stack

@[simp] theorem count_withCount (s : Stack) (n : UInt32) : (s.withCount n).count = n := rfl

@[simp] theorem maxStack_withCount (s : Stack) (n : UInt32) : (s.withCount n).maxStack = s.maxStack :=
  rfl

@[simp] theorem identity_withCount (s : Stack) (n : UInt32) : (s.withCount n).identity = s.identity :=
  rfl

theorem fits_iff {st : Stack} : st.Fits ↔ 1 ≤ st.count.toNat ∧ st.count.toNat ≤ st.maxStack.toNat := by
  simp [Fits, UInt32.le_iff_toNat_le]

theorem fits_withCount {e : Stack} {n : Nat} (h1 : 1 ≤ n) (h2 : n ≤ e.maxStack.toNat) :
    (e.withCount n.toUInt32).Fits := by
  have := e.kind.one_le_maxStack
  simp only [maxStack] at h2
  simp only [fits_iff, withCount, maxStack, Nat.toUInt32_eq, UInt32.toNat_ofNat']
  omega

theorem fits_of_stored {st st' : Stack} (h : st.stored = some st') : st'.Fits := by
  have := st.kind.one_le_maxStack
  unfold stored at h
  split at h
  · cases h
  · next h0 =>
    have h0 : st.count.toNat ≠ 0 := fun h => h0 (UInt32.toNat_inj.mp (by simpa using h))
    split at h <;> cases h
    · simp only [fits_iff, withCount, maxStack]
      omega
    · next hgt =>
      simp only [fits_iff, maxStack, UInt32.lt_iff_toNat_lt] at *
      omega

theorem shrink_eq_some_iff {st st' : Stack} :
    st.shrink = some st' ↔ 1 < st.count.toNat ∧ st' = st.withCount (st.count - 1) := by
  unfold shrink
  split
  · next h1 =>
    have : st.count.toNat ≤ 1 := by simpa [UInt32.le_iff_toNat_le] using h1
    exact iff_of_false (by simp) fun h => by omega
  · next h1 =>
    have : 1 < st.count.toNat := by simpa [UInt32.le_iff_toNat_le] using h1
    simp [this, eq_comm]

theorem count_of_shrink {st st' : Stack} (h : st.shrink = some st') :
    1 < st.count.toNat ∧ st'.count.toNat = st.count.toNat - 1 := by
  obtain ⟨h1, rfl⟩ := shrink_eq_some_iff.mp h
  exact ⟨h1, UInt32.toNat_sub_one (by omega)⟩

theorem identity_of_shrink {st st' : Stack} (h : st.shrink = some st') : st'.identity = st.identity := by
  obtain ⟨-, rfl⟩ := shrink_eq_some_iff.mp h
  rfl

theorem fits_of_shrink {st st' : Stack} (hst : st.Fits) (h : st.shrink = some st') : st'.Fits := by
  obtain ⟨h1, hcount⟩ := count_of_shrink h
  have hmax : st'.maxStack = st.maxStack :=
    congrArg (fun i : Identity => i.kind.maxStack) (identity_of_shrink h)
  rw [fits_iff] at *
  rw [hcount, hmax]
  omega

theorem topUp_count {e : Stack} {rem : Nat} (hfull : ¬e.isFull = true) (hrem : rem ≠ 0) :
    (e.count + (min rem (e.maxStack.toNat - e.count.toNat)).toUInt32).toNat =
        e.count.toNat + min rem (e.maxStack.toNat - e.count.toNat) ∧
      1 ≤ min rem (e.maxStack.toNat - e.count.toNat) ∧
      e.count.toNat + min rem (e.maxStack.toNat - e.count.toNat) ≤ e.maxStack.toNat := by
  have := e.kind.one_le_maxStack
  simp only [isFull, ge_iff_le, decide_eq_true_eq, UInt32.le_iff_toNat_le] at hfull
  simp only [maxStack] at hfull ⊢
  simp only [UInt32.toNat_add, Nat.toUInt32_eq, UInt32.toNat_ofNat']
  omega

end Stack

namespace Slots

theorem Valid.setIfInBounds {s : Slots} {c : Option Stack} (hs : s.Valid)
    (hc : ∀ st, c = some st → st.Fits) (i : Nat) : Slots.Valid (s.setIfInBounds i c) := by
  intro st hst
  rcases Array.mem_or_eq_of_mem_setIfInBounds hst with h | h
  · exact hs st h
  · exact hc st h.symm

theorem Valid.setItem {s : Slots} {i : Nat} {st : Option Stack} {e : Edit} (hs : s.Valid)
    (h : s.setItem i st = .ok e) : e.slots.Valid := by
  unfold Slots.setItem at h
  split at h <;> cases h
  refine hs.setIfInBounds (fun st' h' => ?_) i
  obtain ⟨x, -, hx⟩ := Option.bind_eq_some_iff.mp h'
  exact Stack.fits_of_stored hx

theorem Valid.decrement {s : Slots} {i : Nat} {c : Option Stack} {e : Edit} (hs : s.Valid)
    (h : s.decrement i = .ok (c, e)) : e.slots.Valid := by
  unfold Slots.decrement at h
  split at h
  · cases h
  · cases h
    exact hs
  · next st hst =>
    cases h
    exact hs.setIfInBounds (fun st' h' => Stack.fits_of_shrink (hs st (Array.mem_of_getElem? hst)) h') i

theorem Valid.clear (s : Slots) : s.clear.slots.Valid := by
  intro st hst
  simp [Slots.clear] at hst

/-- The content of one slot after units of one item were added to it: unchanged, or a stack
that fits, of the item the slot held, with more units than before. -/
def Gain (c c' : Option Stack) : Prop :=
  c' = c ∨ ∃ st', c' = some st' ∧ st'.Fits ∧
    ∀ st, c = some st → st'.identity = st.identity ∧ st.count.toNat < st'.count.toNat

/-- Slots after units were added: each slot gained or kept its content. -/
def Gains (s s' : Slots) : Prop := List.Forall₂ Gain s.toList s'.toList

theorem Gain.refl (c : Option Stack) : Gain c c := .inl rfl

theorem Gain.trans {c c' c'' : Option Stack} (h : Gain c c') (h' : Gain c' c'') : Gain c c'' := by
  rcases h' with rfl | ⟨st'', rfl, hfit, hmore⟩
  · exact h
  · refine .inr ⟨st'', rfl, hfit, fun st hst => ?_⟩
    rcases h with rfl | ⟨st', rfl, -, hmore'⟩
    · exact hmore st hst
    · obtain ⟨hid', hlt'⟩ := hmore' st hst
      obtain ⟨hid, hlt⟩ := hmore st' rfl
      exact ⟨hid.trans hid', Nat.lt_trans hlt' hlt⟩

theorem Gain.fits {c c' : Option Stack} (h : Gain c c') (hc : ∀ st, c = some st → st.Fits) :
    ∀ st', c' = some st' → st'.Fits := by
  rcases h with rfl | ⟨st', rfl, hfit, -⟩
  · exact hc
  · intro x hx
    cases hx
    exact hfit

theorem Gain.keeps {c c' : Option Stack} {st : Stack} (h : Gain c c') (hc : c = some st) :
    ∃ st', c' = some st' ∧ st'.identity = st.identity ∧ st.count.toNat ≤ st'.count.toNat := by
  rcases h with rfl | ⟨st', rfl, -, hmore⟩
  · exact ⟨st, hc, rfl, Nat.le_refl _⟩
  · obtain ⟨hid, hlt⟩ := hmore st hc
    exact ⟨st', rfl, hid, Nat.le_of_lt hlt⟩

private theorem forall₂_gain_trans {l l' l'' : List (Option Stack)} (h : List.Forall₂ Gain l l')
    (h' : List.Forall₂ Gain l' l'') : List.Forall₂ Gain l l'' := by
  induction h generalizing l'' with
  | nil => cases h'; exact .nil
  | cons hab _ ih =>
    cases h' with
    | cons hbc hrest => exact .cons (hab.trans hbc) (ih hrest)

theorem topUp_gains (st : Stack) (l : List (Option Stack)) (i rem : Nat) :
    List.Forall₂ Gain l (topUp st l i rem).1 := by
  fun_induction topUp st l i rem with
  | case1 => exact .nil
  | case2 cs i rem e hcond moved e' rest ch r hrec ih =>
    rw [hrec] at ih
    obtain ⟨hsum, hpos, hle⟩ := Stack.topUp_count hcond.2.2 hcond.1
    refine .cons (.inr ⟨e', rfl, ?_, fun x hx => ?_⟩) ih
    · rw [Stack.fits_iff]
      simp only [e', moved, Stack.count_withCount, Stack.maxStack_withCount, hsum]
      omega
    · cases hx
      simp only [e', moved, Stack.count_withCount, Stack.identity_withCount, hsum]
      exact ⟨trivial, by omega⟩
  | case3 cs i rem e _ rest ch r hrec ih =>
    rw [hrec] at ih
    exact .cons (.refl _) ih
  | case4 cs i rem rest ch r hrec ih =>
    rw [hrec] at ih
    exact .cons (.refl _) ih

theorem fillEmpty_gains (st : Stack) (l : List (Option Stack)) (i rem : Nat) :
    List.Forall₂ Gain l (fillEmpty st l i rem).1 := by
  fun_induction fillEmpty st l i rem with
  | case1 => exact .nil
  | case2 cs i rem hrem moved e rest ch r hrec ih =>
    rw [hrec] at ih
    have := st.kind.one_le_maxStack
    have hfit : e.Fits := Stack.fits_withCount (by simp only [moved, Stack.maxStack]; omega)
      (Nat.min_le_right _ _)
    exact .cons (.inr ⟨e, rfl, hfit, fun x hx => by cases hx⟩) ih
  | case3 cs i rem _ rest ch r hrec ih =>
    rw [hrec] at ih
    exact .cons (.refl _) ih
  | case4 cs i rem _ rest ch r hrec ih =>
    rw [hrec] at ih
    exact .cons (.refl _) ih

theorem gains_of_addItem {s : Slots} {st : Stack} {e : Edit} (h : s.addItem st = .ok e) :
    s.Gains e.slots := by
  unfold Slots.addItem at h
  split at h
  · cases h
    exact List.forall₂_same.mpr fun c _ => .refl c
  · split at h
    · cases h
    · cases h
      simpa [Gains] using forall₂_gain_trans (topUp_gains st s.toList 0 st.count.toNat)
        (fillEmpty_gains st _ 0 _)

theorem exists_gain_of_mem {l l' : List (Option Stack)} (h : List.Forall₂ Gain l l')
    {c' : Option Stack} (hc' : c' ∈ l') : ∃ c ∈ l, Gain c c' := by
  induction h with
  | nil => cases hc'
  | cons hab _ ih =>
    rcases List.mem_cons.mp hc' with rfl | hc'
    · exact ⟨_, List.mem_cons_self, hab⟩
    · obtain ⟨c, hc, hg⟩ := ih hc'
      exact ⟨c, List.mem_cons_of_mem _ hc, hg⟩

theorem Valid.of_gains {s s' : Slots} (hs : s.Valid) (h : s.Gains s') : s'.Valid := by
  intro st hst
  obtain ⟨c, hc, hg⟩ := exists_gain_of_mem h (Array.mem_toList_iff.mpr hst)
  exact hg.fits (fun x hx => hs x (hx ▸ Array.mem_toList_iff.mp hc)) st rfl

theorem Valid.addItem {s : Slots} {st : Stack} {e : Edit} (hs : s.Valid) (h : s.addItem st = .ok e) :
    e.slots.Valid :=
  hs.of_gains (gains_of_addItem h)

theorem Valid.loadFields {s : Slots} (hs : s.Valid) (entries : List Field) :
    (s.loadFields entries).slots.Valid := by
  unfold Slots.loadFields
  suffices ∀ (l : List Field) (e : Edit), e.slots.Valid → (l.foldl loadEntry e).slots.Valid from
    this entries _ hs
  intro l
  induction l with
  | nil => exact fun _ he => he
  | cons x xs ih =>
    intro e he
    refine ih _ ?_
    unfold loadEntry
    split
    · dsimp only
      split
      · exact he
      · split
        · exact he
        · split
          · next e' he' => exact (Valid.setItem he he' : e'.slots.Valid)
          · exact he
    · exact he

end Slots

def Realm.Valid (r : Realm) : Prop := ∀ s ∈ r.storages, s.slots.Valid

namespace Realm
variable {r : Realm}

theorem Valid.slotsOf (hr : r.Valid) (i : InventoryId) : (r.slotsOf i).Valid := by
  unfold Realm.slotsOf
  split
  · next s hs => exact hr s (Array.mem_of_getElem? hs)
  · intro st hst
    simp at hst

theorem Valid.applyEdit (hr : r.Valid) {e : Edit} (he : e.slots.Valid) (i : InventoryId) :
    (r.applyEdit i e).Valid := by
  intro s hs
  rw [storages_applyEdit] at hs
  split at hs
  · exact hr s hs
  · rcases Array.mem_or_eq_of_mem_setIfInBounds hs with hs | rfl
    · exact hr s hs
    · exact he

theorem slotStable_valid : Act.SlotStable Realm.Valid where
  setItem _ i _ _ _ hr h := hr.applyEdit ((hr.slotsOf i).setItem h) i
  addItem _ i _ _ hr h := hr.applyEdit ((hr.slotsOf i).addItem h) i
  decrement _ i _ _ _ hr h := hr.applyEdit ((hr.slotsOf i).decrement h) i

theorem blockStable_valid : Act.BlockStable Realm.Valid := fun _ _ _ hr => hr

end Realm

/-- An action on container slots, as the program offers them: the inventory operations on a
storage, replaying persisted entries into it, creating a storage, a hopper's insert, extract and
tick, a furnace's tick, and a whole tick pass. -/
inductive SlotOp where
  | setItem (inv : InventoryId) (slot : Nat) (st : Option Stack)
  | addItem (inv : InventoryId) (st : Stack)
  | decrement (inv : InventoryId) (slot : Nat)
  | clear (inv : InventoryId)
  | load (inv : InventoryId) (entries : List Field)
  | create (size : Nat)
  | insert (h : Hopper) (pos : Pos)
  | extract (h : Hopper) (pos : Pos)
  | hopperTick (h : Hopper) (now : Tick) (pos : Pos)
  | furnaceTick (f : Furnace) (pos : Pos)
  | pass (now : Tick)

namespace SlotOp

def run : SlotOp → Act Unit
  | setItem inv slot st => do let _ ← Act.setItem inv slot st
  | addItem inv st => do let _ ← Act.addItem inv st
  | decrement inv slot => do let _ ← Act.decrement inv slot
  | clear inv => Act.clear inv
  | load inv entries => do Act.replay inv ((← Act.slotsOf inv).loadFields entries)
  | create size => do let _ ← Act.newStorage size (← Act.newRegistry)
  | insert h pos => do let _ ← h.insert pos
  | extract h pos => do let _ ← h.extract pos
  | hopperTick h now pos => do let _ ← h.tick now pos
  | furnaceTick f pos => do let _ ← Furnace.tick f pos
  | pass now => do let _ ← World.tick now

theorem run_preserves_valid : ∀ op : SlotOp, Act.Preserves Realm.Valid op.run
  | setItem .. => .bind (.setItem Realm.slotStable_valid _ _ _) fun _ => .pure _
  | addItem .. => .bind (.addItem Realm.slotStable_valid _ _) fun _ => .pure _
  | decrement .. => .bind (.decrement Realm.slotStable_valid _ _) fun _ => .pure _
  | clear inv => by
    intro r _ r' hr h
    cases h
    exact hr.applyEdit (Slots.Valid.clear _) inv
  | load inv entries => by
    intro r _ r' hr h
    cases h
    exact hr.applyEdit ((hr.slotsOf inv).loadFields entries) inv
  | create size => by
    intro r _ r' hr h
    cases h
    intro s hs
    rcases Array.mem_push.mp hs with hs | rfl
    · exact hr s hs
    · intro st hst
      simp [Slots.empty] at hst
  | insert h pos => .bind (h.insert_preserves Realm.slotStable_valid pos) fun _ => .pure _
  | extract h pos => .bind (h.extract_preserves Realm.slotStable_valid pos) fun _ => .pure _
  | hopperTick h now pos =>
    .bind (h.tick_preserves Realm.slotStable_valid (Realm.blockStable_valid.at pos) now) fun _ => .pure _
  | furnaceTick f pos =>
    .bind (Furnace.tick_preserves Realm.slotStable_valid (Realm.blockStable_valid.at pos) f) fun _ => .pure _
  | pass now => .bind (World.tick_preserves Realm.slotStable_valid Realm.blockStable_valid now) fun _ => .pure _

end SlotOp

/-- From storage whose every slot is empty or holds between one unit and its kind's limit, every
sequence of slot actions ends in such storage: no write stores an empty or oversized stack. -/
theorem slots_stay_valid {r r' : Realm} (ops : List SlotOp) (hr : r.Valid)
    (h : (ops.forM SlotOp.run).run r = .ok ((), r')) : r'.Valid :=
  Act.Preserves.forM SlotOp.run_preserves_valid ops hr h

/-- Setting sixty-five units of stone and then zero units of coal leaves the limit of sixty-four
stone and an empty slot. -/
theorem slots_valid_after_oversized_set :
    let ops := [SlotOp.create 2, .setItem ⟨0⟩ 0 (some (Stack.new .stone 65)),
      .setItem ⟨0⟩ 1 (some (Stack.new .coal 0))]
    ∃ r', (ops.forM SlotOp.run).run {} = .ok ((), r') ∧ r'.Valid := by
  intro ops
  exact ⟨_, rfl, @slots_stay_valid {} _ ops (fun s hs => absurd hs (Array.not_mem_empty s)) rfl⟩

end ItemFlow
