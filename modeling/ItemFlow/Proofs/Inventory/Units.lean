import ItemFlow.Proofs.Inventory.Valid
/-! Counting units. Each unit a slot holds weighs what a weight function gives its item, and
slots and realms weigh the sum of their units. Setting a slot trades the weight of its old
content for that of the new, taking a unit removes the weight of one unit of the slot's item,
and a successful add places the weight of the whole added stack, into slots that keep every
unit and item they held. -/
namespace ItemFlow

section Weight
variable (w : Identity → Nat)

/-- The weight of a slot's content: its units, each weighing what `w` gives its item. -/
def Stack.weight : Option Stack → Nat
  | some st => w st.identity * st.count.toNat
  | none => 0

def Slots.weigh (s : Slots) : Nat := (s.toList.map (Stack.weight w)).sum

/-- The weight of all units in every storage of a realm, each storage counted once. -/
def Realm.weigh (r : Realm) : Nat := (r.storages.toList.map fun s => s.slots.weigh w).sum

end Weight

/-- Units of one item across the storages of a realm. -/
def Realm.units (r : Realm) (x : Identity) : Nat := r.weigh fun y => if y = x then 1 else 0

def Realm.totalUnits (r : Realm) : Nat := r.weigh fun _ => 1

private theorem sum_map_set_add {α : Type} (f : α → Nat) :
    ∀ (l : List α) (i : Nat) (h : i < l.length) (a : α),
      ((l.set i a).map f).sum + f l[i] = (l.map f).sum + f a
  | _ :: _, 0, _, _ => by simp; omega
  | x :: l, i + 1, h, a => by
    have := sum_map_set_add f l i (by simpa using h) a
    simp only [List.set_cons_succ, List.map_cons, List.sum_cons, List.getElem_cons_succ]
    omega

private theorem foldl_add_eq_sum {α : Type} (f : α → Nat) (l : List α) (a : Nat) :
    l.foldl (fun acc c => acc + f c) a = a + (l.map f).sum := by
  induction l generalizing a with
  | nil => simp
  | cons c l ih => simp [ih]; omega

namespace Stack
variable (w : Identity → Nat)

theorem maxStack_eq_of_comparable {e st : Stack} (h : e.comparable st = true) :
    e.maxStack = st.maxStack := by
  have : e.identity = st.identity := by simpa [comparable] using h
  simp only [maxStack, show e.kind = st.kind from congrArg Identity.kind this]

theorem weight_shrink {st : Stack} (h : st.count ≠ 0) :
    weight w st.shrink + w st.identity = weight w (some st) := by
  have h0 : st.count.toNat ≠ 0 := fun h' => h (UInt32.toNat_inj.mp (by simpa using h'))
  obtain ⟨n, hn⟩ : ∃ n, st.count.toNat = n + 1 := ⟨st.count.toNat - 1, by omega⟩
  unfold shrink
  split
  · next h1 =>
    have : st.count.toNat ≤ 1 := by simpa [UInt32.le_iff_toNat_le] using h1
    simp [weight, hn, show n = 0 by omega]
  · next h1 =>
    have hsub : (st.count - 1).toNat = n := (UInt32.toNat_sub_one (by omega)).trans (by simp [hn])
    simp only [weight, identity_withCount, count_withCount, hsub, hn, Nat.mul_succ]

theorem count_ne_zero_of_stored {st st' : Stack} (h : st.stored = some st') : st'.count ≠ 0 := by
  have := (fits_iff.mp (fits_of_stored h)).1
  intro h0
  simp [h0] at this

theorem count_ne_zero_of_shrink {st st' : Stack} (h : st.shrink = some st') : st'.count ≠ 0 := by
  obtain ⟨h1, hcount⟩ := count_of_shrink h
  intro h0
  rw [h0, UInt32.toNat_zero] at hcount
  omega

@[simp] theorem kind_withCount (s : Stack) (n : UInt32) : (s.withCount n).kind = s.kind := rfl

theorem stored_of_fits {st : Stack} (h : st.Fits) : st.stored = some st := by
  obtain ⟨h1, h2⟩ := fits_iff.mp h
  have h0 : st.count ≠ 0 := fun h0 => by simp [h0] at h1
  have hle : ¬st.count > st.maxStack := by simpa [UInt32.lt_iff_toNat_lt] using h2
  simp [stored, h0, hle]

theorem fits_single (st : Stack) : st.single.Fits := by
  have := st.kind.one_le_maxStack
  simp only [fits_iff, single, count_withCount, kind_withCount, UInt32.toNat_one, maxStack]
  omega

theorem grow_one {e : Stack} (h : ¬e.isFull = true) :
    (e.count + 1).toNat = e.count.toNat + 1 ∧ (e.withCount (e.count + 1)).Fits := by
  have := e.kind.one_le_maxStack
  simp only [isFull, ge_iff_le, decide_eq_true_eq, UInt32.le_iff_toNat_le, maxStack] at h
  have hsum : (e.count + 1).toNat = e.count.toNat + 1 := by
    rw [UInt32.toNat_add, UInt32.toNat_one]
    omega
  refine ⟨hsum, ?_⟩
  simp only [fits_iff, count_withCount, kind_withCount, hsum, maxStack]
  omega

theorem weight_grow_one {e : Stack} (h : ¬e.isFull = true) :
    weight w (some (e.withCount (e.count + 1))) = weight w (some e) + w e.identity := by
  simp only [weight, identity_withCount, count_withCount, (grow_one h).1, Nat.mul_succ]

@[simp] theorem weight_single (st : Stack) : weight w (some st.single) = w st.identity := by
  simp [weight, single]

end Stack

theorem Slots.getElem?_of_item {s : Slots} {k : Nat} {c : Option Stack} (h : s.item k = .ok c) :
    s[k]? = some c := by
  unfold Slots.item at h
  split at h <;> cases h
  assumption

theorem Slots.getElem?_of_mem_zip {s : Slots} {k : Nat} {c : Option Stack}
    (h : (k, c) ∈ (List.range s.size).zip s.toList) : s[k]? = some c := by
  obtain ⟨j, hj, heq⟩ := List.mem_iff_getElem.mp h
  simp only [List.getElem_zip, List.getElem_range, Prod.mk.injEq] at heq
  obtain ⟨rfl, rfl⟩ := heq
  simp only [List.length_zip, List.length_range, Array.length_toList, Nat.min_self] at hj
  simp [hj]

theorem Slots.getElem?_of_mem_filled {s : Slots} {k : Nat} {st : Stack} (h : (k, st) ∈ s.filled) :
    s[k]? = some (some st) := by
  obtain ⟨⟨i, c⟩, hmem, hc⟩ := List.mem_filterMap.mp h
  cases c with
  | none => cases hc
  | some st' =>
    cases hc
    exact Slots.getElem?_of_mem_zip hmem

namespace Slots
variable (w : Identity → Nat) {s : Slots}

/-- Room for `st` on the stacks already in the slots, leaving out the empty slots. -/
def stackRoom (st : Stack) (l : List (Option Stack)) : Nat :=
  (l.map fun c => if c.isSome then room st c else 0).sum

def emptyRoom (st : Stack) (l : List (Option Stack)) : Nat :=
  (l.map fun c => if c.isSome then 0 else room st c).sum

theorem capacity_eq (s : Slots) (st : Stack) :
    s.capacity st = stackRoom st s.toList + emptyRoom st s.toList := by
  unfold capacity
  rw [← Array.foldl_toList, foldl_add_eq_sum, Nat.zero_add]
  induction s.toList with
  | nil => rfl
  | cons c l ih => cases c <;> simp [stackRoom, emptyRoom, ih] at * <;> omega

theorem weigh_set {i : Nat} (h : i < s.size) (c : Option Stack) :
    Slots.weigh w (s.set! i c) + Stack.weight w s[i] = s.weigh w + Stack.weight w c := by
  simp only [weigh, Array.set!_eq_setIfInBounds, Array.toList_setIfInBounds]
  rw [← Array.getElem_toList]
  exact sum_map_set_add _ s.toList i (by simpa using h) c

theorem topUp_rem (st : Stack) (l : List (Option Stack)) (i rem : Nat) :
    (topUp st l i rem).2.2 = rem - min rem (stackRoom st l) := by
  fun_induction topUp st l i rem with
  | case1 => simp [stackRoom]
  | case2 cs i rem e hcond moved e' rest ch r hrec ih =>
    rw [hrec] at ih
    have hmax := Stack.maxStack_eq_of_comparable hcond.2.1
    simp only [stackRoom, List.map_cons, List.sum_cons, Option.isSome_some, if_true, room,
      hcond.2.1] at ih ⊢
    simp only [moved, hmax] at ih
    omega
  | case3 cs i rem e hcond rest ch r hrec ih =>
    rw [hrec] at ih
    -- a slot the first pass skips has no room, unless nothing remains to place
    have hroom : rem = 0 ∨ room st (some e) = 0 := by
      by_cases hrem : rem = 0
      · exact .inl hrem
      · refine .inr ?_
        by_cases hc : e.comparable st = true
        · have hfull : e.isFull = true := by simpa [hrem, hc] using hcond
          simp only [Stack.isFull, ge_iff_le, decide_eq_true_eq, UInt32.le_iff_toNat_le,
            Stack.maxStack_eq_of_comparable hc] at hfull
          simp only [room, hc, if_true]
          omega
        · simp [room, hc]
    simp only [stackRoom, List.map_cons, List.sum_cons, Option.isSome_some, if_true] at ih ⊢
    omega
  | case4 cs i rem rest ch r hrec ih =>
    rw [hrec] at ih
    simpa [stackRoom] using ih

theorem fillEmpty_rem (st : Stack) (l : List (Option Stack)) (i rem : Nat) :
    (fillEmpty st l i rem).2.2 = rem - min rem (emptyRoom st l) := by
  fun_induction fillEmpty st l i rem with
  | case1 => simp [emptyRoom]
  | case2 cs i rem hrem moved e rest ch r hrec ih =>
    rw [hrec] at ih
    have hroom : room st none = st.maxStack.toNat := rfl
    simp only [emptyRoom, List.map_cons, List.sum_cons, Option.isSome_none, Bool.false_eq_true,
      if_false, hroom] at ih ⊢
    simp only [moved] at ih
    omega
  | case3 cs i rem hrem rest ch r hrec ih =>
    rw [hrec] at ih
    simp only [emptyRoom, List.map_cons, List.sum_cons] at ih ⊢
    omega
  | case4 cs i rem e rest ch r hrec ih =>
    rw [hrec] at ih
    simpa [emptyRoom] using ih

theorem emptyRoom_topUp (st : Stack) (l : List (Option Stack)) (i rem : Nat) :
    emptyRoom st (topUp st l i rem).1 = emptyRoom st l := by
  fun_induction topUp st l i rem with
  | case1 => rfl
  | case2 cs i rem e hcond moved e' rest ch r hrec ih
  | case3 cs i rem e hcond rest ch r hrec ih
  | case4 cs i rem rest ch r hrec ih =>
    rw [hrec] at ih
    simpa [emptyRoom] using ih

theorem weigh_topUp (st : Stack) (l : List (Option Stack)) (i rem : Nat) :
    ((topUp st l i rem).1.map (Stack.weight w)).sum + w st.identity * (topUp st l i rem).2.2 =
      (l.map (Stack.weight w)).sum + w st.identity * rem := by
  fun_induction topUp st l i rem with
  | case1 => simp
  | case2 cs i rem e hcond moved e' rest ch r hrec ih =>
    rw [hrec] at ih
    obtain ⟨hsum, -, -⟩ := Stack.topUp_count hcond.2.2 hcond.1
    have hid : e.identity = st.identity := by simpa [Stack.comparable] using hcond.2.1
    have hmoved : moved ≤ rem := Nat.min_le_left _ _
    have hsplit : w st.identity * rem = w st.identity * moved + w st.identity * (rem - moved) := by
      rw [← Nat.mul_add, Nat.add_sub_cancel' hmoved]
    simp only [moved] at hsplit ih
    simp only [List.map_cons, List.sum_cons, Stack.weight, e', moved, Stack.identity_withCount,
      Stack.count_withCount, hsum, hid, Nat.mul_add]
    omega
  | case3 cs i rem e hcond rest ch r hrec ih
  | case4 cs i rem rest ch r hrec ih =>
    rw [hrec] at ih
    simp only [List.map_cons, List.sum_cons] at ih ⊢
    omega

theorem weigh_fillEmpty (st : Stack) (l : List (Option Stack)) (i rem : Nat) :
    ((fillEmpty st l i rem).1.map (Stack.weight w)).sum + w st.identity * (fillEmpty st l i rem).2.2 =
      (l.map (Stack.weight w)).sum + w st.identity * rem := by
  fun_induction fillEmpty st l i rem with
  | case1 => simp
  | case2 cs i rem hrem moved e rest ch r hrec ih =>
    rw [hrec] at ih
    have := st.kind.one_le_maxStack
    have hmoved : moved ≤ rem := Nat.min_le_left _ _
    have hcount : e.count.toNat = moved := by
      simp only [e, Stack.count_withCount, Nat.toUInt32_eq, UInt32.toNat_ofNat']
      simp only [moved, Stack.maxStack] at *
      omega
    have hsplit : w st.identity * rem = w st.identity * moved + w st.identity * (rem - moved) := by
      rw [← Nat.mul_add, Nat.add_sub_cancel' hmoved]
    simp only [List.map_cons, List.sum_cons, Stack.weight, hcount, e, Stack.identity_withCount]
      at ih ⊢
    omega
  | case3 cs i rem hrem rest ch r hrec ih
  | case4 cs i rem _ rest ch r hrec ih =>
    rw [hrec] at ih
    simp only [List.map_cons, List.sum_cons] at ih ⊢
    omega

/-- A successful add places the weight of the whole added stack: the capacity check leaves
nothing for the passes to drop. -/
theorem weigh_addItem {st : Stack} {e : Edit} (h : s.addItem st = .ok e) :
    e.slots.weigh w = s.weigh w + w st.identity * st.count.toNat := by
  unfold Slots.addItem at h
  split at h
  · next hempty =>
    cases h
    have : st.count = 0 := by simpa [Stack.isEmpty] using hempty
    simp [this]
  · split at h
    · cases h
    · next hcap =>
      rcases ht : topUp st s.toList 0 st.count.toNat with ⟨l1, ch1, rem⟩
      rcases hf : fillEmpty st l1 0 rem with ⟨l2, ch2, rem'⟩
      simp only [ht, hf, Except.ok.injEq] at h
      subst h
      have h1 := topUp_rem st s.toList 0 st.count.toNat
      have h2 := fillEmpty_rem st l1 0 rem
      have hempty := emptyRoom_topUp st s.toList 0 st.count.toNat
      have w1 := weigh_topUp w st s.toList 0 st.count.toNat
      have w2 := weigh_fillEmpty w st l1 0 rem
      have hroom := capacity_eq s st
      rw [ht] at h1 hempty w1
      rw [hf] at h2 w2
      dsimp only at h1 h2 hempty w1 w2
      -- the room is at least the count, so the second pass places the rest
      have hall : rem' = 0 := by
        rw [hempty] at h2
        omega
      simp only [hall, Nat.mul_zero, Nat.add_zero] at w2
      simp only [weigh]
      omega

theorem decrement_of_filled {i : Nat} {st : Stack} (hst : s[i]? = some (some st)) :
    s.decrement i = .ok (st.shrink, ⟨s.set! i st.shrink, [⟨i, st.shrink⟩]⟩) := by
  simp [Slots.decrement, hst]

theorem size_addItem {st : Stack} {e : Edit} (h : s.addItem st = .ok e) : e.slots.size = s.size := by
  simpa using (gains_of_addItem h).length_eq.symm

theorem size_setItem {i : Nat} {st : Option Stack} {e : Edit} (h : s.setItem i st = .ok e) :
    e.slots.size = s.size := by
  unfold Slots.setItem at h
  split at h <;> cases h
  simp

theorem size_decrement {i : Nat} {c : Option Stack} {e : Edit} (h : s.decrement i = .ok (c, e)) :
    e.slots.size = s.size := by
  unfold Slots.decrement at h
  split at h <;> cases h <;> simp

end Slots

/-- Slot content `c'` holds every unit `c` holds, of the same item. -/
def Stack.Keeps (c c' : Option Stack) : Prop :=
  ∀ st, c = some st → ∃ st', c' = some st' ∧ st'.identity = st.identity ∧ st.count.toNat ≤ st'.count.toNat

def Slots.Keeps (s s' : Slots) : Prop :=
  ∀ (k : Nat) (c : Option Stack), s[k]? = some c → ∃ c', s'[k]? = some c' ∧ Stack.Keeps c c'

def Realm.Keeps (r r' : Realm) : Prop := ∀ i, (r.slotsOf i).Keeps (r'.slotsOf i)

theorem Stack.Keeps.refl (c : Option Stack) : Stack.Keeps c c :=
  fun st h => ⟨st, h, rfl, Nat.le_refl _⟩

theorem Slots.Keeps.refl (s : Slots) : s.Keeps s :=
  fun _ c h => ⟨c, h, .refl c⟩

theorem Slots.Gain.stackKeeps {c c' : Option Stack} (h : Gain c c') : Stack.Keeps c c' :=
  fun _ hst => h.keeps hst

private theorem forall₂_gain_getElem? {l l' : List (Option Stack)} (h : List.Forall₂ Slots.Gain l l') :
    ∀ (k : Nat) (c : Option Stack), l[k]? = some c → ∃ c', l'[k]? = some c' ∧ Slots.Gain c c' := by
  induction h with
  | nil => simp
  | cons hab _ ih =>
    intro k c hk
    cases k with
    | zero =>
      cases hk
      exact ⟨_, rfl, hab⟩
    | succ k => exact ih k c hk

theorem Slots.keeps_of_gains {s s' : Slots} (h : s.Gains s') : s.Keeps s' := by
  intro k c hk
  rw [← Array.getElem?_toList] at hk
  obtain ⟨c', hc', hg⟩ := forall₂_gain_getElem? h k c hk
  exact ⟨c', by rwa [← Array.getElem?_toList], hg.stackKeeps⟩

theorem Slots.keeps_set {s : Slots} {k : Nat} {c c' : Option Stack} (hk : s[k]? = some c)
    (hc : Stack.Keeps c c') : s.Keeps (s.set! k c') := by
  intro j d hj
  by_cases hjk : j = k
  · subst hjk
    rw [hk] at hj
    cases hj
    refine ⟨c', ?_, hc⟩
    simp [Array.set!_eq_setIfInBounds, (Array.getElem?_eq_some_iff.mp hk).1]
  · exact ⟨d, by simpa [Array.set!_eq_setIfInBounds, Ne.symm hjk] using hj, .refl d⟩

theorem Realm.Keeps.refl (r : Realm) : r.Keeps r := fun i => .refl (r.slotsOf i)

theorem Realm.keeps_applyEdit {r : Realm} {i : InventoryId} {e : Edit}
    (h : (r.slotsOf i).Keeps e.slots) : r.Keeps (r.applyEdit i e) := by
  intro j
  rw [Realm.slotsOf_applyEdit]
  split
  · next hij =>
    obtain ⟨rfl, -⟩ := hij
    exact h
  · exact .refl _

theorem Realm.Keeps.filled {r r' : Realm} (h : r.Keeps r') {i : InventoryId} {k : Nat} {st : Stack}
    (hst : (r.slotsOf i)[k]? = some (some st)) :
    ∃ st', (r'.slotsOf i)[k]? = some (some st') ∧ st'.identity = st.identity ∧
      st.count.toNat ≤ st'.count.toNat := by
  obtain ⟨c', hc', hkeep⟩ := h i k _ hst
  obtain ⟨st', rfl, hid, hle⟩ := hkeep st rfl
  exact ⟨st', hc', hid, hle⟩

namespace Realm
variable (w : Identity → Nat) {r : Realm}

@[simp] theorem weigh_setBlocks (b : BlockMap) : Realm.weigh w { r with blocks := b } = r.weigh w := rfl

theorem weigh_applyEdit {i : InventoryId} {e : Edit} (hsize : e.slots.size = (r.slotsOf i).size) :
    (r.applyEdit i e).weigh w + (r.slotsOf i).weigh w = r.weigh w + e.slots.weigh w := by
  unfold Realm.weigh
  rw [storages_applyEdit]
  unfold slotsOf at hsize ⊢
  cases hs : r.storages[i.idx]? with
  | none =>
    rw [hs] at hsize
    have : e.slots = #[] := Array.eq_empty_of_size_eq_zero hsize
    simp [this, Slots.weigh]
  | some s =>
    obtain ⟨hi, hget⟩ := Array.getElem?_eq_some_iff.mp hs
    have := sum_map_set_add (fun s : Storage => s.slots.weigh w) r.storages.toList i.idx
      (by simpa using hi) { s with slots := e.slots }
    simp only [Array.getElem_toList, hget] at this
    simpa [Array.set!_eq_setIfInBounds] using this

theorem weigh_applyEdit_set {i : InventoryId} {k : Nat} {c : Option Stack}
    (hc : (r.slotsOf i)[k]? = some c) (c' : Option Stack) (ch : List Change) :
    (r.applyEdit i ⟨(r.slotsOf i).set! k c', ch⟩).weigh w + Stack.weight w c =
      r.weigh w + Stack.weight w c' := by
  obtain ⟨hk, hget⟩ := Array.getElem?_eq_some_iff.mp hc
  have hsize : (Edit.slots ⟨(r.slotsOf i).set! k c', ch⟩).size = (r.slotsOf i).size := by simp
  have h1 := weigh_applyEdit w hsize
  have h2 := Slots.weigh_set w hk c'
  rw [hget] at h2
  dsimp only at h1
  omega

theorem slotsOf_applyEdit_set {i j : InventoryId} {k k' : Nat} (hk : k' ≠ k) (c : Option Stack)
    (ch : List Change) :
    ((r.applyEdit i ⟨(r.slotsOf i).set! k c, ch⟩).slotsOf j)[k']? = (r.slotsOf j)[k']? := by
  rw [slotsOf_applyEdit]
  split
  · next hij =>
    obtain ⟨rfl, -⟩ := hij
    simp [Array.set!_eq_setIfInBounds, Ne.symm hk]
  · rfl

theorem slotsOf_applyEdit_of_ne {r : Realm} {i j : InventoryId} (h : j ≠ i) (e : Edit) :
    (r.applyEdit j e).slotsOf i = r.slotsOf i := by
  rw [slotsOf_applyEdit, if_neg fun h' => h h'.1]

theorem slotsOf_applyEdit_slotsOf (r : Realm) (i : InventoryId) (ch : List Change) :
    (r.applyEdit i ⟨r.slotsOf i, ch⟩).slotsOf i = r.slotsOf i := by
  rw [slotsOf_applyEdit]
  split <;> rfl

theorem slotsOf_applyEdit_set_self (r : Realm) (i : InventoryId) (k : Nat) (c : Option Stack)
    (ch : List Change) :
    (r.applyEdit i ⟨(r.slotsOf i).set! k c, ch⟩).slotsOf i = (r.slotsOf i).set! k c := by
  rw [slotsOf_applyEdit]
  split
  · rfl
  · next h =>
    have hs : r.storages.size ≤ i.idx := by simpa using h
    simp [slotsOf, Array.getElem?_eq_none hs]

end Realm

def Slots.NoEmptyStack (s : Slots) : Prop := ∀ st, some st ∈ s → st.count ≠ 0

def Realm.NoEmptyStack (r : Realm) : Prop := ∀ s ∈ r.storages, s.slots.NoEmptyStack

instance (s : Slots) : Decidable s.NoEmptyStack :=
  decidable_of_iff (∀ c ∈ s.toList, ∀ st ∈ c, st.count ≠ 0) <| by
    simp only [Slots.NoEmptyStack, Array.mem_toList_iff, Option.mem_def]
    exact ⟨fun h st hst => h _ hst st rfl, fun h c hc st hst => h st (hst ▸ hc)⟩

instance (r : Realm) : Decidable r.NoEmptyStack :=
  decidable_of_iff (∀ s ∈ r.storages.toList, s.slots.NoEmptyStack) <| by
    simp [Realm.NoEmptyStack]

theorem Stack.Fits.count_ne_zero {st : Stack} (h : st.Fits) : st.count ≠ 0 := by
  intro h0
  have := (fits_iff.mp h).1
  simp [h0] at this

namespace Slots
variable {s : Slots}

theorem Valid.noEmptyStack (hs : s.Valid) : s.NoEmptyStack :=
  fun st hst => (hs st hst).count_ne_zero

theorem NoEmptyStack.setIfInBounds {c : Option Stack} (hs : s.NoEmptyStack)
    (hc : ∀ st, c = some st → st.count ≠ 0) (i : Nat) : NoEmptyStack (s.setIfInBounds i c) := by
  intro st hst
  rcases Array.mem_or_eq_of_mem_setIfInBounds hst with h | h
  · exact hs st h
  · exact hc st h.symm

theorem NoEmptyStack.setItem {i : Nat} {st : Option Stack} {e : Edit} (hs : s.NoEmptyStack)
    (h : s.setItem i st = .ok e) : e.slots.NoEmptyStack := by
  unfold Slots.setItem at h
  split at h <;> cases h
  refine hs.setIfInBounds (fun st' h' => ?_) i
  obtain ⟨x, -, hx⟩ := Option.bind_eq_some_iff.mp h'
  exact Stack.count_ne_zero_of_stored hx

theorem NoEmptyStack.decrement {i : Nat} {c : Option Stack} {e : Edit} (hs : s.NoEmptyStack)
    (h : s.decrement i = .ok (c, e)) : e.slots.NoEmptyStack := by
  unfold Slots.decrement at h
  split at h
  · cases h
  · cases h
    exact hs
  · cases h
    exact hs.setIfInBounds (fun _ h' => Stack.count_ne_zero_of_shrink h') i

theorem NoEmptyStack.addItem {st : Stack} {e : Edit} (hs : s.NoEmptyStack)
    (h : s.addItem st = .ok e) : e.slots.NoEmptyStack := by
  intro st' hst'
  obtain ⟨c, hc, hg⟩ := exists_gain_of_mem (gains_of_addItem h) (Array.mem_toList_iff.mpr hst')
  rcases hg with rfl | ⟨st'', hst'', hfit, -⟩
  · exact hs st' (Array.mem_toList_iff.mp hc)
  · cases hst''
    exact hfit.count_ne_zero

end Slots

namespace Realm
variable {r : Realm}

theorem Valid.noEmptyStack (hr : r.Valid) : r.NoEmptyStack :=
  fun s hs => (hr s hs).noEmptyStack

theorem NoEmptyStack.slotsOf (hr : r.NoEmptyStack) (i : InventoryId) : (r.slotsOf i).NoEmptyStack := by
  unfold Realm.slotsOf
  split
  · next s hs => exact hr s (Array.mem_of_getElem? hs)
  · intro st hst
    simp at hst

theorem NoEmptyStack.count_ne_zero (hr : r.NoEmptyStack) {i : InventoryId} {k : Nat} {st : Stack}
    (h : (r.slotsOf i)[k]? = some (some st)) : st.count ≠ 0 :=
  hr.slotsOf i st (Array.mem_of_getElem? h)

theorem NoEmptyStack.kept (hr : r.NoEmptyStack) {r' : Realm} (hk : r.Keeps r') {i : InventoryId}
    {k : Nat} {st : Stack} (hst : (r.slotsOf i)[k]? = some (some st)) :
    ∃ st', (r'.slotsOf i)[k]? = some (some st') ∧ st'.identity = st.identity ∧ st'.count ≠ 0 := by
  obtain ⟨st', hst', hid, hle⟩ := hk.filled hst
  refine ⟨st', hst', hid, fun h0 => hr.count_ne_zero hst (UInt32.toNat_inj.mp ?_)⟩
  rw [h0, UInt32.toNat_zero] at hle
  rw [UInt32.toNat_zero]
  omega

theorem NoEmptyStack.applyEdit (hr : r.NoEmptyStack) {e : Edit} (he : e.slots.NoEmptyStack)
    (i : InventoryId) : (r.applyEdit i e).NoEmptyStack := by
  intro s hs
  rw [storages_applyEdit] at hs
  split at hs
  · exact hr s hs
  · rcases Array.mem_or_eq_of_mem_setIfInBounds hs with hs | rfl
    · exact hr s hs
    · exact he

theorem slotStable_noEmptyStack : Act.SlotStable Realm.NoEmptyStack where
  setItem _ i _ _ _ hr h := hr.applyEdit ((hr.slotsOf i).setItem h) i
  addItem _ i _ _ hr h := hr.applyEdit ((hr.slotsOf i).addItem h) i
  decrement _ i _ _ _ hr h := hr.applyEdit ((hr.slotsOf i).decrement h) i

theorem blockStable_noEmptyStack : Act.BlockStable Realm.NoEmptyStack := fun _ _ _ hr => hr

end Realm

namespace Act
variable (w : Identity → Nat) {r r' : Realm} {i : InventoryId}

theorem run_setItem_of_getElem? {k : Nat} {c st : Option Stack} (hc : (r.slotsOf i)[k]? = some c) :
    (setItem i k st).run r = .ok (.ok (),
      r.applyEdit i ⟨(r.slotsOf i).set! k (st.bind Stack.stored), [⟨k, st.bind Stack.stored⟩]⟩) := by
  have hk := (Array.getElem?_eq_some_iff.mp hc).1
  rw [run_setItem]
  simp [Slots.setItem, hk]

theorem run_decrement_filled {k : Nat} {st : Stack} (hst : (r.slotsOf i)[k]? = some (some st)) :
    (decrement i k).run r =
      .ok (.ok st.shrink, r.applyEdit i ⟨(r.slotsOf i).set! k st.shrink, [⟨k, st.shrink⟩]⟩) := by
  rw [run_decrement, Slots.decrement_of_filled hst]

theorem weigh_decrement {k : Nat} {st : Stack} (hst : (r.slotsOf i)[k]? = some (some st))
    (h0 : st.count ≠ 0) :
    (r.applyEdit i ⟨(r.slotsOf i).set! k st.shrink, [⟨k, st.shrink⟩]⟩).weigh w + w st.identity =
      r.weigh w := by
  have := Realm.weigh_applyEdit_set w hst st.shrink [⟨k, st.shrink⟩]
  have := Stack.weight_shrink w h0
  omega

theorem weigh_addItem {st : Stack} {res : Except InventoryError Unit}
    (h : (addItem i st).run r = .ok (res, r')) (hok : res.toBool = true) :
    r'.weigh w = r.weigh w + w st.identity * st.count.toNat := by
  rcases addItem_cases h with ⟨e, he, -, rfl⟩ | ⟨hf, -⟩
  · have := Realm.weigh_applyEdit w (Slots.size_addItem he)
    have := Slots.weigh_addItem w he
    omega
  · rw [hf] at hok
    cases hok

theorem keeps_addItem {st : Stack} {res : Except InventoryError Unit}
    (h : (addItem i st).run r = .ok (res, r')) (hok : res.toBool = true) : r.Keeps r' := by
  rcases addItem_cases h with ⟨e, he, -, rfl⟩ | ⟨hf, -⟩
  · exact Realm.keeps_applyEdit (Slots.keeps_of_gains (Slots.gains_of_addItem he))
  · rw [hf] at hok
    cases hok

theorem addItem_refused {st : Stack} {res : Except InventoryError Unit}
    (h : (addItem i st).run r = .ok (res, r')) (hok : res.toBool = false) : r' = r := by
  rcases addItem_cases h with ⟨e, -, rfl, -⟩ | ⟨-, rfl⟩
  · cases hok
  · rfl

end Act

end ItemFlow
