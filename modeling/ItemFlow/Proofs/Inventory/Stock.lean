import ItemFlow.Proofs.Inventory.Greedy
/-! Slots stocked with one item. Slots whose every stack is of one item and fits its slot have
room for that item exactly where their units are not: each slot holds the item's limit, less
what it holds. So an add of the item goes through exactly when its count fits in what the slots
still lack, and it raises their units by its count; taking a unit from a filled slot lowers
them by one, and such a slot is there exactly when the slots hold units. -/
namespace ItemFlow

namespace Slots

/-- Slots holding `n` units in all, each stack of item `x` and fitting its slot. -/
structure Stock (s : Slots) (x : Identity) (n : Nat) : Prop where
  valid : s.Valid
  only : ∀ st, some st ∈ s → st.identity = x
  total : s.total = n

theorem foldl_add_eq_sum_map {α : Type} (f : α → Nat) (l : List α) :
    l.foldl (fun acc c => acc + f c) 0 = (l.map f).sum := by
  rw [List.sum_eq_foldl, List.foldl_map]

theorem total_eq_weigh (s : Slots) : s.total = s.weigh fun _ => 1 := by
  unfold total totalCount weigh
  rw [foldl_add_eq_sum_map]
  congr 1
  apply List.map_congr_left
  intro c _
  cases c <;> simp [Stack.weight]

theorem capacity_eq_sum (s : Slots) (st : Stack) : s.capacity st = (s.toList.map (room st)).sum := by
  unfold capacity
  rw [← Array.foldl_toList, foldl_add_eq_sum_map]

theorem sum_room_add_sum_weight {st : Stack} :
    ∀ l : List (Option Stack), (∀ e, some e ∈ l → e.identity = st.identity ∧ e.Fits) →
      (l.map (room st)).sum + (l.map (Stack.weight fun _ => 1)).sum = l.length * st.maxStack.toNat
  | [], _ => by simp
  | c :: l, h => by
    have ih := sum_room_add_sum_weight l fun e he => h e (List.mem_cons_of_mem _ he)
    simp only [List.map_cons, List.sum_cons, List.length_cons, Nat.succ_mul]
    cases c with
    | none => simp only [room, Stack.weight]; omega
    | some e =>
      obtain ⟨hid, hfit⟩ := h e List.mem_cons_self
      have hcomp : e.comparable st = true := by simp [Stack.comparable, hid]
      have hmax : e.maxStack = st.maxStack := Stack.maxStack_eq_of_comparable hcomp
      have hle := (Stack.fits_iff.mp hfit).2
      rw [hmax] at hle
      simp only [room, hcomp, if_true, Stack.weight, Nat.one_mul]
      omega

theorem identity_pourInto {s : Slots} {st : Stack} {o : Offer} (ho : o ∈ s.offers st) (k : Nat) :
    (pourInto st k o.held).identity = st.identity := by
  rcases List.mem_append.mp ho with ho | ho
  · obtain ⟨-, e, hheld, -, hcomp, -⟩ := mem_stackOffers ho
    rw [hheld]
    simpa [pourInto, Stack.comparable] using hcomp
  · obtain ⟨-, hheld, -⟩ := mem_emptyOffers ho
    rw [hheld]
    simp [pourInto]

theorem mem_addItem {s : Slots} {st e' : Stack} {e : Edit} (h : s.addItem st = .ok e)
    (he' : some e' ∈ e.slots) : some e' ∈ s ∨ e'.identity = st.identity := by
  rw [addItem_eq_pour] at h
  split at h
  · cases h
  cases h
  have hre := @reportsExactly_pour st s st.count.toNat
  obtain ⟨j, hj⟩ := Array.getElem?_of_mem he'
  by_cases hjr : j ∈ (pour st st.count.toNat (s.offers st)).map (·.slot)
  · obtain ⟨c, hc, rfl⟩ := List.mem_map.mp hjr
    obtain ⟨o, ho, m, -, rfl⟩ := mem_pour hc
    rw [(hre.reported _ hc).1] at hj
    have hpour : pourInto st (min m o.room) o.held = e' := by simpa using hj
    exact .inr (hpour ▸ identity_pourInto ho _)
  · rw [hre.unreported j hjr] at hj
    exact .inl (Array.mem_of_getElem? hj)

namespace Stock

theorem empty (x : Identity) (size : Nat) : (Slots.empty size).Stock x 0 where
  valid st hst := by simp [Slots.empty] at hst
  only st hst := by simp [Slots.empty] at hst
  total := by
    rw [total_eq_weigh, weigh]
    simp [Slots.empty, Stack.weight]

variable {s : Slots} {x : Identity} {n : Nat}

theorem sum_weight (hs : s.Stock x n) : (s.toList.map (Stack.weight fun _ => 1)).sum = n := by
  rw [← hs.total, total_eq_weigh]
  rfl

theorem capacity {st : Stack} (hs : s.Stock x n) (hx : st.identity = x) :
    s.capacity st + n = s.size * st.maxStack.toNat := by
  have h := sum_room_add_sum_weight s.toList fun e he =>
    ⟨(hs.only e (Array.mem_toList_iff.mp he)).trans hx.symm, hs.valid e (Array.mem_toList_iff.mp he)⟩
  rw [hs.sum_weight, Array.length_toList] at h
  rw [capacity_eq_sum]
  exact h

theorem le_size_mul (hs : s.Stock x n) {st : Stack} (hx : st.identity = x) :
    n ≤ s.size * st.maxStack.toNat := by
  have := hs.capacity hx
  omega

theorem addItem {st : Stack} {e : Edit} (hs : s.Stock x n) (hx : st.identity = x)
    (h : s.addItem st = .ok e) : e.slots.Stock x (n + st.count.toNat) where
  valid := hs.valid.addItem h
  only e' he' := (mem_addItem h he').elim (hs.only e') (·.trans hx)
  total := by
    rw [total_eq_weigh, weigh_addItem _ h, ← total_eq_weigh, hs.total]
    simp

theorem addItem_ok {st : Stack} (hs : s.Stock x n) (hx : st.identity = x)
    (hfit : n + st.count.toNat ≤ s.size * st.maxStack.toNat) : ∃ e, s.addItem st = .ok e := by
  have hcap := hs.capacity hx
  rw [addItem_eq_pour, if_neg (by omega)]
  exact ⟨_, rfl⟩

theorem addItem_full {st : Stack} (hs : s.Stock x n) (hx : st.identity = x)
    (hover : s.size * st.maxStack.toNat < n + st.count.toNat) : s.addItem st = .error .full := by
  have hcap := hs.capacity hx
  rw [addItem_eq_pour, if_pos (by omega)]

theorem set_shrink {i : Nat} {st : Stack} (hs : s.Stock x n) (hst : s[i]? = some (some st)) :
    Stock (s.set! i st.shrink) x (n - 1) where
  valid := hs.valid.decrement (decrement_of_filled hst)
  only := by
    intro e' he'
    obtain ⟨j, hj⟩ := Array.getElem?_of_mem he'
    rw [Array.set!_eq_setIfInBounds, Array.getElem?_setIfInBounds] at hj
    split at hj
    · have hid := hs.only st (Array.mem_of_getElem? hst)
      have hshrink : st.shrink = some e' := by
        simp only [Option.ite_none_right_eq_some, Option.some.injEq] at hj
        exact hj.2
      rw [Stack.identity_of_shrink hshrink, hid]
    · exact hs.only e' (Array.mem_of_getElem? hj)
  total := by
    obtain ⟨hlt, hget⟩ := Array.getElem?_eq_some_iff.mp hst
    have hset := weigh_set (fun _ => 1) hlt st.shrink
    have hshrink := Stack.weight_shrink (fun _ => 1) (Stack.Fits.count_ne_zero (hs.valid st
      (Array.mem_of_getElem? hst)))
    rw [hget] at hset
    rw [total_eq_weigh, ← hs.total, total_eq_weigh]
    omega

theorem eq_zero_iff (hs : s.Stock x n) : n = 0 ↔ ∀ c ∈ s.toList, c = none := by
  rw [← hs.sum_weight, List.sum_eq_zero_iff]
  constructor
  · intro h c hc
    cases c with
    | none => rfl
    | some st =>
      have := (Stack.fits_iff.mp (hs.valid st (Array.mem_toList_iff.mp hc))).1
      have h0 := h _ (List.mem_map_of_mem hc)
      simp only [Stack.weight, Nat.one_mul] at h0
      omega
  · intro h w hw
    obtain ⟨c, hc, rfl⟩ := List.mem_map.mp hw
    rw [h c hc]
    rfl

theorem filled_eq_nil_iff (hs : s.Stock x n) : s.filled = [] ↔ n = 0 := by
  rw [hs.eq_zero_iff, filled, List.filterMap_eq_nil_iff]
  have hsnd : ((List.range s.size).zip s.toList).map Prod.snd = s.toList :=
    List.map_snd_zip (by simp)
  constructor
  · intro h c hc
    rw [← hsnd] at hc
    obtain ⟨⟨i, c⟩, hp, rfl⟩ := List.mem_map.mp hc
    simpa using h _ hp
  · rintro h ⟨i, c⟩ hp
    have hc : c ∈ s.toList := hsnd ▸ List.mem_map_of_mem (f := Prod.snd) hp
    simp [h c hc]

theorem exists_first (hs : s.Stock x n) (hn : 0 < n) :
    ∃ i st rest, s.filled = (i, st) :: rest ∧ s[i]? = some (some st) ∧ st.identity = x := by
  obtain ⟨⟨i, st⟩, rest, hl⟩ :=
    List.exists_cons_of_ne_nil (mt hs.filled_eq_nil_iff.mp (by omega))
  have hst : s[i]? = some (some st) := getElem?_of_mem_filled (by rw [hl]; simp)
  exact ⟨i, st, rest, hl, hst, hs.only st (Array.mem_of_getElem? hst)⟩

theorem addItem_single {st : Stack} (hs : s.Stock x n) (hx : st.identity = x)
    (hroom : n < s.size * st.maxStack.toNat) :
    ∃ e, s.addItem st.single = .ok e ∧ e.slots.Stock x (n + 1) ∧ e.slots.size = s.size := by
  have hx' : st.single.identity = x := hx
  have hone : st.single.count.toNat = 1 := by simp [Stack.single]
  obtain ⟨e, he⟩ := hs.addItem_ok hx' (by rw [hone]; simpa [Stack.single] using hroom)
  exact ⟨e, he, hone ▸ hs.addItem hx' he, size_addItem he⟩

end Stock

theorem firstFilled?_eq_head?_filled (s : Slots) : s.firstFilled? = s.filled.head? := by
  rw [firstFilled?, filled, List.head?_filterMap]

end Slots

end ItemFlow
