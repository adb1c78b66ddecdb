import ItemFlow.Proofs.Inventory.Units
/-! Adding a stack, against a greedy reference. The places an add may put units are offered in
a fixed order: the comparable stacks that are not full, by slot, then the empty slots, by slot,
each with its room. Pouring the units greedily over the offers, each place taking as many of
what is left as it has room for, gives the slot changes; the slots end as the changes report.

Main statement: an add is refused, changing nothing and reporting nothing, exactly when the
room across all slots is smaller than the count; otherwise it reports the greedy pour of the
whole count, each changed slot once and no other, and ends in the slots the reports describe,
with the count added to the units of the stack's item and no unit of any other item. -/
namespace ItemFlow

namespace Slots

/-- A place an add may put units: a slot, what it holds, and its room for the added item. -/
structure Offer where
  slot : Nat
  held : Option Stack
  room : Nat
deriving DecidableEq, Repr

/-- The comparable stacks that are not full among slots `l` numbered from `k`, with the room
each has below its limit. -/
def stackOffers (st : Stack) (l : List (Option Stack)) (k : Nat) : List Offer :=
  (l.zipIdx k).filterMap fun (c, i) => match c with
    | some e => if e.comparable st ∧ ¬e.isFull then some ⟨i, c, e.maxStack.toNat - e.count.toNat⟩
      else none
    | none => none

def emptyOffers (st : Stack) (l : List (Option Stack)) (k : Nat) : List Offer :=
  (l.zipIdx k).filterMap fun (c, i) => if c.isNone then some ⟨i, none, st.maxStack.toNat⟩ else none

/-- Where adding `st` may put units, in the order it tries them: comparable stacks that are not
full, by slot, then empty slots, by slot. -/
def offers (s : Slots) (st : Stack) : List Offer :=
  stackOffers st s.toList 0 ++ emptyOffers st s.toList 0

def pourInto (st : Stack) (n : Nat) : Option Stack → Stack
  | some e => e.withCount (e.count + n.toUInt32)
  | none => st.withCount n.toUInt32

/-- Greedy pouring of `n` units of `st` over offers in order: each place takes as many of the
units left as it has room for, until none are left. The places poured into are reported with
what they hold after. -/
def pour (st : Stack) : Nat → List Offer → List Change
  | _, [] => []
  | n, o :: os =>
    if n = 0 then []
    else ⟨o.slot, some (pourInto st (min n o.room) o.held)⟩ :: pour st (n - min n o.room) os

/-- Slots `l` numbered from `k` with reported changes in place: a slot a change names holds what
the change reports. -/
def patch (ch : List Change) (l : List (Option Stack)) (k : Nat) : List (Option Stack) :=
  (l.zipIdx k).map fun (c, i) => ((ch.find? (·.slot == i)).map (·.stack)).getD c

def withChanges (s : Slots) (ch : List Change) : Slots := (patch ch s.toList 0).toArray

/-- `ch` reports exactly the slots that differ from `s` to `s'`: each once, with what it holds
in `s'`, and every slot it does not name is as it was. -/
structure ReportsExactly (s s' : Slots) (ch : List Change) : Prop where
  nodup : (ch.map (·.slot)).Nodup
  reported : ∀ c ∈ ch, s'[c.slot]? = some c.stack ∧ s[c.slot]? ≠ some c.stack
  unreported : ∀ j, j ∉ ch.map (·.slot) → s'[j]? = s[j]?

variable {st : Stack}

section Patch

theorem patch_cons (ch : List Change) (c : Option Stack) (l : List (Option Stack)) (k : Nat) :
    patch ch (c :: l) k = ((ch.find? (·.slot == k)).map (·.stack)).getD c :: patch ch l (k + 1) := by
  simp [patch, List.zipIdx_cons]

@[simp] theorem patch_nil (l : List (Option Stack)) (k : Nat) : patch [] l k = l := by
  induction l generalizing k with
  | nil => rfl
  | cons c l ih => simp [patch_cons, ih]

theorem patch_cons_of_lt {c : Change} {k : Nat} (hc : c.slot < k) (ch : List Change)
    (l : List (Option Stack)) : patch (c :: ch) l k = patch ch l k := by
  induction l generalizing k with
  | nil => rfl
  | cons x l ih =>
    have hne : (c.slot == k) = false := by simp; omega
    simp only [patch_cons, List.find?_cons, hne, ih (Nat.lt_succ_of_lt hc)]

theorem patch_cons_of_forall_lt {ch : List Change} {k : Nat} (hch : ∀ c ∈ ch, k < c.slot)
    (x : Option Stack) (l : List (Option Stack)) : patch ch (x :: l) k = x :: patch ch l (k + 1) := by
  have hnone : ch.find? (·.slot == k) = none :=
    List.find?_eq_none.mpr fun c hc => by simpa using Nat.ne_of_gt (hch c hc)
  rw [patch_cons, hnone]
  rfl

theorem getElem?_patch (ch : List Change) (l : List (Option Stack)) (k j : Nat) :
    (patch ch l k)[j]? = l[j]?.map fun c => ((ch.find? (·.slot == k + j)).map (·.stack)).getD c := by
  simp [patch, List.getElem?_zipIdx, Function.comp_def]

theorem patch_patch {ch₁ ch₂ : List Change} (hdis : ∀ c₁ ∈ ch₁, ∀ c₂ ∈ ch₂, c₁.slot ≠ c₂.slot)
    (l : List (Option Stack)) (k : Nat) : patch ch₂ (patch ch₁ l k) k = patch (ch₁ ++ ch₂) l k := by
  induction l generalizing k with
  | nil => rfl
  | cons x l ih =>
    simp only [patch_cons, ih, List.find?_append]
    congr 1
    cases h₁ : ch₁.find? (·.slot == k) with
    | none => simp
    | some c₁ =>
      -- the slot a change of the first list names is named by no change of the second
      have hc₁ := List.find?_some h₁
      have h₂ : ch₂.find? (·.slot == k) = none := List.find?_eq_none.mpr fun c₂ hc₂ h => by
        simp only [beq_iff_eq] at hc₁ h
        exact hdis c₁ (List.mem_of_find?_eq_some h₁) c₂ hc₂ (hc₁.trans h.symm)
      simp [h₂]

end Patch

section Offers
variable {e : Stack} {l : List (Option Stack)} {k : Nat}

@[simp] theorem stackOffers_nil : stackOffers st [] k = [] := rfl

@[simp] theorem stackOffers_cons_none : stackOffers st (none :: l) k = stackOffers st l (k + 1) := by
  simp [stackOffers, List.zipIdx_cons]

theorem stackOffers_cons_offer (hc : e.comparable st = true) (hf : ¬e.isFull = true) :
    stackOffers st (some e :: l) k =
      ⟨k, some e, e.maxStack.toNat - e.count.toNat⟩ :: stackOffers st l (k + 1) := by
  simp [stackOffers, List.zipIdx_cons, hc, hf]

theorem stackOffers_cons_skip (h : ¬(e.comparable st = true ∧ ¬e.isFull = true)) :
    stackOffers st (some e :: l) k = stackOffers st l (k + 1) := by
  simp only [stackOffers, List.zipIdx_cons, List.filterMap_cons]
  rw [if_neg h]

@[simp] theorem emptyOffers_nil : emptyOffers st [] k = [] := rfl

@[simp] theorem emptyOffers_cons_none :
    emptyOffers st (none :: l) k = ⟨k, none, st.maxStack.toNat⟩ :: emptyOffers st l (k + 1) := by
  simp [emptyOffers, List.zipIdx_cons]

@[simp] theorem emptyOffers_cons_some : emptyOffers st (some e :: l) k = emptyOffers st l (k + 1) := by
  simp [emptyOffers, List.zipIdx_cons]

theorem mem_stackOffers {o : Offer} (h : o ∈ stackOffers st l k) :
    k ≤ o.slot ∧ ∃ e, o.held = some e ∧ l[o.slot - k]? = some (some e) ∧ e.comparable st = true ∧
      ¬e.isFull = true ∧ o.room = e.maxStack.toNat - e.count.toNat := by
  obtain ⟨⟨c, i⟩, hmem, hf⟩ := List.mem_filterMap.mp h
  obtain ⟨hk, hlt, hc⟩ := List.mem_zipIdx hmem
  cases c with
  | none => cases hf
  | some e =>
    dsimp only at hf
    split at hf
    · next hcond =>
      cases hf
      refine ⟨hk, e, rfl, ?_, hcond.1, hcond.2, rfl⟩
      rw [List.getElem?_eq_getElem (by dsimp only; omega), ← hc]
    · cases hf

theorem mem_emptyOffers {o : Offer} (h : o ∈ emptyOffers st l k) :
    k ≤ o.slot ∧ o.held = none ∧ l[o.slot - k]? = some none ∧ o.room = st.maxStack.toNat := by
  obtain ⟨⟨c, i⟩, hmem, hf⟩ := List.mem_filterMap.mp h
  obtain ⟨hk, hlt, hc⟩ := List.mem_zipIdx hmem
  dsimp only at hf
  split at hf
  · next hnone =>
    cases hf
    refine ⟨hk, rfl, ?_, rfl⟩
    rw [List.getElem?_eq_getElem (by dsimp only; omega), ← hc, Option.isNone_iff_eq_none.mp hnone]
  · cases hf

theorem stackOffers_ordered (l : List (Option Stack)) (k : Nat) :
    (stackOffers st l k).Pairwise (·.slot < ·.slot) := by
  induction l generalizing k with
  | nil => exact .nil
  | cons c l ih =>
    have hrest : ∀ o ∈ stackOffers st l (k + 1), k < o.slot := fun o ho => (mem_stackOffers ho).1
    cases c with
    | none => simpa using ih (k + 1)
    | some e =>
      by_cases hcond : e.comparable st = true ∧ ¬e.isFull = true
      · rw [stackOffers_cons_offer hcond.1 hcond.2]
        exact List.pairwise_cons.mpr ⟨hrest, ih (k + 1)⟩
      · rw [stackOffers_cons_skip hcond]
        exact ih (k + 1)

theorem emptyOffers_ordered (l : List (Option Stack)) (k : Nat) :
    (emptyOffers st l k).Pairwise (·.slot < ·.slot) := by
  induction l generalizing k with
  | nil => exact .nil
  | cons c l ih =>
    have hrest : ∀ o ∈ emptyOffers st l (k + 1), k < o.slot := fun o ho => (mem_emptyOffers ho).1
    cases c with
    | none => exact List.pairwise_cons.mpr ⟨hrest, ih (k + 1)⟩
    | some e => simpa using ih (k + 1)

private theorem nodup_of_ordered {os : List Offer} (h : os.Pairwise (·.slot < ·.slot)) :
    (os.map (·.slot)).Nodup :=
  List.nodup_iff_pairwise_ne.mpr (h.map _ fun _ _ h => Nat.ne_of_lt h)

theorem slot_ne_of_offers {a b : Offer} (ha : a ∈ stackOffers st l k) (hb : b ∈ emptyOffers st l k) :
    a.slot ≠ b.slot := by
  intro hab
  obtain ⟨-, e, -, he, -⟩ := mem_stackOffers ha
  obtain ⟨-, -, hnone, -⟩ := mem_emptyOffers hb
  rw [hab, hnone] at he
  cases he

theorem nodup_offers (s : Slots) : ((s.offers st).map (·.slot)).Nodup := by
  rw [offers, List.map_append, List.nodup_append]
  refine ⟨nodup_of_ordered (stackOffers_ordered _ 0), nodup_of_ordered (emptyOffers_ordered _ 0), ?_⟩
  simp only [List.mem_map]
  rintro _ ⟨a, ha, rfl⟩ _ ⟨b, hb, rfl⟩
  exact slot_ne_of_offers ha hb

theorem sum_room_stackOffers (l : List (Option Stack)) (k : Nat) :
    ((stackOffers st l k).map (·.room)).sum = stackRoom st l := by
  induction l generalizing k with
  | nil => rfl
  | cons c l ih =>
    cases c with
    | none => simpa [stackRoom] using ih (k + 1)
    | some e =>
      have hrest := ih (k + 1)
      simp only [stackRoom, List.map_cons, List.sum_cons, Option.isSome_some, if_true] at hrest ⊢
      by_cases hcond : e.comparable st = true ∧ ¬e.isFull = true
      · have hmax := Stack.maxStack_eq_of_comparable hcond.1
        rw [stackOffers_cons_offer hcond.1 hcond.2, List.map_cons, List.sum_cons, hrest]
        simp [room, hcond.1, hmax]
      · -- a stack the add skips has no room: another item, or full up to the limit
        have hroom : room st (some e) = 0 := by
          by_cases hc : e.comparable st = true
          · have hfull : e.isFull = true := by simpa [hc] using hcond
            have hmax := Stack.maxStack_eq_of_comparable hc
            simp only [Stack.isFull, ge_iff_le, decide_eq_true_eq, UInt32.le_iff_toNat_le, hmax]
              at hfull
            simp only [room, hc, if_true]
            exact Nat.sub_eq_zero_of_le hfull
          · simp [room, hc]
        rw [stackOffers_cons_skip hcond, hrest, hroom, Nat.zero_add]

theorem sum_room_emptyOffers (l : List (Option Stack)) (k : Nat) :
    ((emptyOffers st l k).map (·.room)).sum = emptyRoom st l := by
  induction l generalizing k with
  | nil => rfl
  | cons c l ih =>
    cases c with
    | none => simpa [emptyRoom, room, Nat.add_comm] using ih (k + 1)
    | some e => simpa [emptyRoom] using ih (k + 1)

theorem capacity_eq_sum_room (s : Slots) : s.capacity st = ((s.offers st).map (·.room)).sum := by
  rw [capacity_eq, offers, List.map_append, List.sum_append, sum_room_stackOffers,
    sum_room_emptyOffers]

end Offers

section Pour

@[simp] theorem pour_zero (os : List Offer) : pour st 0 os = [] := by
  cases os <;> simp [pour]

theorem pour_cons {n : Nat} (hn : n ≠ 0) (o : Offer) (os : List Offer) :
    pour st n (o :: os) =
      ⟨o.slot, some (pourInto st (min n o.room) o.held)⟩ :: pour st (n - min n o.room) os := by
  simp [pour, hn]

theorem pour_append (n : Nat) (os₁ os₂ : List Offer) :
    pour st n (os₁ ++ os₂) = pour st n os₁ ++ pour st (n - min n (os₁.map (·.room)).sum) os₂ := by
  induction os₁ generalizing n with
  | nil => simp [pour]
  | cons o os ih =>
    by_cases hn : n = 0
    · simp [hn]
    · rw [List.cons_append, pour_cons hn, pour_cons hn, ih, List.cons_append]
      congr 3
      simp only [List.map_cons, List.sum_cons]
      omega

theorem mem_pour {n : Nat} {os : List Offer} {c : Change} (h : c ∈ pour st n os) :
    ∃ o ∈ os, ∃ m, m ≠ 0 ∧ c = ⟨o.slot, some (pourInto st (min m o.room) o.held)⟩ := by
  induction os generalizing n with
  | nil => cases h
  | cons o os ih =>
    by_cases hn : n = 0
    · simp [hn] at h
    · rw [pour_cons hn] at h
      rcases List.mem_cons.mp h with rfl | h
      · exact ⟨o, List.mem_cons_self, n, hn, rfl⟩
      · obtain ⟨o', ho', m, hm, rfl⟩ := ih h
        exact ⟨o', List.mem_cons_of_mem _ ho', m, hm, rfl⟩

theorem pour_slots_sublist (n : Nat) (os : List Offer) :
    ((pour st n os).map (·.slot)).Sublist (os.map (·.slot)) := by
  induction os generalizing n with
  | nil => simp [pour]
  | cons o os ih =>
    by_cases hn : n = 0
    · simp [hn]
    · rw [pour_cons hn, List.map_cons, List.map_cons]
      exact (ih _).cons_cons _

theorem lt_slot_of_mem_pour_stackOffers {n : Nat} {l : List (Option Stack)} {k : Nat} {c : Change}
    (hc : c ∈ pour st n (stackOffers st l (k + 1))) : k < c.slot := by
  obtain ⟨o, ho, m, -, rfl⟩ := mem_pour hc
  exact (mem_stackOffers ho).1

theorem lt_slot_of_mem_pour_emptyOffers {n : Nat} {l : List (Option Stack)} {k : Nat} {c : Change}
    (hc : c ∈ pour st n (emptyOffers st l (k + 1))) : k < c.slot := by
  obtain ⟨o, ho, m, -, rfl⟩ := mem_pour hc
  exact (mem_emptyOffers ho).1

end Pour

section Passes

theorem topUp_eq (st : Stack) (l : List (Option Stack)) (k rem : Nat) :
    (topUp st l k rem).1 = patch (pour st rem (stackOffers st l k)) l k ∧
      (topUp st l k rem).2.1 = pour st rem (stackOffers st l k) := by
  fun_induction topUp st l k rem with
  | case1 => simp [patch, pour]
  | case2 cs i rem e hcond moved e' rest ch r hrec ih =>
    rw [hrec] at ih
    obtain ⟨rfl, rfl⟩ := ih
    have hpour : pour st rem (stackOffers st (some e :: cs) i) =
        ⟨i, some e'⟩ :: pour st (rem - moved) (stackOffers st cs (i + 1)) := by
      rw [stackOffers_cons_offer hcond.2.1 hcond.2.2, pour_cons hcond.1]
      rfl
    rw [hpour, patch_cons, List.find?_cons, patch_cons_of_lt (Nat.lt_succ_self i)]
    simp
  | case3 cs i rem e hcond rest ch r hrec ih =>
    rw [hrec] at ih
    obtain ⟨rfl, rfl⟩ := ih
    have hpour : pour st rem (stackOffers st (some e :: cs) i) =
        pour st rem (stackOffers st cs (i + 1)) := by
      by_cases hoffer : e.comparable st = true ∧ ¬e.isFull = true
      · have hrem : rem = 0 := by simpa [hoffer] using hcond
        simp [hrem]
      · rw [stackOffers_cons_skip hoffer]
    rw [hpour, patch_cons_of_forall_lt fun _ => lt_slot_of_mem_pour_stackOffers]
    exact ⟨rfl, rfl⟩
  | case4 cs i rem rest ch r hrec ih =>
    rw [hrec] at ih
    obtain ⟨rfl, rfl⟩ := ih
    rw [stackOffers_cons_none, patch_cons_of_forall_lt fun _ => lt_slot_of_mem_pour_stackOffers]
    exact ⟨rfl, rfl⟩

theorem fillEmpty_eq (st : Stack) (l : List (Option Stack)) (k rem : Nat) :
    (fillEmpty st l k rem).1 = patch (pour st rem (emptyOffers st l k)) l k ∧
      (fillEmpty st l k rem).2.1 = pour st rem (emptyOffers st l k) := by
  fun_induction fillEmpty st l k rem with
  | case1 => simp [patch, pour]
  | case2 cs i rem hrem moved e rest ch r hrec ih =>
    rw [hrec] at ih
    obtain ⟨rfl, rfl⟩ := ih
    rw [emptyOffers_cons_none, pour_cons hrem, patch_cons, List.find?_cons,
      patch_cons_of_lt (Nat.lt_succ_self i)]
    simp [pourInto, e, moved]
  | case3 cs i rem hrem rest ch r hrec ih =>
    rw [hrec] at ih
    obtain ⟨rfl, rfl⟩ := ih
    obtain rfl : rem = 0 := Decidable.of_not_not hrem
    simp
  | case4 cs i rem e rest ch r hrec ih =>
    rw [hrec] at ih
    obtain ⟨rfl, rfl⟩ := ih
    rw [emptyOffers_cons_some, patch_cons_of_forall_lt fun _ => lt_slot_of_mem_pour_emptyOffers]
    exact ⟨rfl, rfl⟩

theorem emptyOffers_topUp (st : Stack) (l : List (Option Stack)) (k rem : Nat) :
    emptyOffers st (topUp st l k rem).1 k = emptyOffers st l k := by
  fun_induction topUp st l k rem with
  | case1 => rfl
  | case2 cs i rem e hcond moved e' rest ch r hrec ih
  | case3 cs i rem e hcond rest ch r hrec ih =>
    rw [hrec] at ih
    simpa using ih
  | case4 cs i rem rest ch r hrec ih =>
    rw [hrec] at ih
    simpa using ih

end Passes

/-- Adding a stack is refused when the room across all slots is smaller than its count, and is
otherwise the greedy pour of the whole count over the offers, ending in the slots the pour
reports. -/
theorem addItem_eq_pour (s : Slots) (st : Stack) :
    s.addItem st = if s.capacity st < st.count.toNat then .error .full
      else .ok ⟨s.withChanges (pour st st.count.toNat (s.offers st)),
        pour st st.count.toNat (s.offers st)⟩ := by
  unfold addItem
  by_cases hempty : st.isEmpty = true
  · have h0 : st.count = 0 := by simpa [Stack.isEmpty] using hempty
    simp [hempty, h0, withChanges]
  by_cases hcap : s.capacity st < st.count.toNat
  · simp [hempty, hcap]
  simp only [hempty, hcap, if_false]
  -- the first pass pours over the stack offers and leaves what they had no room for
  have ht : topUp st s.toList 0 st.count.toNat =
      (patch (pour st st.count.toNat (stackOffers st s.toList 0)) s.toList 0,
        pour st st.count.toNat (stackOffers st s.toList 0),
        st.count.toNat - min st.count.toNat (stackRoom st s.toList)) :=
    Prod.ext (topUp_eq st s.toList 0 _).1
      (Prod.ext (topUp_eq st s.toList 0 _).2 (topUp_rem st s.toList 0 _))
  have hkept := emptyOffers_topUp st s.toList 0 st.count.toNat
  rw [ht] at hkept
  have hf := fillEmpty_eq st (patch (pour st st.count.toNat (stackOffers st s.toList 0)) s.toList 0) 0
    (st.count.toNat - min st.count.toNat (stackRoom st s.toList))
  rw [hkept] at hf
  have hdis : ∀ c₁ ∈ pour st st.count.toNat (stackOffers st s.toList 0),
      ∀ c₂ ∈ pour st (st.count.toNat - min st.count.toNat (stackRoom st s.toList))
        (emptyOffers st s.toList 0), c₁.slot ≠ c₂.slot := by
    intro c₁ hc₁ c₂ hc₂
    obtain ⟨o₁, ho₁, -, -, rfl⟩ := mem_pour hc₁
    obtain ⟨o₂, ho₂, -, -, rfl⟩ := mem_pour hc₂
    exact slot_ne_of_offers ho₁ ho₂
  rw [ht]
  simp only [hf.1, hf.2, offers, pour_append, sum_room_stackOffers, withChanges, patch_patch hdis,
    Bool.false_eq_true, if_false]

theorem offer_changes {s : Slots} {o : Offer} (ho : o ∈ s.offers st) {m : Nat} (hm : m ≠ 0) :
    s[o.slot]? = some o.held ∧ some (pourInto st (min m o.room) o.held) ≠ o.held := by
  rcases List.mem_append.mp ho with ho | ho
  · obtain ⟨-, e, hheld, he, -, hfull, hroom⟩ := mem_stackOffers ho
    refine ⟨by simpa [hheld] using he, ?_⟩
    rw [hheld, hroom]
    obtain ⟨hsum, hpos, -⟩ := Stack.topUp_count hfull hm
    intro heq
    have hcount := congrArg (·.count.toNat) (Option.some.inj heq)
    simp only [pourInto, Stack.count_withCount, hsum] at hcount
    omega
  · obtain ⟨-, hheld, hnone, -⟩ := mem_emptyOffers ho
    exact ⟨by simpa [hheld] using hnone, by simp [hheld]⟩

theorem find?_slot_of_mem {ch : List Change} (hnd : (ch.map (·.slot)).Nodup) {c : Change}
    (hc : c ∈ ch) : ch.find? (·.slot == c.slot) = some c := by
  induction ch with
  | nil => cases hc
  | cons d ch ih =>
    rw [List.map_cons, List.nodup_cons] at hnd
    rcases List.mem_cons.mp hc with rfl | hc
    · simp
    · have hne : d.slot ≠ c.slot := fun h => hnd.1 (h ▸ List.mem_map_of_mem hc)
      simp [hne, ih hnd.2 hc]

theorem reportsExactly_pour (s : Slots) (n : Nat) :
    s.ReportsExactly (s.withChanges (pour st n (s.offers st))) (pour st n (s.offers st)) := by
  have hnd : ((pour st n (s.offers st)).map (·.slot)).Nodup :=
    (nodup_offers s).sublist (pour_slots_sublist n _)
  refine ⟨hnd, fun c hc => ?_, fun j hj => ?_⟩
  · obtain ⟨o, ho, m, hm, rfl⟩ := mem_pour hc
    obtain ⟨hheld, hchange⟩ := offer_changes ho hm
    refine ⟨?_, by rw [hheld]; exact fun h => hchange (Option.some.inj h).symm⟩
    rw [withChanges, List.getElem?_toArray, getElem?_patch, Nat.zero_add, find?_slot_of_mem hnd hc,
      Array.getElem?_toList, hheld]
    rfl
  · have hnone : (pour st n (s.offers st)).find? (·.slot == j) = none :=
      List.find?_eq_none.mpr fun c hc h => by
        simp only [beq_iff_eq] at h
        exact hj (h ▸ List.mem_map_of_mem (f := (·.slot)) hc)
    rw [withChanges, List.getElem?_toArray, getElem?_patch, Nat.zero_add, hnone, Array.getElem?_toList]
    cases s[j]? <;> rfl

@[simp] theorem withChanges_nil (s : Slots) : s.withChanges [] = s := by
  simp [withChanges]

end Slots

theorem Realm.applyEdit_unchanged (r : Realm) (i : InventoryId) : r.applyEdit i ⟨r.slotsOf i, []⟩ = r := by
  unfold Realm.applyEdit Realm.slotsOf
  cases hs : r.storages[i.idx]? with
  | none => rfl
  | some s =>
    obtain ⟨hlt, hget⟩ := Array.getElem?_eq_some_iff.mp hs
    have hset : r.storages.setIfInBounds i.idx s = r.storages := by
      rw [Array.setIfInBounds, dif_pos hlt, ← hget]
      exact Array.set_getElem_self hlt
    simp [hset]

/-- Adding to a storage is refused, leaving the realm as it was, exactly when the room across its
slots is smaller than the count; otherwise the storage takes the greedy pour and its changes are
delivered. -/
theorem Act.run_addItem_eq_pour (r : Realm) (i : InventoryId) (st : Stack) :
    (Act.addItem i st).run r =
      if (r.slotsOf i).capacity st < st.count.toNat then .ok (.error .full, r)
      else .ok (.ok (), r.applyEdit i ⟨(r.slotsOf i).withChanges
        (Slots.pour st st.count.toNat ((r.slotsOf i).offers st)),
        Slots.pour st st.count.toNat ((r.slotsOf i).offers st)⟩) := by
  rw [Act.run_addItem, Slots.addItem_eq_pour]
  by_cases hcap : (r.slotsOf i).capacity st < st.count.toNat <;> simp [hcap]

/-- Adding a stack to a storage, against the greedy reference. It is refused, leaving the realm as
it was and delivering nothing, exactly when the room across the slots is smaller than the count.
Otherwise the changes it delivers, in order, are the greedy pour of the whole count over the
comparable stacks that are not full and then the empty slots, each in slot order; they name
exactly the slots that change, each once and with its content after, and the storage ends in the
slots they describe, holding the count more units of the stack's item and as many of every other
item as before. A stack of no units changes nothing. -/
theorem add_item_greedy (r : Realm) (i : InventoryId) (st : Stack) :
    let s := r.slotsOf i
    let ch := Slots.pour st st.count.toNat (s.offers st)
    (Act.addItem i st).run r =
        (if s.capacity st < st.count.toNat then .ok (.error .full, r)
          else .ok (.ok (), r.applyEdit i ⟨s.withChanges ch, ch⟩)) ∧
      (st.count.toNat ≤ s.capacity st →
        s.ReportsExactly (s.withChanges ch) ch ∧
          ∀ w, (s.withChanges ch).weigh w = s.weigh w + w st.identity * st.count.toNat) ∧
      (st.count = 0 → (Act.addItem i st).run r = .ok (.ok (), r)) := by
  intro s ch
  refine ⟨Act.run_addItem_eq_pour r i st, fun hcap => ⟨Slots.reportsExactly_pour s _, fun w => ?_⟩,
    fun h0 => ?_⟩
  · have hadd := Slots.addItem_eq_pour s st
    rw [if_neg (Nat.not_lt.mpr hcap)] at hadd
    exact Slots.weigh_addItem w hadd
  · have hcount : st.count.toNat = 0 := by simp [h0]
    rw [Act.run_addItem_eq_pour, if_neg (by omega), hcount, Slots.pour_zero, Slots.withChanges_nil,
      Realm.applyEdit_unchanged]

/-- Ten coal into a storage holding sixty coal in its second slot and stone in its third: the
room is enough, and the add reports exactly the slots it changes. -/
theorem ten_coal_fit_beside_stone :
    let r : Realm := { storages := #[⟨#[none, some (Stack.new .coal 60), some (Stack.new .stone 5)], ⟨0⟩⟩] }
    let st := Stack.new .coal 10
    let s := r.slotsOf ⟨0⟩
    st.count.toNat ≤ s.capacity st ∧
      s.ReportsExactly (s.withChanges (Slots.pour st st.count.toNat (s.offers st)))
        (Slots.pour st st.count.toNat (s.offers st)) :=
  ⟨by decide +kernel, ((add_item_greedy _ ⟨0⟩ _).2.1 (by decide +kernel)).1⟩

/-- Four of the ten top up the coal to its limit of sixty-four; the other six go into the empty
first slot. -/
example : Slots.pour (Stack.new .coal 10) 10 (Slots.offers #[none, some (Stack.new .coal 60),
    some (Stack.new .stone 5)] (Stack.new .coal 10)) =
    [⟨1, some (Stack.new .coal 64)⟩, ⟨0, some (Stack.new .coal 6)⟩] := by
  decide +kernel

end ItemFlow
