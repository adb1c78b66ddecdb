import ItemFlow.Proofs.Inventory.Units
/-! The field codec read back. A decimal numeral reads back as its number and an item key as its
kind; a field map gives back the last value bound to a name; a stack that fits its slot reads
back from its fields with its wear cut to the signed 32-bit range, or, without wear, with the
fresh wear of its kind; and slots below 128 are read back from their list field into fresh
empty slots, while an entry for a slot from 128 up carries a negative index and is skipped.
Main statement: slots whose filled entries lie below slot 128 and whose stacks persist read back
exactly. -/
namespace ItemFlow

namespace Decimal

theorem digits_append (max : Nat) :
    ∀ (l l' : List Char) (acc : Nat),
      digits max acc (l ++ l') = (digits max acc l).bind fun a => digits max a l'
  | [], _, _ => rfl
  | c :: cs, l', acc => by
    simp only [List.cons_append, digits]
    split
    · split
      · exact digits_append max cs l' _
      · rfl
    · rfl

theorem digits_toDigits {max : Nat} (n : Nat) (hn : n ≤ max) :
    digits max 0 (Nat.toDigits 10 n) = .ok n := by
  induction n using Nat.strong_induction_on with
  | _ n ih =>
    rw [Nat.toDigits_eq_if (by decide)]
    split
    · next h10 =>
      simp [digits, Nat.isDigit_digitChar, h10, Nat.toNat_digitChar_sub_48_of_lt_ten h10, hn]
    · next h10 =>
      have hd : n % 10 < 10 := Nat.mod_lt n (by decide)
      rw [digits_append, ih (n / 10) (by omega) (by omega)]
      have hv : n / 10 * 10 + n % 10 = n := by omega
      simp [Except.bind, digits, Nat.isDigit_digitChar, hd, Nat.toNat_digitChar_sub_48_of_lt_ten hd, hv, hn]

theorem readBounded_repr {max : Nat} (n : Nat) (hn : n ≤ max) :
    readBounded max n.repr = .ok n := by
  have hplus : '+' ∉ Nat.toDigits 10 n := fun h => by
    simpa using Nat.isDigit_of_mem_toDigits (by decide) (by decide) h
  have hread := digits_toDigits n hn
  obtain ⟨c, cs, hl⟩ := List.exists_cons_of_ne_nil (@Nat.toDigits_ne_nil n 10)
  rw [hl] at hplus hread
  unfold readBounded
  rw [Nat.toList_repr, hl]
  split
  · next h => simp at h
  · next h => simp_all
  · next h => simp_all
  · exact hread

theorem readU16?_repr (n : UInt16) : readU16? n.toNat.repr = some n := by
  have hlt := n.toNat_lt
  unfold readU16?
  rw [readBounded_repr _ (by omega)]
  simp

end Decimal

theorem ItemKind.ofKey?_eq (s : String) :
    ItemKind.ofKey? s = ItemKind.ofParts? ((s.toList.splitOn ':').map String.ofList) := by
  unfold ItemKind.ofKey?
  rw [String.toList_split_char]

theorem ItemKind.splitOn_key_parts (w : String) (hw : ':' ∉ w.toList) (n : Nat) :
    ((w ++ ":" ++ n.repr).toList.splitOn ':').map String.ofList = [w, n.repr] := by
  have hn : ':' ∉ Nat.toDigits 10 n := fun h => by
    simpa using Nat.isDigit_of_mem_toDigits (by decide) (by decide) h
  have hcat : (w ++ ":" ++ n.repr).toList = [':'].intercalate [w.toList, Nat.toDigits 10 n] := by
    simp
  rw [hcat, List.splitOn_intercalate _ (by simp [hw, hn]) (by simp)]
  simp [Nat.repr_eq_ofList_toDigits]

theorem ItemKind.ofKey?_key (k : ItemKind) : ItemKind.ofKey? k.key = some k := by
  rw [ofKey?_eq]
  cases k with
  | tool t m => cases t <;> cases m <;> decide
  | block id =>
    have h := splitOn_key_parts "block" (by decide) id.toNat
    rw [show ("block" ++ ":" : String) = "block:" from rfl] at h
    rw [key, Nat.toString_eq_repr, h]
    simp [ofParts?, Decimal.readU16?_repr]
  | item id =>
    have h := splitOn_key_parts "item" (by decide) id.toNat
    rw [show ("item" ++ ":" : String) = "item:" from rfl] at h
    rw [key, Nat.toString_eq_repr, h]
    simp [ofParts?, Decimal.readU16?_repr]

namespace FieldMap

@[simp] theorem get?_nil (k : String) : FieldMap.get? [] k = none := rfl

theorem get?_cons (k' k : String) (v' : Field) (m : FieldMap) :
    FieldMap.get? ((k', v') :: m) k = if k' = k then some v' else m.get? k := by
  by_cases h : k' = k <;> simp [get?, h]

@[simp] theorem get?_insert_self (m : FieldMap) (k : String) (v : Field) :
    (m.insert k v).get? k = some v := by
  induction m with
  | nil => simp [insert, get?_cons]
  | cons e rest ih =>
    obtain ⟨k', v'⟩ := e
    unfold insert
    split_ifs with hlt heq
    · simp [get?_cons]
    · simp [get?_cons]
    · have hne : k' ≠ k := fun h => heq (by simp [h])
      rw [get?_cons, if_neg hne, ih]

theorem get?_insert_ne (m : FieldMap) {k j : String} (v : Field) (h : j ≠ k) :
    (m.insert k v).get? j = m.get? j := by
  induction m with
  | nil => simp [insert, get?_cons, Ne.symm h]
  | cons e rest ih =>
    obtain ⟨k', v'⟩ := e
    unfold insert
    split_ifs with hlt hk
    · simp [get?_cons, Ne.symm h]
    · rw [beq_iff_eq] at hk
      subst hk
      simp [get?_cons, Ne.symm h]
    · rw [get?_cons, get?_cons, ih]

end FieldMap

namespace Stack

/-- The wear a stack's fields read back as: worn wear cut to the signed 32-bit range, and for an
unworn stack the fresh wear of its kind. -/
def rereadWear (s : Stack) : Option UInt32 :=
  match s.durability with
  | some d => some (min d.toNat (2 ^ 31 - 1)).toUInt32
  | none => s.kind.freshDurability

def reread (s : Stack) : Stack := { s with durability := s.rereadWear }

/-- A stack its fields give back: it fits a slot, its wear fits a signed 32-bit field, and a
tool carries its wear. -/
structure Persists (s : Stack) : Prop where
  fits : s.Fits
  durability_le : ∀ d, s.durability = some d → d.toNat ≤ 2 ^ 31 - 1
  tool_worn : ∀ t m, s.kind = .tool t m → s.durability.isSome

-- the wear bound is read through `Option.all`: as a bounded `∀` over `UInt32` it would be
-- decided by running through every word
instance (s : Stack) : Decidable s.Persists :=
  decidable_of_iff (s.Fits ∧ s.durability.all (fun d => d.toNat ≤ 2 ^ 31 - 1) ∧
      (s.kind.freshDurability.isSome → s.durability.isSome)) <| by
    simp only [Option.all_eq_true, decide_eq_true_eq]
    constructor
    · rintro ⟨hf, hd, ht⟩
      exact ⟨hf, hd, fun t m hk => ht (by rw [hk]; rfl)⟩
    · rintro ⟨hf, hd, ht⟩
      refine ⟨hf, hd, fun hw => ?_⟩
      cases hk : s.kind with
      | tool t m => exact ht t m hk
      | block _ | item _ => rw [hk] at hw; cases hw

instance (s : Slots) : Decidable (∀ st, some st ∈ s → st.Persists) :=
  decidable_of_iff (∀ c ∈ s.toList, ∀ st ∈ c, st.Persists) <| by
    simp only [Array.mem_toList_iff, Option.mem_def]
    exact ⟨fun h st hst => h _ hst st rfl, fun h c hc st hst => h st (hst ▸ hc)⟩

@[simp] theorem kind_reread (s : Stack) : s.reread.kind = s.kind := rfl

@[simp] theorem count_reread (s : Stack) : s.reread.count = s.count := rfl

@[simp] theorem metadata_reread (s : Stack) : s.reread.metadata = s.metadata := rfl

theorem Fits.reread {s : Stack} (hs : s.Fits) : s.reread.Fits := hs

/-- Only a tool without wear reads back with wear it did not have. -/
theorem rereadWear_of_none {s : Stack} (h : s.durability = none)
    (hworn : ∀ t m, s.kind = .tool t m → s.durability.isSome) : s.rereadWear = none := by
  unfold rereadWear
  rw [h]
  cases hk : s.kind with
  | tool t m => simpa [h] using hworn t m hk
  | block | item => rfl

theorem Persists.reread_eq {s : Stack} (hs : s.Persists) : s.reread = s := by
  obtain ⟨kind, count, dur, tag⟩ := s
  cases dur with
  | none => simp [reread, rereadWear_of_none rfl hs.tool_worn]
  | some d =>
    have hd := hs.durability_le d rfl
    simp only [reread, rereadWear, Stack.mk.injEq, Option.some.injEq, true_and, and_true]
    rw [Nat.min_eq_left hd, Nat.toUInt32_eq, UInt32.ofNat_toNat]

theorem get?_toFields_name (s : Stack) : s.toFields.get? "Name" = some (.string s.kind.key) := by
  rcases s with ⟨kind, count, _ | d, _ | b⟩ <;>
    simp [toFields, FieldMap.ofList, FieldMap.get?_insert_ne]

theorem get?_toFields_count (s : Stack) :
    s.toFields.get? "Count" = some (.byte (Int8.ofInt (min s.count.toNat 127))) := by
  rcases s with ⟨kind, count, _ | d, _ | b⟩ <;>
    simp [toFields, FieldMap.ofList, FieldMap.get?_insert_ne]

theorem get?_toFields_damage (s : Stack) :
    s.toFields.get? "Damage" =
      s.durability.map fun d => .int (Int32.ofInt (min d.toNat (2 ^ (31 : Nat) - 1))) := by
  rcases s with ⟨kind, count, _ | d, _ | b⟩ <;>
    simp [toFields, FieldMap.ofList, FieldMap.get?_insert_ne]

theorem get?_toFields_tag (s : Stack) : s.toFields.get? "tag" = s.metadata.map .bytes := by
  rcases s with ⟨kind, count, _ | d, _ | b⟩ <;>
    simp [toFields, FieldMap.ofList, FieldMap.get?_insert_ne]

theorem getI32_count {m : FieldMap} {n : Nat} (hn : n ≤ 127)
    (h : m.get? "Count" = some (.byte (Int8.ofInt (min n 127)))) :
    (m.getI32 "Count").toInt = n := by
  simp only [FieldMap.getI32, h]
  rw [Int32.toInt_ofInt_of_le, Int8.toInt_ofInt_of_le] <;>
    (try rw [Int8.toInt_ofInt_of_le]) <;> omega

theorem ofFields?_of_get? {m : FieldMap} {s : Stack} (hs : s.Fits)
    (hm : ∀ k ∈ ["Name", "Count", "Damage", "tag"], m.get? k = s.toFields.get? k) :
    ofFields? m = some s.reread := by
  obtain ⟨h1, h2⟩ := fits_iff.mp hs
  have hmax := s.kind.one_le_maxStack
  simp only [maxStack] at h2
  have hname := (hm "Name" (by simp)).trans (get?_toFields_name s)
  have hcount := getI32_count (by omega) ((hm "Count" (by simp)).trans (get?_toFields_count s))
  have hdamage := (hm "Damage" (by simp)).trans (get?_toFields_damage s)
  have htag := (hm "tag" (by simp)).trans (get?_toFields_tag s)
  have hc : (min ((s.count.toNat : Int).toNat) s.kind.maxStack.toNat).toUInt32 = s.count := by
    rw [Int.toNat_natCast, Nat.min_eq_left h2, Nat.toUInt32_eq, UInt32.ofNat_toNat]
  have hpos : ¬((s.count.toNat : Int) ≤ 0) := by omega
  -- a 32-bit field holds the wear cut to its range, which is never negative
  have hworn : ∀ d : UInt32, (Int32.ofInt (min (d.toNat : Int) (2 ^ (31 : Nat) - 1))).toInt =
      min d.toNat (2 ^ 31 - 1) := fun d => by
    rw [Int32.toInt_ofInt_of_le] <;> omega
  unfold ofFields?
  simp only [FieldMap.getString, hname, ItemKind.ofKey?_key, Option.bind_eq_bind, Option.bind_some,
    hcount, hdamage, htag, if_neg hpos, hc]
  rcases s with ⟨kind, count, _ | d, _ | b⟩
  · simp [new, reread, rereadWear]
  · simp [new, reread, rereadWear]
  · simp only [Option.map_some, Option.map_none, hworn, new, reread, rereadWear]
    congr 1
  · simp only [Option.map_some, hworn, new, reread, rereadWear]
    congr 1

theorem toFields_reread {s : Stack} (hworn : ∀ t m, s.kind = .tool t m → s.durability.isSome) :
    s.reread.toFields = s.toFields := by
  obtain ⟨kind, count, dur, tag⟩ := s
  cases dur with
  | none => simp [reread, rereadWear_of_none rfl hworn]
  | some d =>
    have hmin : (min d.toNat (2 ^ 31 - 1)).toUInt32.toNat = min d.toNat (2 ^ 31 - 1) := by
      rw [Nat.toUInt32_eq, UInt32.toNat_ofNat', Nat.mod_eq_of_lt (by omega)]
    have hcut : min ((min d.toNat (2 ^ 31 - 1) : Nat) : Int) (2 ^ (31 : Nat) - 1) =
        min (d.toNat : Int) (2 ^ (31 : Nat) - 1) := by omega
    simp only [reread, rereadWear, toFields, hmin, hcut]

end Stack

namespace Slots

theorem toField_eq (s : Slots) :
    s.toField = .list (s.filled.map fun (i, st) =>
      .compound (st.toFields.insert "Slot" (.byte (Int8.ofInt i)))) := rfl

theorem loadEntry_size (e : Edit) (f : Field) : (loadEntry e f).slots.size = e.slots.size := by
  unfold loadEntry
  split
  · dsimp only
    split
    · rfl
    · split
      · rfl
      · split
        · next e' he =>
          simp only [setItem] at he
          split at he <;> cases he
          simp
        · rfl
  · rfl

theorem loadEntry_slot (e : Edit) {i : Nat} {st : Stack} (hst : st.Fits) (hi : i < e.slots.size)
    (h128 : i < 128) :
    (loadEntry e (.compound (st.toFields.insert "Slot" (.byte (Int8.ofInt i))))).slots =
      e.slots.setIfInBounds i (some st.reread) := by
  have hslot : (FieldMap.getI32 (st.toFields.insert "Slot" (.byte (Int8.ofInt i))) "Slot").toInt = i := by
    simp only [FieldMap.getI32, FieldMap.get?_insert_self]
    rw [Int32.toInt_ofInt_of_le, Int8.toInt_ofInt_of_le] <;>
      (try rw [Int8.toInt_ofInt_of_le]) <;> omega
  have hread : Stack.ofFields? (st.toFields.insert "Slot" (.byte (Int8.ofInt i))) = some st.reread :=
    Stack.ofFields?_of_get? hst fun k hk => FieldMap.get?_insert_ne _ _ (by
      simp only [List.mem_cons, List.not_mem_nil, or_false] at hk
      rcases hk with rfl | rfl | rfl | rfl <;> decide)
  unfold loadEntry
  simp only [hslot, hread, Int.natCast_nonneg, not_lt.mpr, if_false, Int.toNat_natCast]
  rw [show e.slots.setItem i (some st.reread) = .ok ⟨e.slots.set! i (some st.reread), [⟨i, some st.reread⟩]⟩ by
    simp [setItem, hi, Stack.stored_of_fits hst.reread]]
  rfl

theorem loadFields_slots :
    ∀ (l : List (Nat × Stack)) (e : Edit), (∀ p ∈ l, p.2.Fits ∧ p.1 < e.slots.size ∧ p.1 < 128) →
      (l.foldl (fun e (p : Nat × Stack) =>
        loadEntry e (.compound (p.2.toFields.insert "Slot" (.byte (Int8.ofInt p.1))))) e).slots =
        l.foldl (fun a p => a.setIfInBounds p.1 (some p.2.reread)) e.slots
  | [], _, _ => rfl
  | (i, st) :: l, e, hl => by
    obtain ⟨hst, hi, h128⟩ := hl (i, st) List.mem_cons_self
    have hrest := loadFields_slots l (loadEntry e (.compound (st.toFields.insert "Slot"
      (.byte (Int8.ofInt i))))) fun p hp => by
        obtain ⟨hp1, hp2, hp3⟩ := hl p (List.mem_cons_of_mem _ hp)
        rw [loadEntry_slot e hst hi h128, Array.size_setIfInBounds]
        exact ⟨hp1, hp2, hp3⟩
    rw [List.foldl_cons, List.foldl_cons, hrest, loadEntry_slot e hst hi h128]

/-- Setting the filled slots in order, each rewritten by `f`, over empty slots of the same
count gives the slots rewritten by `f`; shown on lists, from any prefix of slots already in
place. -/
theorem foldl_set_filled (f : Stack → Stack) (extra : Nat) :
    ∀ (cs pre : List (Option Stack)),
      (((List.range' pre.length cs.length).zip cs).filterMap fun (i, c) => c.map (i, ·)).foldl
        (fun a p => a.set p.1 (some (f p.2))) (pre ++ List.replicate (cs.length + extra) none) =
        pre ++ cs.map (Option.map f) ++ List.replicate extra none
  | [], pre => by simp
  | c :: cs, pre => by
    have hstep := foldl_set_filled f extra cs (pre ++ [c.map f])
    simp only [List.length_append, List.length_singleton] at hstep
    cases c with
    | none =>
      simp only [List.length_cons, List.range'_succ, List.zip_cons_cons, List.filterMap_cons,
        Option.map_none]
      rw [show cs.length + 1 + extra = (cs.length + extra) + 1 by omega, List.replicate_succ]
      simpa using hstep
    | some st =>
      simp only [List.length_cons, List.range'_succ, List.zip_cons_cons, List.filterMap_cons,
        Option.map_some, List.foldl_cons]
      rw [show cs.length + 1 + extra = (cs.length + extra) + 1 by omega, List.replicate_succ]
      simpa [List.set_append_right] using hstep

theorem toList_foldl_setIfInBounds (f : Stack → Stack) (l : List (Nat × Stack)) (a : Slots) :
    (l.foldl (fun a p => a.setIfInBounds p.1 (some (f p.2))) a).toList =
      l.foldl (fun a p => a.set p.1 (some (f p.2))) a.toList := by
  induction l generalizing a with
  | nil => rfl
  | cons p l ih => rw [List.foldl_cons, List.foldl_cons, ih, Array.toList_setIfInBounds]

theorem lt_size_of_mem_filled {s : Slots} {p : Nat × Stack} (hp : p ∈ s.filled) : p.1 < s.size :=
  (Array.getElem?_eq_some_iff.mp (getElem?_of_mem_filled hp)).1

theorem loadFields_toField {s : Slots} (hs : s.Valid) (hlow : ∀ p ∈ s.filled, p.1 < 128)
    {l : List Field} (hl : s.toField = .list l) :
    ((Slots.empty s.size).loadFields l).slots = s.map (Option.map Stack.reread) := by
  rw [toField_eq, Field.list.injEq] at hl
  subst hl
  have hfilled : ∀ p ∈ s.filled, p.2.Fits ∧ p.1 < (Slots.empty s.size).size ∧ p.1 < 128 := by
    rintro ⟨k, st⟩ hp
    have hk := getElem?_of_mem_filled hp
    exact ⟨hs st (Array.mem_of_getElem? hk), by simpa [Slots.empty] using lt_size_of_mem_filled hp,
      hlow _ hp⟩
  unfold loadFields
  rw [List.foldl_map, loadFields_slots _ _ hfilled]
  apply Array.ext'
  rw [toList_foldl_setIfInBounds Stack.reread]
  have hset := foldl_set_filled Stack.reread 0 s.toList []
  simpa [Slots.empty, filled, List.range_eq_range'] using hset

/-- An entry for a slot from 128 to 255 carries a negative slot index and is skipped. -/
theorem loadEntry_high (e : Edit) (st : Stack) {i : Nat} (h128 : 128 ≤ i) (h256 : i < 256) :
    loadEntry e (.compound (st.toFields.insert "Slot" (.byte (Int8.ofInt i)))) = e := by
  have hneg : (FieldMap.getI32 (st.toFields.insert "Slot" (.byte (Int8.ofInt i))) "Slot").toInt < 0 := by
    simp only [FieldMap.getI32, FieldMap.get?_insert_self, Int32.toInt_ofInt, Int8.toInt_ofInt,
      Int.bmod_def]
    simp only [Int8.size, Int32.size]
    omega
  unfold loadEntry
  simp only [hneg, if_true]

/-- Slots whose stacks persist and lie below slot 128 read back exactly from their list field
into fresh empty slots of the same count, and the slots read back encode to the same field. -/
theorem reload_reproduces_slots (s : Slots) (hlow : ∀ p ∈ s.filled, p.1 < 128)
    (hs : ∀ st, some st ∈ s → st.Persists) :
    ∃ l, s.toField = .list l ∧ ((Slots.empty s.size).loadFields l).slots = s ∧
      ((Slots.empty s.size).loadFields l).slots.toField = s.toField := by
  obtain ⟨l, hl⟩ : ∃ l, s.toField = .list l := ⟨_, toField_eq s⟩
  have hread := loadFields_toField (fun st h => (hs st h).fits) hlow hl
  have hsame : s.map (Option.map Stack.reread) = s := by
    conv_rhs => rw [← Array.map_id s]
    apply Array.map_congr_left
    intro c hc
    cases c with
    | none => rfl
    | some st => simp [(hs st hc).reread_eq]
  exact ⟨l, hl, hread.trans hsame, by rw [hread, hsame]⟩

/-- A worn iron pickaxe and tagged coal in five slots read back exactly. -/
theorem reload_keeps_worn_pickaxe_and_tagged_coal :
    let s : Slots := ((Slots.empty 5).set! 1 (some ⟨.tool .pickaxe .iron, 1, some 17, none⟩)).set! 4
      (some (Stack.withMetadata .coal 9 [7, 7]))
    (∀ p ∈ s.filled, p.1 < 128) ∧ (∀ st, some st ∈ s → st.Persists) ∧
      ∃ l, s.toField = .list l ∧ ((Slots.empty s.size).loadFields l).slots = s ∧
        ((Slots.empty s.size).loadFields l).slots.toField = s.toField := by
  intro s
  have hlow : ∀ p ∈ s.filled, p.1 < 128 := by decide
  have hlit : s = #[none, some ⟨.tool .pickaxe .iron, 1, some 17, none⟩, none, none,
      some ⟨.coal, 9, none, some [7, 7]⟩] := rfl
  have hs : ∀ st, some st ∈ s → st.Persists := by
    intro st hst
    rw [hlit] at hst
    simp only [List.mem_toArray, List.mem_cons, reduceCtorEq, Option.some.injEq, List.not_mem_nil,
      false_or, or_false] at hst
    rcases hst with rfl | rfl
    · exact ⟨by show _ ∧ _; decide, by simp, by simp⟩
    · exact ⟨by show _ ∧ _; decide, by simp, by simp [ItemKind.coal]⟩
  exact ⟨hlow, hs, reload_reproduces_slots s hlow hs⟩

set_option maxRecDepth 4000 in
/-- Wear outside the signed 32-bit range, tools without wear and slots from 128 up do not read
back: of 129 slots holding a wooden pickaxe without wear at 0, a stone pickaxe worn 2^31 at 1
and a stone at 128, the first reads back fresh, the second with its wear cut, and slot 128
empty. -/
theorem reload_changes_wear_and_drops_high_slots :
    let s : Slots := (((Slots.empty 129).set! 0 (some ⟨.tool .pickaxe .wood, 1, none, none⟩)).set! 1
      (some ⟨.tool .pickaxe .stone, 1, some (2 ^ 31), none⟩)).set! 128 (some (Stack.new .stone 1))
    ∃ l, s.toField = .list l ∧ ((Slots.empty 129).loadFields l).slots ≠ s ∧
      ((Slots.empty 129).loadFields l).slots[0]? = some (some ⟨.tool .pickaxe .wood, 1, some 59, none⟩) ∧
      ((Slots.empty 129).loadFields l).slots[1]? =
        some (some ⟨.tool .pickaxe .stone, 1, some (2 ^ 31 - 1), none⟩) ∧
      ((Slots.empty 129).loadFields l).slots[128]? = some none := by
  intro s
  have hfilled : s.filled = [(0, ⟨.tool .pickaxe .wood, 1, none, none⟩),
      (1, ⟨.tool .pickaxe .stone, 1, some (2 ^ 31), none⟩), (128, Stack.new .stone 1)] := by
    rfl
  refine ⟨_, toField_eq s, ?_⟩
  have hwood : (⟨.tool .pickaxe .wood, 1, none, none⟩ : Stack).Fits := by
    show _ ∧ _
    decide
  have hstone : (⟨.tool .pickaxe .stone, 1, some (2 ^ 31), none⟩ : Stack).Fits := by
    show _ ∧ _
    decide
  -- the entry of slot 128 is skipped, the other two are set as they read back
  have hload : ((Slots.empty 129).loadFields (s.filled.map fun (i, st) =>
      .compound (st.toFields.insert "Slot" (.byte (Int8.ofInt i))))).slots =
      ((Slots.empty 129).setIfInBounds 0 (some ⟨.tool .pickaxe .wood, 1, some 59, none⟩)).setIfInBounds 1
        (some ⟨.tool .pickaxe .stone, 1, some (2 ^ 31 - 1), none⟩) := by
    rw [hfilled]
    simp only [loadFields, List.map_cons, List.map_nil, List.foldl_cons, List.foldl_nil]
    rw [loadEntry_high _ _ (by decide) (by decide),
      loadEntry_slot _ hstone (by rw [loadEntry_size]; decide) (by decide),
      loadEntry_slot _ hwood (by decide) (by decide)]
    rfl
  rw [hload]
  refine ⟨fun h => ?_, by simp [Slots.empty], by simp [Slots.empty], by simp [Slots.empty]⟩
  have h0 := congrArg (·[0]?) h
  simp [s, Slots.empty] at h0

end Slots

end ItemFlow
