import ItemFlow.Proofs.Save.Codec
import ItemFlow.Proofs.Save.Alike
import ItemFlow.Save.Record
/-! Restoring captured records. Restoring a record places a fresh block of the recorded kind; a
container gets a fresh registry and fresh storage appended after all storage there is, filled
from the record's slot field, and keeps the recorded facing and power, name, transfer cooldown
cut to 32 bits, or furnace counters, of which those above the signed 32-bit range read back as
zero. Main statement: restoring the capture of a realm places, position by position, the block
each stored block reloads to, on fresh storage, and leaves the storage there was untouched. -/
namespace ItemFlow
open Act

namespace Act
variable {r : Realm}

@[simp] theorem run_newRegistry :
    newRegistry.run r = .ok (⟨r.registries.size⟩, { r with registries := r.registries.push {} }) :=
  rfl

@[simp] theorem run_newStorage (size : Nat) (g : RegistryId) :
    (newStorage size g).run r =
      .ok (⟨r.storages.size⟩, { r with storages := r.storages.push ⟨Slots.empty size, g⟩ }) := rfl

end Act

namespace Realm

/-- The storage of `t` is that of `s` with more appended. -/
def Grows (s t : Realm) : Prop := s.storages.toList <+: t.storages.toList

variable {s t u : Realm}

theorem Grows.refl (s : Realm) : s.Grows s := List.prefix_refl _

theorem Grows.trans (h : s.Grows t) (h' : t.Grows u) : s.Grows u := List.IsPrefix.trans h h'

theorem Grows.size_le (h : s.Grows t) : s.storages.size ≤ t.storages.size := by
  simpa using h.length_le

theorem Grows.slotsOf (h : s.Grows t) {i : InventoryId} (hi : i.idx < s.storages.size) :
    t.slotsOf i = s.slotsOf i := by
  obtain ⟨rest, hrest⟩ := h
  have hget : t.storages[i.idx]? = s.storages[i.idx]? := by
    rw [← Array.getElem?_toList, ← Array.getElem?_toList, ← hrest,
      List.getElem?_append_left (by simpa using hi)]
  simp only [Realm.slotsOf, hget]

theorem grows_push_push {a b : Storage} (h : t.storages = (s.storages.push a).push b) :
    s.Grows t :=
  ⟨[a, b], by simp [h]⟩

theorem applyEdit_push (s : Realm) (st : Storage) (e : Edit) :
    ({ s with storages := s.storages.push st }.applyEdit ⟨s.storages.size⟩ e).storages =
        s.storages.push { st with slots := e.slots } ∧
      ({ s with storages := s.storages.push st }.applyEdit ⟨s.storages.size⟩ e).blocks = s.blocks := by
  refine ⟨?_, by simp⟩
  rw [storages_applyEdit]
  apply Array.ext'
  simp [Array.set!_eq_setIfInBounds, Array.toList_setIfInBounds]

end Realm

namespace Block

theorem run_reload (size : Nat) (g : RegistryId) (m : FieldMap) (s : Realm) :
    ∃ s', (reload size g m).run s = .ok (⟨s.storages.size⟩, s') ∧
      s'.storages = s.storages.push ⟨((Slots.empty size).loadFields (m.getList "Items")).slots, g⟩ ∧
      s'.blocks = s.blocks := by
  obtain ⟨hst, hbl⟩ := Realm.applyEdit_push s ⟨Slots.empty size, g⟩
    ((Slots.empty size).loadFields (m.getList "Items"))
  exact ⟨_, rfl, hst, hbl⟩

/-- Fields tagged as a hopper rebuild a hopper on fresh storage: its name, transfer cooldown and
slots are read, its collect cooldown and last tick start at zero. -/
theorem run_decode_hopper (h : Hopper) {m : FieldMap} (hid : m.getString "id" = "Hopper")
    (s : Realm) :
    ∃ s', ((Block.hopper h).decode m).run s =
        .ok (.hopper ⟨h.facing, h.powered, m.getString "CustomName", Tick.zero,
          Int64.ofInt (m.getI32 "TransferCooldown").toInt, 0, ⟨s.storages.size⟩, h.viewers⟩, s') ∧
      s'.storages = s.storages.push
        ⟨((Slots.empty Hopper.slotCount).loadFields (m.getList "Items")).slots, h.viewers⟩ ∧
      s'.blocks = s.blocks := by
  obtain ⟨s', hrun, hst, hbl⟩ := run_reload Hopper.slotCount h.viewers m s
  refine ⟨s', ?_, hst, hbl⟩
  simp only [decode, hid]
  rw [run_bind_ok hrun]
  rfl

theorem run_decode_chest (c : Chest) {m : FieldMap} (hid : m.getString "id" = "Chest") (s : Realm) :
    ∃ s', ((Block.chest c).decode m).run s =
        .ok (.chest ⟨m.getString "CustomName", ⟨s.storages.size⟩, c.viewers⟩, s') ∧
      s'.storages = s.storages.push
        ⟨((Slots.empty Chest.slotCount).loadFields (m.getList "Items")).slots, c.viewers⟩ ∧
      s'.blocks = s.blocks := by
  obtain ⟨s', hrun, hst, hbl⟩ := run_reload Chest.slotCount c.viewers m s
  refine ⟨s', ?_, hst, hbl⟩
  simp only [decode, hid]
  rw [run_bind_ok hrun]
  rfl

/-- Fields tagged as a furnace rebuild a furnace on fresh storage; a negative counter reads as
zero. -/
theorem run_decode_furnace (f : Furnace) {m : FieldMap} (hid : m.getString "id" = "Furnace")
    (s : Realm) :
    ∃ s', ((Block.furnace f).decode m).run s =
        .ok (.furnace ⟨(max 0 (m.getI32 "BurnTime").toInt).toNat.toUInt32,
          (max 0 (m.getI32 "CookTime").toInt).toNat.toUInt32, ⟨s.storages.size⟩, f.viewers⟩, s') ∧
      s'.storages = s.storages.push
        ⟨((Slots.empty Furnace.slotCount).loadFields (m.getList "Items")).slots, f.viewers⟩ ∧
      s'.blocks = s.blocks := by
  obtain ⟨s', hrun, hst, hbl⟩ := run_reload Furnace.slotCount f.viewers m s
  refine ⟨s', ?_, hst, hbl⟩
  simp only [decode, hid]
  rw [run_bind_ok hrun]
  rfl

end Block

namespace Record

variable {p : Pos} {m : FieldMap}

/-- A hopper record restores to a hopper on the second of two fresh storages, both on one fresh
registry. -/
theorem run_restore_hopper (facing : Face) (powered : Bool) (hid : m.getString "id" = "Hopper")
    (s : Realm) :
    ∃ s', (restore ⟨p, .hopper facing powered, m⟩).run s =
        .ok (.hopper ⟨facing, powered, m.getString "CustomName", Tick.zero,
          Int64.ofInt (m.getI32 "TransferCooldown").toInt, 0, ⟨s.storages.size + 1⟩,
          ⟨s.registries.size⟩⟩, s') ∧
      s'.storages = (s.storages.push ⟨Slots.empty Hopper.slotCount, ⟨s.registries.size⟩⟩).push
        ⟨((Slots.empty Hopper.slotCount).loadFields (m.getList "Items")).slots, ⟨s.registries.size⟩⟩ ∧
      s'.blocks = s.blocks := by
  let s₁ : Realm := { s with registries := s.registries.push {},
                             storages := s.storages.push ⟨Slots.empty Hopper.slotCount, ⟨s.registries.size⟩⟩ }
  have hcreate : (Hopper.create facing powered "").run s =
      .ok (⟨facing, powered, "", Tick.zero, 0, 0, ⟨s.storages.size⟩, ⟨s.registries.size⟩⟩, s₁) := rfl
  obtain ⟨s', hrun, hst, hbl⟩ := Block.run_decode_hopper
    ⟨facing, powered, "", Tick.zero, 0, 0, ⟨s.storages.size⟩, ⟨s.registries.size⟩⟩ hid s₁
  refine ⟨s', ?_, by simp [hst, s₁], by simp [hbl, s₁]⟩
  simp only [restore]
  rw [run_bind_ok hcreate, hrun]
  simp [s₁]

theorem run_restore_chest (hid : m.getString "id" = "Chest") (s : Realm) :
    ∃ s', (restore ⟨p, .chest, m⟩).run s =
        .ok (.chest ⟨m.getString "CustomName", ⟨s.storages.size + 1⟩, ⟨s.registries.size⟩⟩, s') ∧
      s'.storages = (s.storages.push ⟨Slots.empty Chest.slotCount, ⟨s.registries.size⟩⟩).push
        ⟨((Slots.empty Chest.slotCount).loadFields (m.getList "Items")).slots, ⟨s.registries.size⟩⟩ ∧
      s'.blocks = s.blocks := by
  let s₁ : Realm := { s with registries := s.registries.push {},
                             storages := s.storages.push ⟨Slots.empty Chest.slotCount, ⟨s.registries.size⟩⟩ }
  obtain ⟨s', hrun, hst, hbl⟩ := Block.run_decode_chest ⟨"", ⟨s.storages.size⟩, ⟨s.registries.size⟩⟩ hid s₁
  refine ⟨s', ?_, by simp [hst, s₁], by simp [hbl, s₁]⟩
  simp only [restore]
  rw [run_bind_ok run_newRegistry, run_bind_ok (run_newStorage _ _)]
  change StateT.run ((Block.chest ⟨"", ⟨s.storages.size⟩, ⟨s.registries.size⟩⟩).decode m) s₁ = _
  rw [hrun]
  simp [s₁]

theorem run_restore_furnace (hid : m.getString "id" = "Furnace") (s : Realm) :
    ∃ s', (restore ⟨p, .furnace, m⟩).run s =
        .ok (.furnace ⟨(max 0 (m.getI32 "BurnTime").toInt).toNat.toUInt32,
          (max 0 (m.getI32 "CookTime").toInt).toNat.toUInt32, ⟨s.storages.size + 1⟩,
          ⟨s.registries.size⟩⟩, s') ∧
      s'.storages = (s.storages.push ⟨Slots.empty Furnace.slotCount, ⟨s.registries.size⟩⟩).push
        ⟨((Slots.empty Furnace.slotCount).loadFields (m.getList "Items")).slots, ⟨s.registries.size⟩⟩ ∧
      s'.blocks = s.blocks := by
  let s₁ : Realm := { s with registries := s.registries.push {},
                             storages := s.storages.push ⟨Slots.empty Furnace.slotCount, ⟨s.registries.size⟩⟩ }
  obtain ⟨s', hrun, hst, hbl⟩ :=
    Block.run_decode_furnace ⟨0, 0, ⟨s.storages.size⟩, ⟨s.registries.size⟩⟩ hid s₁
  refine ⟨s', ?_, by simp [hst, s₁], by simp [hbl, s₁]⟩
  simp only [restore]
  rw [run_bind_ok run_newRegistry, run_bind_ok (run_newStorage _ _)]
  change StateT.run ((Block.furnace ⟨0, 0, ⟨s.storages.size⟩, ⟨s.registries.size⟩⟩).decode m) s₁ = _
  rw [hrun]
  simp [s₁]

end Record

namespace Block

/-- The number of slots the program gives a block of this kind. -/
def slotCount : Block → Nat
  | .hopper _ => Hopper.slotCount
  | .chest _ => Chest.slotCount
  | .furnace _ => Furnace.slotCount
  | _ => 0

theorem getList_of_get? {m : FieldMap} {k : String} {l : List Field} (h : m.get? k = some (.list l)) :
    m.getList k = l := by
  simp [FieldMap.getList, h]

/-- The fields of a hopper: its slots, its transfer cooldown cut to 32 bits, its kind and its
name, the last only when it is not empty. -/
theorem encode_hopper (r : Realm) (h : Hopper) :
    ∃ m, (Block.hopper h).encode r = some m ∧ m.getString "id" = "Hopper" ∧
      m.get? "Items" = some (r.slotsOf h.inventory).toField ∧ m.getString "CustomName" = h.name ∧
      m.getI32 "TransferCooldown" =
        Int32.ofInt (max (-2 ^ (31 : Nat)) (min h.transferCooldown.toInt (2 ^ (31 : Nat) - 1))) := by
  refine ⟨_, rfl, ?_⟩
  by_cases hn : h.name.isEmpty
  · have hname : h.name = "" := String.isEmpty_iff.mp hn
    simp [hname, FieldMap.ofList, FieldMap.getString, FieldMap.getI32, FieldMap.get?_insert_ne,
      FieldMap.get?_insert_self]
  · simp [hn, FieldMap.ofList, FieldMap.getString, FieldMap.getI32, FieldMap.get?_insert_ne,
      FieldMap.get?_insert_self]

theorem encode_chest (r : Realm) (c : Chest) :
    ∃ m, (Block.chest c).encode r = some m ∧ m.getString "id" = "Chest" ∧
      m.get? "Items" = some (r.slotsOf c.inventory).toField ∧ m.getString "CustomName" = c.name := by
  refine ⟨_, rfl, ?_⟩
  by_cases hn : c.name.isEmpty
  · have hname : c.name = "" := String.isEmpty_iff.mp hn
    simp [hname, FieldMap.ofList, FieldMap.getString, FieldMap.get?_insert_ne, FieldMap.get?_insert_self]
  · simp [hn, FieldMap.ofList, FieldMap.getString, FieldMap.get?_insert_ne, FieldMap.get?_insert_self]

theorem encode_furnace (r : Realm) (f : Furnace) :
    ∃ m, (Block.furnace f).encode r = some m ∧ m.getString "id" = "Furnace" ∧
      m.get? "Items" = some (r.slotsOf f.inventory).toField ∧
      m.getI32 "BurnTime" = Int32.ofInt f.burn.toNat ∧ m.getI32 "CookTime" = Int32.ofInt f.cook.toNat := by
  refine ⟨_, rfl, ?_⟩
  simp [FieldMap.ofList, FieldMap.getString, FieldMap.getI32, FieldMap.get?_insert_ne,
    FieldMap.get?_insert_self]

end Block

theorem Hopper.cooldown_reads_back (c : Int64) :
    (Int64.ofInt (Int32.ofInt (max (-2 ^ (31 : Nat)) (min c.toInt (2 ^ (31 : Nat) - 1)))).toInt).toInt =
      max (-2 ^ 31) (min c.toInt (2 ^ 31 - 1)) := by
  have hc := c.toInt_lt
  have hc' := c.le_toInt
  rw [Int32.toInt_ofInt_of_le (by omega) (by omega), Int64.toInt_ofInt_of_le (by omega) (by omega)]

/-- A furnace counter written as a signed 32-bit word, read back with negative words as zero:
kept up to the largest such word, zero above it. -/
theorem Furnace.counter_reads_back (n : UInt32) :
    (max 0 (Int32.ofInt n.toNat).toInt).toNat.toUInt32 = if n.toNat ≤ 2 ^ 31 - 1 then n else 0 := by
  have hn := n.toNat_lt
  rw [Int32.toInt_ofInt, Int.bmod_def]
  simp only [Int32.size]
  split_ifs with h1 h2 h2
  · rw [Int.emod_eq_of_lt (by omega) (by omega)]
    simp
  · omega
  · omega
  · rw [Int.emod_eq_of_lt (by omega) (by omega)]
    rw [show max 0 ((n.toNat : Int) - ((4294967296 : Nat) : Int)) = 0 by omega]
    rfl

namespace Realm

/-- Storage `i'` of `t` holds the slots of storage `i` of `r` as they read back. -/
def Reloads (r t : Realm) (i i' : InventoryId) : Prop :=
  i'.idx < t.storages.size ∧ t.slotsOf i' = (r.slotsOf i).map (Option.map Stack.reread)

theorem Reloads.grows {r t u : Realm} {i i' : InventoryId} (h : r.Reloads t i i') (ht : t.Grows u) :
    r.Reloads u i i' :=
  ⟨Nat.lt_of_lt_of_le h.1 ht.size_le, (ht.slotsOf h.1).trans h.2⟩

end Realm

namespace Block

/-- What restoring the record of `b`, captured from `r`, places, with its storage in `t`: a block
of the same kind; a hopper with the same facing, power and name, its transfer cooldown cut to
32 bits and its collect cooldown and last tick at zero; a chest with the same name; a furnace
whose counters above the signed 32-bit range read back as zero; and each container on storage
holding its slots as they read back. -/
def Reloaded (r t : Realm) : Block → Block → Prop
  | .air, _ => False
  | .solid id, b' => b' = .solid id
  | .enderChest, b' => b' = .enderChest
  | .hopper h, b' => ∃ h' : Hopper, b' = .hopper h' ∧ h'.facing = h.facing ∧
      h'.powered = h.powered ∧ h'.name = h.name ∧ h'.lastTick = Tick.zero ∧
      h'.transferCooldown.toInt = max (-2 ^ 31) (min h.transferCooldown.toInt (2 ^ 31 - 1)) ∧
      h'.collectCooldown = 0 ∧ r.Reloads t h.inventory h'.inventory
  | .chest c, b' => ∃ c' : Chest, b' = .chest c' ∧ c'.name = c.name ∧
      r.Reloads t c.inventory c'.inventory
  | .furnace f, b' => ∃ f' : Furnace, b' = .furnace f' ∧
      f'.burn = (if f.burn.toNat ≤ 2 ^ 31 - 1 then f.burn else 0) ∧
      f'.cook = (if f.cook.toNat ≤ 2 ^ 31 - 1 then f.cook else 0) ∧
      r.Reloads t f.inventory f'.inventory

theorem Reloaded.grows {r t u : Realm} {b b' : Block} (h : b.Reloaded r t b') (ht : t.Grows u) :
    b.Reloaded r u b' := by
  cases b with
  | air => exact h.elim
  | solid | enderChest => exact h
  | hopper h₀ =>
    obtain ⟨h', rfl, h1, h2, h3, h4, h5, h6, hs⟩ := h
    exact ⟨h', rfl, h1, h2, h3, h4, h5, h6, hs.grows ht⟩
  | chest c =>
    obtain ⟨c', rfl, h1, hs⟩ := h
    exact ⟨c', rfl, h1, hs.grows ht⟩
  | furnace f =>
    obtain ⟨f', rfl, h1, h2, hs⟩ := h
    exact ⟨f', rfl, h1, h2, hs.grows ht⟩

end Block

theorem Realm.slotsOf_push_push {s t : Realm} {a b : Storage}
    (h : t.storages = (s.storages.push a).push b) : t.slotsOf ⟨s.storages.size + 1⟩ = b.slots := by
  simp only [Realm.slotsOf, h]
  rw [show s.storages.size + 1 = (s.storages.push a).size from (Array.size_push _).symm,
    Array.getElem?_push_size]

theorem Slots.loadFields_items {s : Slots} {m : FieldMap} (hs : s.Valid) (hsz : s.size ≤ 128)
    (hm : m.get? "Items" = some s.toField) :
    ((Slots.empty s.size).loadFields (m.getList "Items")).slots = s.map (Option.map Stack.reread) :=
  loadFields_toField hs (fun _ hp => Nat.lt_of_lt_of_le (Slots.lt_size_of_mem_filled hp) hsz) (by rw [Slots.toField_eq]; exact congrArg _ (Block.getList_of_get? (by
    rw [hm, Slots.toField_eq])).symm)

namespace Record

/-- Restoring the record of a stored block places the block it reloads to, at the same position,
on storage appended after all there was and holding its slots as they read back, provided its
slots fit and have its kind's count. -/
theorem restore_capture {r : Realm} {p : Pos} {b : Block} {rec : Record}
    (hrec : capture r p b = some rec)
    (hslots : ∀ i, b.inventory? = some i → (r.slotsOf i).Valid ∧ (r.slotsOf i).size = b.slotCount)
    (s : Realm) :
    ∃ b' s', rec.restore.run s = .ok (b', s') ∧ s.Grows s' ∧ s'.blocks = s.blocks ∧ rec.pos = p ∧
      b.Reloaded r s' b' ∧ ∀ i', b'.inventory? = some i' → s.storages.size ≤ i'.idx := by
  cases b with
  | air => cases hrec
  | solid id =>
    cases hrec
    exact ⟨.solid id, s, rfl, .refl s, rfl, rfl, rfl, by simp [Block.inventory?]⟩
  | enderChest =>
    cases hrec
    exact ⟨.enderChest, s, rfl, .refl s, rfl, rfl, rfl, by simp [Block.inventory?]⟩
  | hopper h =>
    obtain ⟨m, hm, hid, hitems, hname, htc⟩ := Block.encode_hopper r h
    obtain ⟨hv, hsz⟩ := hslots h.inventory rfl
    simp only [Block.slotCount] at hsz
    simp only [capture, hm, Option.map_some, Option.getD_some, Option.some.injEq] at hrec
    subst hrec
    obtain ⟨s', hrun, hst, hbl⟩ := run_restore_hopper (p := p) h.facing h.powered hid s
    refine ⟨_, s', hrun, Realm.grows_push_push hst, hbl, rfl, ⟨_, rfl, rfl, rfl, hname, rfl, ?_, rfl,
      by simp [hst], ?_⟩, by simp [Block.inventory?]⟩
    · rw [htc, Hopper.cooldown_reads_back]
    · rw [Realm.slotsOf_push_push hst, ← hsz]
      exact Slots.loadFields_items hv (by rw [hsz]; decide) hitems
  | chest c =>
    obtain ⟨m, hm, hid, hitems, hname⟩ := Block.encode_chest r c
    obtain ⟨hv, hsz⟩ := hslots c.inventory rfl
    simp only [Block.slotCount] at hsz
    simp only [capture, hm, Option.map_some, Option.getD_some, Option.some.injEq] at hrec
    subst hrec
    obtain ⟨s', hrun, hst, hbl⟩ := run_restore_chest (p := p) hid s
    refine ⟨_, s', hrun, Realm.grows_push_push hst, hbl, rfl, ⟨_, rfl, hname, by simp [hst], ?_⟩,
      by simp [Block.inventory?]⟩
    rw [Realm.slotsOf_push_push hst, ← hsz]
    exact Slots.loadFields_items hv (by rw [hsz]; decide) hitems
  | furnace f =>
    obtain ⟨m, hm, hid, hitems, hburn, hcook⟩ := Block.encode_furnace r f
    obtain ⟨hv, hsz⟩ := hslots f.inventory rfl
    simp only [Block.slotCount] at hsz
    simp only [capture, hm, Option.map_some, Option.getD_some, Option.some.injEq] at hrec
    subst hrec
    obtain ⟨s', hrun, hst, hbl⟩ := run_restore_furnace (p := p) hid s
    refine ⟨_, s', hrun, Realm.grows_push_push hst, hbl, rfl, ⟨_, rfl, ?_, ?_, by simp [hst], ?_⟩,
      by simp [Block.inventory?]⟩
    · rw [hburn, Furnace.counter_reads_back]
    · rw [hcook, Furnace.counter_reads_back]
    · rw [Realm.slotsOf_push_push hst, ← hsz]
      exact Slots.loadFields_items hv (by rw [hsz]; decide) hitems

end Record

namespace Block

theorem Reloaded.inventory_lt {r t : Realm} {b b' : Block} (h : b.Reloaded r t b') {i' : InventoryId}
    (hi : b'.inventory? = some i') : i'.idx < t.storages.size := by
  cases b with
  | air => exact h.elim
  | solid | enderChest => subst h; cases hi
  | hopper h₀ =>
    obtain ⟨h', rfl, -, -, -, -, -, -, hs⟩ := h
    cases hi
    exact hs.1
  | chest c =>
    obtain ⟨c', rfl, -, hs⟩ := h
    cases hi
    exact hs.1
  | furnace f =>
    obtain ⟨f', rfl, -, -, hs⟩ := h
    cases hi
    exact hs.1

theorem capture_isSome (r : Realm) (p : Pos) {b : Block} (hb : b ≠ .air) :
    ∃ rec, Record.capture r p b = some rec := by
  cases b with
  | air => exact absurd rfl hb
  | _ => exact ⟨_, rfl⟩

end Block

namespace World

/-- Later entries hold later storage. -/
def HandlesIncrease (l : List (Pos × Block)) : Prop :=
  l.Pairwise fun e e' => ∀ i j, e.2.inventory? = some i → e'.2.inventory? = some j → i.idx < j.idx

/-- Restoring the records of stored blocks, in order, places the block each one reloads to at
its position, each on storage appended after all there was, later blocks on later storage, and
leaves the blocks and the storage there was as they were. -/
theorem restore_entries (r : Realm) :
    ∀ (l : List (Pos × Block)) (s : Realm),
      (∀ e ∈ l, ∀ i, e.2.inventory? = some i → (r.slotsOf i).Valid ∧ (r.slotsOf i).size = e.2.slotCount) →
      ∃ placed s', ((l.filterMap fun (p, b) => Record.capture r p b).mapM
          fun (rec : Record) => do return (rec.pos, ← rec.restore)).run s = .ok (placed, s') ∧
        s.Grows s' ∧ s'.blocks = s.blocks ∧
        List.Forall₂ (fun e e' => e'.1 = e.1 ∧ e.2.Reloaded r s' e'.2) (l.filter (·.2 ≠ .air)) placed ∧
        (∀ e ∈ placed, ∀ i, e.2.inventory? = some i → s.storages.size ≤ i.idx) ∧ HandlesIncrease placed
  | [], s, _ => ⟨[], s, rfl, .refl s, rfl, .nil, by simp, .nil⟩
  | (p, b) :: rest, s, hl => by
    have hrest : ∀ e ∈ rest, ∀ i, e.2.inventory? = some i →
        (r.slotsOf i).Valid ∧ (r.slotsOf i).size = e.2.slotCount :=
      fun e he => hl e (List.mem_cons_of_mem _ he)
    by_cases hair : b = .air
    · subst hair
      simpa [Record.capture] using restore_entries r rest s hrest
    obtain ⟨rec, hrec⟩ := Block.capture_isSome r p hair
    obtain ⟨b', s₁, hrun, hg₁, hbl₁, hpos, hre, hfresh⟩ :=
      Record.restore_capture hrec (hl (p, b) List.mem_cons_self) s
    obtain ⟨placed, s₂, hrun', hg₂, hbl₂, hall, hfresh', hinc⟩ := restore_entries r rest s₁ hrest
    refine ⟨(p, b') :: placed, s₂, ?_, hg₁.trans hg₂, hbl₂.trans hbl₁, ?_, ?_, ?_⟩
    · simp only [List.filterMap_cons, hrec, List.mapM_cons]
      rw [run_bind_ok (run_bind_ok hrun _), run_bind_ok hrun', hpos]
      rfl
    · simp only [List.filter_cons, hair, if_true, ne_eq, not_false_eq_true, decide_true]
      exact .cons ⟨rfl, hre.grows hg₂⟩ hall
    · rintro e (he | ⟨-, he⟩) i hi
      · exact hfresh i hi
      · exact Nat.le_trans hg₁.size_le (hfresh' e he i hi)
    · refine List.Pairwise.cons (fun e he i j hi hj => ?_) hinc
      exact Nat.lt_of_lt_of_le (hre.inventory_lt hi) (hfresh' e he j hj)

end World

namespace BlockMap

theorem insertEntry_of_lt {p : Pos} {b : Block} :
    ∀ {l : List (Pos × Block)}, (∀ q ∈ l.map (·.1), q.cmp p = .lt) → insertEntry p b l = l ++ [(p, b)]
  | [], _ => rfl
  | (q, c) :: rest, h => by
    have hq : q.cmp p = .lt := h q (by simp)
    have hpq : p.cmp q = .gt := Pos.cmp_eq_gt_iff.mpr hq
    simp only [insertEntry, hpq, List.cons_append]
    rw [insertEntry_of_lt fun q' hq' => h q' (by simp_all)]

theorem foldl_set_entries :
    ∀ (l : List (Pos × Block)) (m : BlockMap), (∀ e ∈ l, e.2 ≠ .air) → Ascending (m.entries ++ l) →
      (l.foldl (fun (m : BlockMap) (e : Pos × Block) => m.set e.1 e.2) m).entries = m.entries ++ l
  | [], m, _, _ => by simp
  | (p, b) :: rest, m, hair, hasc => by
    have hb : b ≠ .air := hair (p, b) List.mem_cons_self
    have hlt : ∀ q ∈ m.entries.map (·.1), q.cmp p = .lt := by
      intro q hq
      simp only [Ascending, List.map_append, List.map_cons, List.pairwise_append] at hasc
      exact hasc.2.2 q hq p List.mem_cons_self
    have hset : (m.set p b).entries = m.entries ++ [(p, b)] := by
      rw [entries_set hb, insertEntry_of_lt hlt]
    rw [List.foldl_cons, foldl_set_entries rest (m.set p b) (fun e he => hair e (List.mem_cons_of_mem _ he))
      (by rw [hset, List.append_assoc]; exact hasc), hset, List.append_assoc, List.singleton_append]

end BlockMap

theorem Block.Reloaded.ne_air {r t : Realm} {b b' : Block} (h : b.Reloaded r t b') : b' ≠ .air := by
  cases b with
  | air => exact h.elim
  | solid | enderChest => subst h; nofun
  | hopper => obtain ⟨_, rfl, -⟩ := h; nofun
  | chest => obtain ⟨_, rfl, -⟩ := h; nofun
  | furnace => obtain ⟨_, rfl, -⟩ := h; nofun

private theorem keys_of_forall₂ {R : Block → Block → Prop} :
    ∀ {l l' : List (Pos × Block)}, List.Forall₂ (fun e e' => e'.1 = e.1 ∧ R e.2 e'.2) l l' →
      l'.map (·.1) = l.map (·.1)
  | _, _, .nil => rfl
  | _, _, .cons h hrest => by simp [h.1, keys_of_forall₂ hrest]

private theorem forall_right_of_forall₂ {P : Pos × Block → Prop} :
    ∀ {l l' : List (Pos × Block)}, List.Forall₂ (fun _ e' => P e') l l' → ∀ e' ∈ l', P e'
  | _, _, .nil => by simp
  | _, _, .cons h hrest => by
    intro e' he'
    rcases List.mem_cons.mp he' with rfl | he'
    · exact h
    · exact forall_right_of_forall₂ hrest e' he'

/-- The shape of every realm the program builds: the storage of each stored container holds
its kind's count of slots, each empty or holding a stack that fits. -/
def Realm.Shaped (r : Realm) : Prop :=
  ∀ e ∈ r.blocks.entries, ∀ i, e.2.inventory? = some i →
    (r.slotsOf i).Valid ∧ (r.slotsOf i).size = e.2.slotCount

instance (r : Realm) : Decidable r.Shaped :=
  decidable_of_iff (∀ e ∈ r.blocks.entries, ∀ i ∈ e.2.inventory?,
      (r.slotsOf i).Valid ∧ (r.slotsOf i).size = e.2.slotCount) <| by
    simp only [Option.mem_def, Realm.Shaped]

namespace World

/-- Restoring the capture of a shaped realm cannot trap, keeps all storage there was, and stores,
position by position, the block each stored block reloads to, each on storage appended after
all there was, later blocks on later storage. -/
theorem run_restore_capture (r : Realm) (hr : r.Shaped) :
    ∃ r', (restore (capture r)).run r = .ok ((), r') ∧ r.Grows r' ∧
      List.Forall₂ (fun e e' => e'.1 = e.1 ∧ e.2.Reloaded r r' e'.2)
        (r.blocks.entries.filter (·.2 ≠ .air)) r'.blocks.entries ∧
      (∀ e ∈ r'.blocks.entries, ∀ i, e.2.inventory? = some i → r.storages.size ≤ i.idx) ∧
      HandlesIncrease r'.blocks.entries := by
  obtain ⟨placed, s', hrun, hg, -, hall, hfresh, hinc⟩ := restore_entries r r.blocks.entries r hr
  have hasc : BlockMap.Ascending placed := by
    have hfilter := r.blocks.ascending.filter (fun e => decide (e.2 ≠ .air))
    simpa only [BlockMap.Ascending, keys_of_forall₂ hall] using hfilter
  have hair : ∀ e ∈ placed, e.2 ≠ .air :=
    forall_right_of_forall₂ (hall.imp fun _ _ h => h.2.ne_air)
  have hentries : (placed.foldl (fun (m : BlockMap) (e : Pos × Block) => m.set e.1 e.2) {}).entries = placed :=
    BlockMap.foldl_set_entries placed {} hair (by simpa using hasc)
  refine ⟨{ s' with blocks := placed.foldl (fun (m : BlockMap) (e : Pos × Block) => m.set e.1 e.2) {} }, ?_, hg,
    ?_, ?_, ?_⟩
  · simp only [restore, capture]
    rw [run_bind_ok hrun]
    rfl
  · rw [hentries]
    exact hall.imp fun _ _ h => ⟨h.1, h.2.grows (List.prefix_refl _)⟩
  · rw [hentries]
    exact hfresh
  · rw [hentries]
    exact hinc

end World

namespace Slots

theorem filled_map (s : Slots) (f : Stack → Stack) :
    Slots.filled (s.map (Option.map f)) = s.filled.map fun p => (p.1, f p.2) := by
  simp only [filled, Array.size_map, Array.toList_map, List.zip_map_right, List.filterMap_map,
    List.map_filterMap]
  congr 1
  funext p
  rcases p with ⟨k, _ | c⟩ <;> rfl

theorem toField_map_reread {s : Slots}
    (hworn : ∀ st, some st ∈ s → ∀ t m, st.kind = .tool t m → st.durability.isSome) :
    Slots.toField (s.map (Option.map Stack.reread)) = s.toField := by
  rw [toField_eq, toField_eq, filled_map, List.map_map]
  congr 1
  apply List.map_congr_left
  rintro ⟨k, st⟩ hk
  have hst : some st ∈ s := Array.mem_of_getElem? (getElem?_of_mem_filled hk)
  simp only [Function.comp_apply, Stack.toFields_reread (hworn st hst)]

end Slots

/-- A reloaded block records as the block it was reloaded from, provided its tools carry wear
and, for a furnace, its counters fit a signed 32-bit word. -/
theorem Block.Reloaded.capture_eq {r t : Realm} {b b' : Block} (h : b.Reloaded r t b') (p : Pos)
    (hworn : ∀ i, b.inventory? = some i → ∀ st, some st ∈ r.slotsOf i →
      ∀ tl m, st.kind = .tool tl m → st.durability.isSome)
    (hfits : ∀ f, b = .furnace f → f.burn.toNat ≤ 2 ^ 31 - 1 ∧ f.cook.toNat ≤ 2 ^ 31 - 1) :
    Record.capture t p b' = Record.capture r p b := by
  cases b with
  | air => exact h.elim
  | solid | enderChest => subst h; rfl
  | hopper h₀ =>
    obtain ⟨h', rfl, hf, hp, hn, -, htc, -, hs⟩ := h
    have hitems : (t.slotsOf h'.inventory).toField = (r.slotsOf h₀.inventory).toField := by
      rw [hs.2, Slots.toField_map_reread (hworn _ rfl)]
    -- cutting the cooldown to 32 bits a second time changes nothing
    have hcut : max (-2 ^ (31 : Nat)) (min h'.transferCooldown.toInt (2 ^ (31 : Nat) - 1)) =
        max (-2 ^ (31 : Nat)) (min h₀.transferCooldown.toInt (2 ^ (31 : Nat) - 1)) := by
      rw [htc]
      omega
    simp only [Record.capture, Block.encode, hf, hp, hn, hitems, hcut]
  | chest c =>
    obtain ⟨c', rfl, hn, hs⟩ := h
    have hitems : (t.slotsOf c'.inventory).toField = (r.slotsOf c.inventory).toField := by
      rw [hs.2, Slots.toField_map_reread (hworn _ rfl)]
    simp only [Record.capture, Block.encode, hn, hitems]
  | furnace f =>
    obtain ⟨f', rfl, hb, hc, hs⟩ := h
    obtain ⟨hbf, hcf⟩ := hfits f rfl
    have hitems : (t.slotsOf f'.inventory).toField = (r.slotsOf f.inventory).toField := by
      rw [hs.2, Slots.toField_map_reread (hworn _ rfl)]
    simp only [Record.capture, Block.encode, hb, hc, hitems, if_pos hbf, if_pos hcf]

namespace World

theorem filterMap_capture_reloaded {r t : Realm} :
    ∀ {l l' : List (Pos × Block)}, List.Forall₂ (fun e e' => e'.1 = e.1 ∧ e.2.Reloaded r t e'.2) l l' →
      (∀ e ∈ l, ∀ i, e.2.inventory? = some i → ∀ st, some st ∈ r.slotsOf i →
        ∀ tl m, st.kind = .tool tl m → st.durability.isSome) →
      (∀ e ∈ l, ∀ f, e.2 = .furnace f → f.burn.toNat ≤ 2 ^ 31 - 1 ∧ f.cook.toNat ≤ 2 ^ 31 - 1) →
      l'.filterMap (fun (p, b) => Record.capture t p b) = l.filterMap fun (p, b) => Record.capture r p b
  | _, _, .nil, _, _ => rfl
  | (p, b) :: _, (p', b') :: _, .cons ⟨hp, hre⟩ hrest, hworn, hfits => by
    have hhead := hre.capture_eq p (hworn (p, b) List.mem_cons_self) (hfits (p, b) List.mem_cons_self)
    have htail := filterMap_capture_reloaded hrest (fun e he => hworn e (List.mem_cons_of_mem _ he))
      (fun e he => hfits e (List.mem_cons_of_mem _ he))
    simp only at hp
    simp only [List.filterMap_cons, hp, hhead, htail]

theorem capture_eq_filter (r : Realm) :
    capture r = (r.blocks.entries.filter (·.2 ≠ .air)).filterMap fun (p, b) => Record.capture r p b := by
  rw [capture, List.filterMap_filter]
  congr 1
  funext e
  rcases e with ⟨p, b⟩
  cases b <;> rfl

/-- Recording a shaped realm, restoring the records and recording again gives the same records,
when every stored tool carries wear and every furnace's counters fit a signed 32-bit word. -/
theorem capture_restore_capture (r : Realm) (hr : r.Shaped)
    (hworn : ∀ e ∈ r.blocks.entries, ∀ i, e.2.inventory? = some i → ∀ st, some st ∈ r.slotsOf i →
      ∀ t m, st.kind = .tool t m → st.durability.isSome)
    (hfits : ∀ e ∈ r.blocks.entries, ∀ f, e.2 = .furnace f →
      f.burn.toNat ≤ 2 ^ 31 - 1 ∧ f.cook.toNat ≤ 2 ^ 31 - 1) :
    ∃ r', (restore (capture r)).run r = .ok ((), r') ∧ capture r' = capture r := by
  obtain ⟨r', hrun, -, hall, -, -⟩ := run_restore_capture r hr
  refine ⟨r', hrun, ?_⟩
  rw [capture_eq_filter r, capture]
  exact filterMap_capture_reloaded hall (fun e he => hworn e (List.mem_of_mem_filter he))
    (fun e he => hfits e (List.mem_of_mem_filter he))

/-- A hopper holding a worn iron pickaxe is recorded the same after a restore. -/
theorem restore_keeps_records_of_worn_pickaxe :
    let h : Hopper := ⟨.down, false, "", Tick.zero, 0, 0, ⟨0⟩, ⟨0⟩⟩
    let r : Realm :=
      { blocks := ({} : BlockMap).set ⟨0, 64, 0⟩ (.hopper h)
        storages := #[⟨#[some ⟨.tool .pickaxe .iron, 1, some 17, none⟩, none, none, none, none], ⟨0⟩⟩] }
    r.Shaped ∧
      (∀ e ∈ r.blocks.entries, ∀ i, e.2.inventory? = some i → ∀ st, some st ∈ r.slotsOf i →
        ∀ t m, st.kind = .tool t m → st.durability.isSome) ∧
      (∀ e ∈ r.blocks.entries, ∀ f, e.2 = .furnace f →
        f.burn.toNat ≤ 2 ^ 31 - 1 ∧ f.cook.toNat ≤ 2 ^ 31 - 1) ∧
      ∃ r', (restore (capture r)).run r = .ok ((), r') ∧ capture r' = capture r := by
  intro h r
  have hentries : r.blocks.entries = [(⟨0, 64, 0⟩, .hopper h)] := rfl
  have hslots : r.slotsOf ⟨0⟩ = #[some ⟨.tool .pickaxe .iron, 1, some 17, none⟩, none, none, none, none] :=
    rfl
  have hstack : ∀ e ∈ r.blocks.entries, ∀ i, e.2.inventory? = some i → ∀ st, some st ∈ r.slotsOf i →
      st = ⟨.tool .pickaxe .iron, 1, some 17, none⟩ := by
    intro e he i hi st hst
    rw [hentries, List.mem_singleton] at he
    subst he
    cases hi
    rw [show h.inventory = ⟨0⟩ from rfl, hslots] at hst
    simpa using hst
  have hr : r.Shaped := by
    intro e he i hi
    refine ⟨fun st hst => ?_, ?_⟩
    · rw [hstack e he i hi st hst]
      show _ ∧ _
      decide
    · rw [hentries, List.mem_singleton] at he
      subst he
      cases hi
      rfl
  have hworn : ∀ e ∈ r.blocks.entries, ∀ i, e.2.inventory? = some i → ∀ st, some st ∈ r.slotsOf i →
      ∀ t m, st.kind = .tool t m → st.durability.isSome := by
    intro e he i hi st hst _ _ _
    rw [hstack e he i hi st hst]
    rfl
  have hfits : ∀ e ∈ r.blocks.entries, ∀ f, e.2 = .furnace f →
      f.burn.toNat ≤ 2 ^ 31 - 1 ∧ f.cook.toNat ≤ 2 ^ 31 - 1 := by
    intro e he f hf
    rw [hentries, List.mem_singleton] at he
    subst he
    cases hf
  exact ⟨hr, hworn, hfits, capture_restore_capture r hr hworn hfits⟩

/-- A hopper holding a wooden pickaxe without wear: the restored pickaxe carries the fresh wear
of its material, and its record now names it. -/
theorem restore_wears_unworn_tool :
    let h : Hopper := ⟨.down, false, "", Tick.zero, 0, 0, ⟨0⟩, ⟨0⟩⟩
    let r : Realm :=
      { blocks := ({} : BlockMap).set ⟨0, 64, 0⟩ (.hopper h)
        storages := #[⟨#[some ⟨.tool .pickaxe .wood, 1, none, none⟩, none, none, none, none], ⟨0⟩⟩] }
    ∃ r', (restore (capture r)).run r = .ok ((), r') ∧ capture r' ≠ capture r := by
  intro h r
  have hentries : r.blocks.entries = [(⟨0, 64, 0⟩, .hopper h)] := rfl
  have hslots : r.slotsOf ⟨0⟩ = #[some ⟨.tool .pickaxe .wood, 1, none, none⟩, none, none, none, none] :=
    rfl
  have hr : r.Shaped := by
    intro e he i hi
    rw [hentries, List.mem_singleton] at he
    subst he
    cases hi
    refine ⟨fun st hst => ?_, by rw [hslots]; rfl⟩
    rw [show h.inventory = ⟨0⟩ from rfl, hslots] at hst
    simp at hst
    subst hst
    show _ ∧ _
    decide
  obtain ⟨r', hrun, -, hall, -, -⟩ := run_restore_capture r hr
  refine ⟨r', hrun, fun heq => ?_⟩
  have hfilter : r.blocks.entries.filter (·.2 ≠ .air) = [(⟨0, 64, 0⟩, .hopper h)] := rfl
  rw [hfilter] at hall
  obtain ⟨⟨p', b'⟩, l', ⟨hp, h', rfl, -, -, -, -, -, -, hs⟩, hnil, he'⟩ :=
    List.forall₂_cons_left_iff.mp hall
  rw [List.forall₂_nil_left_iff] at hnil
  subst hnil
  simp only at hp
  subst hp
  obtain ⟨m', hm', -, hitems', -⟩ := Block.encode_hopper r' h'
  obtain ⟨m, hm, -, hitems, -⟩ := Block.encode_hopper r h
  have hcap' : capture r' = [⟨⟨0, 64, 0⟩, .hopper h'.facing h'.powered, m'⟩] := by
    simp only [capture, he', List.filterMap_cons, List.filterMap_nil, Record.capture, hm',
      Option.map_some, Option.getD_some]
  have hcap : capture r = [⟨⟨0, 64, 0⟩, .hopper h.facing h.powered, m⟩] := by
    simp only [capture, hentries, List.filterMap_cons, List.filterMap_nil, Record.capture, hm,
      Option.map_some, Option.getD_some]
  rw [hcap', hcap] at heq
  have hm_eq : m' = m := by
    simp only [List.cons.injEq, Record.mk.injEq] at heq
    exact heq.1.2.2
  rw [hm_eq, hitems, hs.2, Option.some.injEq] at hitems'
  -- the reread pickaxe carries the fresh wear of its material, which its record now names
  have hdiff : (Slots.toField ((r.slotsOf h.inventory).map (Option.map Stack.reread)) ==
      (r.slotsOf h.inventory).toField) = false := by
    decide +kernel
  have hsame : ((r.slotsOf h.inventory).toField == (r.slotsOf h.inventory).toField) = true := by
    decide +kernel
  rw [← hitems', hsame] at hdiff
  cases hdiff

end World

end ItemFlow
