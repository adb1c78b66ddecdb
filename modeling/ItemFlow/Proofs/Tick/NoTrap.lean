import ItemFlow.Proofs.Tick.Frame
import ItemFlow.Proofs.Save.Transparent
import ItemFlow.Layout.Run
/-! Overflow freedom of the tick pass. A pass does checked arithmetic in three places only: it
counts a hopper's two cooldowns down, it steps from a hopper to the neighbours it feeds and
pulls from, and it counts a furnace's cook counter up. Every slot count it touches moves only
under a guard that keeps it within its limit. A realm is in range when every hopper sits off
the edge of the coordinate range with cooldowns clear of the least word by more than its rest,
and every furnace can count its cook counter up once more. Main statement: from a realm in
range every pass runs to its summary and leaves a realm in range, so no run of passes traps;
the hoppers and furnaces that are built or read back from fields start in range. -/
namespace ItemFlow
open Act

namespace Act
variable {α β : Type}

/-- An action that never traps: from every realm it runs to a result. -/
def NoTrap (x : Act α) : Prop := ∀ r, ∃ v, x.run r = .ok v

namespace NoTrap

theorem pure (a : α) : NoTrap (Pure.pure a : Act α) := fun r => ⟨(a, r), rfl⟩

theorem bind {x : Act α} {f : α → Act β} (hx : NoTrap x) (hf : ∀ a, NoTrap (f a)) :
    NoTrap (x >>= f) := by
  intro r
  obtain ⟨⟨a, r₁⟩, h₁⟩ := hx r
  obtain ⟨v, h₂⟩ := hf a r₁
  exact ⟨v, by rw [run_bind_ok h₁, h₂]⟩

theorem lift_ok (a : α) : NoTrap (Act.lift (.ok a)) := fun r => ⟨(a, r), rfl⟩

theorem blockAt (p : Pos) : NoTrap (Act.blockAt p) := fun _ => ⟨_, run_blockAt p⟩

theorem slotsOf (i : InventoryId) : NoTrap (Act.slotsOf i) := fun _ => ⟨_, run_slotsOf i⟩

theorem setBlock (p : Pos) (b : Block) : NoTrap (Act.setBlock p b) := fun _ => ⟨_, run_setBlock p b⟩

theorem setItem (i : InventoryId) (slot : Nat) (st : Option Stack) : NoTrap (Act.setItem i slot st) :=
  fun _ => ⟨_, run_setItem i slot st⟩

theorem addItem (i : InventoryId) (st : Stack) : NoTrap (Act.addItem i st) :=
  fun _ => ⟨_, run_addItem i st⟩

theorem decrement (i : InventoryId) (slot : Nat) : NoTrap (Act.decrement i slot) :=
  fun _ => ⟨_, run_decrement i slot⟩

theorem run_ok {x : Act α} (hx : NoTrap x) (r : Realm) : ∃ a r', x.run r = .ok (a, r') := by
  obtain ⟨⟨a, r'⟩, h⟩ := hx r
  exact ⟨a, r', h⟩

end NoTrap

end Act

theorem Overflow.addI32_of_fits {a b : Int32}
    (h : -2 ^ 31 ≤ a.toInt + b.toInt ∧ a.toInt + b.toInt < 2 ^ 31) :
    Overflow.addI32 a b = .ok (Int32.ofInt (a.toInt + b.toInt)) := by
  unfold Overflow.addI32
  rw [if_pos h]

namespace Face

theorem offset_bounds (f : Face) :
    -1 ≤ f.offset.1.toInt ∧ f.offset.1.toInt ≤ 1 ∧ -1 ≤ f.offset.2.1.toInt ∧
      f.offset.2.1.toInt ≤ 1 ∧ -1 ≤ f.offset.2.2.toInt ∧ f.offset.2.2.toInt ≤ 1 := by
  cases f <;> decide

end Face

namespace Pos

/-- A position off the edge of the coordinate range: every coordinate lies strictly between
the least and the greatest signed 32-bit word, so all six neighbours exist. -/
def Inner (p : Pos) : Prop :=
  -2 ^ 31 < p.x.toInt ∧ p.x.toInt < 2 ^ 31 - 1 ∧ -2 ^ 31 < p.y.toInt ∧ p.y.toInt < 2 ^ 31 - 1 ∧
    -2 ^ 31 < p.z.toInt ∧ p.z.toInt < 2 ^ 31 - 1

instance (p : Pos) : Decidable p.Inner := inferInstanceAs (Decidable (_ ∧ _))

theorem side_of_inner {p : Pos} (hp : p.Inner) (f : Face) : ∃ q, p.side f = .ok q := by
  obtain ⟨hx₁, hx₂, hy₁, hy₂, hz₁, hz₂⟩ := hp
  have hoff := f.offset_bounds
  unfold side
  generalize f.offset = o at hoff
  obtain ⟨dx, dy, dz⟩ := o
  dsimp only at hoff
  obtain ⟨dx₁, dx₂, dy₁, dy₂, dz₁, dz₂⟩ := hoff
  refine ⟨⟨Int32.ofInt (p.x.toInt + dx.toInt), Int32.ofInt (p.y.toInt + dy.toInt),
    Int32.ofInt (p.z.toInt + dz.toInt)⟩, ?_⟩
  dsimp only
  rw [Overflow.addI32_of_fits (by omega), Overflow.addI32_of_fits (by omega),
    Overflow.addI32_of_fits (by omega)]
  rfl

end Pos

namespace Hopper

variable {h : Hopper}

theorem placeOne_noTrap (inv : InventoryId) (slot : Nat) (source : Stack) :
    NoTrap (placeOne inv slot source) := by
  unfold placeOne
  refine .bind (.slotsOf inv) fun s => ?_
  split
  · exact .pure _
  · exact .bind (.setItem _ _ _) fun _ => .pure _
  · split
    · exact .pure _
    · exact .bind (.setItem _ _ _) fun _ => .pure _

theorem offer_noTrap (dest : Block) (inv : InventoryId) (source : Stack) :
    NoTrap (h.offer dest inv source) := by
  unfold offer
  split
  · refine .bind (.slotsOf inv) fun s => ?_
    split
    split
    · exact placeOne_noTrap _ _ _
    · exact .pure _
  · exact .bind (.addItem _ _) fun _ => .pure _

theorem offerEach_noTrap (dest : Block) (inv : InventoryId) :
    ∀ l : List (Nat × Stack), NoTrap (h.offerEach dest inv l)
  | [] => .pure _
  | (slot, source) :: rest => by
    unfold offerEach
    refine .bind (offer_noTrap dest inv source) fun ok => ?_
    split
    · exact .bind (.decrement _ _) fun _ => .pure _
    · exact offerEach_noTrap dest inv rest

theorem insert_noTrap {pos q : Pos} (hq : pos.side h.facing = .ok q) : NoTrap (h.insert pos) := by
  unfold insert
  rw [hq]
  refine .bind (.lift_ok q) fun q => .bind (.blockAt q) fun dest => ?_
  split
  · exact .pure _
  · exact .bind (.slotsOf _) fun s => offerEach_noTrap _ _ _

theorem pullOne_noTrap (own inv : InventoryId) (nominated : Option (Stack × Nat)) :
    NoTrap (pullOne own inv nominated) := by
  unfold pullOne
  split
  · exact .pure _
  · split
    · exact .pure _
    · refine .bind (.slotsOf _) fun slots => ?_
      split
      · split
        · exact .pure _
        · refine .bind (.addItem _ _) fun res => ?_
          split
          · exact .pure _
          · exact .bind (.decrement _ _) fun _ => .pure _
      · exact .pure _

theorem extract_noTrap {pos q : Pos} (hq : pos.side .up = .ok q) : NoTrap (h.extract pos) := by
  unfold extract
  rw [hq]
  refine .bind (.lift_ok q) fun q => .bind (.blockAt q) fun origin => ?_
  split
  · exact .pure _
  · exact .bind (.slotsOf _) fun _ => pullOne_noTrap _ _ _

theorem tick_noTrap (htc : -2 ^ 63 < h.transferCooldown.toInt)
    (hcc : -2 ^ 63 < h.collectCooldown.toInt) {pos qf qu : Pos} (hqf : pos.side h.facing = .ok qf)
    (hqu : pos.side .up = .ok qu) (now : Tick) : NoTrap (h.tick now pos) := by
  obtain ⟨tc, htc, -⟩ := Overflow.subI64_one htc
  obtain ⟨cc, hcc, -⟩ := Overflow.subI64_one hcc
  unfold tick
  rw [htc, hcc]
  refine .bind (.lift_ok tc) fun tc => .bind (.lift_ok cc) fun cc => ?_
  dsimp only
  split
  · exact .bind (.setBlock _ _) fun _ => .pure _
  · split
    · exact .bind (.setBlock _ _) fun _ => .pure _
    · refine .bind (insert_noTrap hqf) fun ins => .bind (extract_noTrap hqu) fun ext => ?_
      split
      · exact .pure _
      · exact .bind (.setBlock _ _) fun _ => .pure _

end Hopper

theorem Overflow.addU32_one {a : UInt32} (ha : a.toNat < 2 ^ 32 - 1) :
    Overflow.addU32 a 1 = .ok (a + 1) := by
  unfold Overflow.addU32
  rw [if_pos (by rw [UInt32.toNat_one]; omega)]

namespace Furnace

variable {f : Furnace}

theorem ignite_noTrap (target : Option Stack) : NoTrap (f.ignite target) := by
  unfold ignite
  split
  · refine .bind (.slotsOf _) fun s => ?_
    split
    · split
      · exact .bind (.decrement _ _) fun _ => .pure _
      · exact .pure _
    · exact .pure _
  · exact .pure _

theorem cookStep_noTrap (hc : f.cook.toNat < 2 ^ 32 - 1) (target : Option Stack) :
    NoTrap (f.cookStep target) := by
  unfold cookStep
  split
  · rw [Overflow.addU32_one hc]
    refine .bind (.lift_ok _) fun cook => ?_
    split
    · exact .bind (.decrement _ _) fun _ => .bind (.setItem _ _ _) fun _ => .pure _
    · exact .pure _
  · exact .pure _

theorem publish_noTrap (pos : Pos) (burn cook : UInt32) : NoTrap (f.publish pos burn cook) := by
  unfold publish
  dsimp only
  split
  · exact .bind (.setBlock _ _) fun _ => .pure _
  · exact .pure _

theorem tick_noTrap (hc : f.cook.toNat < 2 ^ 32 - 1) (pos : Pos) : NoTrap (f.tick pos) := by
  unfold tick
  refine .bind (.slotsOf _) fun s => .bind (ignite_noTrap _) fun burn => ?_
  split
  · exact .bind (cookStep_noTrap hc _) fun _ => publish_noTrap _ _ _
  · exact publish_noTrap _ _ _

end Furnace

namespace Block

/-- The bounds under which the turn of a block at `p` never traps: a hopper sits at an inner
position with safe cooldowns, and a furnace can count its cook counter up once more. -/
def InRange (p : Pos) : Block → Prop
  | .hopper h => p.Inner ∧ h.Safe
  | .furnace f => f.cook.toNat < 2 ^ 32 - 1
  | _ => True

instance (p : Pos) : (b : Block) → Decidable (b.InRange p)
  | .hopper _ => inferInstanceAs (Decidable (p.Inner ∧ (_ ∧ _)))
  | .furnace f => inferInstanceAs (Decidable (f.cook.toNat < _))
  | .air | .solid _ | .chest _ | .enderChest => isTrue trivial

end Block

namespace Realm

/-- A realm whose every block is within the bounds for its position. -/
def InRange (r : Realm) : Prop := ∀ p, (r.blockAt p).InRange p

theorem InRange.update {r r' : Realm} {p : Pos} (hr : r.InRange) (hp : (r'.blockAt p).InRange p)
    (hq : ∀ q, q ≠ p → r'.blockAt q = r.blockAt q) : r'.InRange := by
  intro q
  by_cases hqp : q = p
  · subst hqp
    exact hp
  · rw [hq q hqp]
    exact hr q

theorem inRange_of_entries {r : Realm} (h : ∀ e ∈ r.blocks.entries, e.2.InRange e.1) :
    r.InRange := by
  intro p
  unfold blockAt BlockMap.get
  split
  · next q b hfind =>
    have hq : q = p := by simpa using List.find?_some hfind
    subst hq
    exact h _ (List.mem_of_find?_eq_some hfind)
  · trivial

end Realm

namespace World
variable {now : Tick} {p : Pos} {r r' : Realm} {t : Turn}

theorem turn_noTrap (hb : (r.blockAt p).InRange p) : ∃ t r', (turn now p).run r = .ok (t, r') := by
  unfold turn
  rw [run_blockAt_bind]
  generalize r.blockAt p = b at hb
  cases b with
  | hopper h =>
    -- safe cooldowns are above the least word, and an inner position has all its neighbours
    obtain ⟨hp, hs₁, hs₂⟩ := hb
    obtain ⟨qf, hqf⟩ := Pos.side_of_inner hp h.facing
    obtain ⟨qu, hqu⟩ := Pos.side_of_inner hp .up
    have htick := h.tick_noTrap (by omega) (by omega) hqf hqu now
    exact (NoTrap.bind htick fun _ => .pure _).run_ok r
  | furnace f => exact (NoTrap.bind (f.tick_noTrap hb p) fun _ => .pure _).run_ok r
  | air | solid | chest | enderChest => exact (NoTrap.pure _).run_ok r

/-- A turn keeps a realm in range: the hopper it ticks stays at its position with safe cooldowns,
and the furnace it ticks ends short of the smelt time. -/
theorem turn_inRange (hr : r.InRange) (hrun : (turn now p).run r = .ok (t, r')) : r'.InRange := by
  have hkeep : ∀ q, q ≠ p → r'.blockAt q = r.blockAt q := fun q hq =>
    turn_keeps_blockAt (Ne.symm hq) hrun
  rcases turn_cases hrun with ⟨h, ph, h', hb, -, hb', hs⟩ | ⟨f, a, f', hb, -, hb', hs⟩ | ⟨-, -, rfl⟩
  · have hp := hr p
    rw [hb] at hp
    refine hr.update ?_ hkeep
    rw [hb']
    exact ⟨hp.1, hs.safe hp.2⟩
  · refine hr.update ?_ hkeep
    rw [hb']
    have hcook : f'.cook.toNat < 200 := by
      simpa [UInt32.lt_iff_toNat_lt, ItemKind.smeltTicks] using hs.cook
    show f'.cook.toNat < 2 ^ 32 - 1
    omega
  · exact hr

theorem turnsAlong_noTrap (now : Tick) :
    ∀ (ps : List Pos) {r : Realm}, r.InRange →
      ∃ js r', (ps.mapM fun pos => return (pos, ← turn now pos)).run r = .ok (js, r') ∧ r'.InRange
  | [], r, hr => ⟨[], r, rfl, hr⟩
  | p :: ps, r, hr => by
    obtain ⟨t, r₁, h₁⟩ : ∃ t r₁, (turn now p).run r = .ok (t, r₁) := turn_noTrap (hr p)
    obtain ⟨js, r₂, h₂, hr₂⟩ := turnsAlong_noTrap now ps (turn_inRange hr h₁)
    refine ⟨(p, t) :: js, r₂, ?_, hr₂⟩
    have hp : ((do return (p, ← turn now p)) : Act (Pos × Turn)).run r = .ok ((p, t), r₁) := by
      rw [run_bind_ok h₁]
      rfl
    rw [List.mapM_cons, run_bind_ok hp, run_bind_ok h₂]
    rfl

theorem tick_noTrap (hr : r.InRange) (now : Tick) :
    ∃ s r', (World.tick now).run r = .ok (s, r') ∧ r'.InRange := by
  obtain ⟨js, r', hrun, hr'⟩ := turnsAlong_noTrap now (tickPositions r.blocks) hr
  have hturns : (turns now).run r = .ok (js, r') := by
    unfold turns
    rw [run_get_bind]
    exact hrun
  refine ⟨js.foldl (fun s t => s.addTurn t.2) {}, r', ?_, hr'⟩
  unfold World.tick
  rw [run_bind_ok hturns]
  rfl

/-- Pass after pass, a realm in range never traps and stays in range. -/
theorem ticks_noTrap : ∀ (ts : List Tick) {r : Realm}, r.InRange →
    ∃ sums r', (ts.mapM World.tick).run r = .ok (sums, r') ∧ r'.InRange
  | [], r, hr => ⟨[], r, rfl, hr⟩
  | t :: ts, r, hr => by
    obtain ⟨s, r₁, h₁, hr₁⟩ := tick_noTrap hr t
    obtain ⟨sums, r₂, h₂, hr₂⟩ := ticks_noTrap ts hr₁
    refine ⟨s :: sums, r₂, ?_, hr₂⟩
    rw [List.mapM_cons, run_bind_ok h₁, run_bind_ok h₂]
    rfl

end World

namespace Stack

private theorem toUInt32_of_toNat {n : Int} (c : UInt32) (h : n = c.toNat) : n.toNat.toUInt32 = c := by
  apply UInt32.toNat_inj.mp
  rw [Nat.toUInt32_eq, UInt32.toNat_ofNat', h]
  have := c.toNat_lt
  simp only [Int.toNat_natCast]
  omega

theorem grow_by_neg_one (st : Stack) : st.grow (-1) = .ok st.shrink := by
  have hc := st.count.toNat_lt
  have hm1 : (-1 : Int64).toInt = -1 := by decide
  unfold grow shrink
  simp only [hm1]
  rw [if_neg (by omega)]
  by_cases h1 : st.count ≤ 1
  · have : st.count.toNat ≤ 1 := by simpa [UInt32.le_iff_toNat_le] using h1
    rw [if_pos h1, if_pos (by omega)]
    rfl
  · have : 1 < st.count.toNat := by simpa [UInt32.le_iff_toNat_le] using h1
    rw [if_neg h1, if_neg (by omega), toUInt32_of_toNat (st.count - 1)]
    · rfl
    · rw [UInt32.toNat_sub_one (by omega)]
      simp
      omega

theorem grow_by_one {st : Stack} (hfull : st.isFull = false) :
    st.grow 1 = .ok (some (st.withCount (st.count + 1))) := by
  have hc := st.count.toNat_lt
  have hsum := (grow_one (by simp [hfull] : ¬st.isFull = true)).1
  have hlt : st.count.toNat < st.maxStack.toNat := by
    simpa [isFull, UInt32.le_iff_toNat_le] using hfull
  unfold grow
  simp only [Int64.toInt_one]
  rw [if_neg (by omega), if_neg (by omega), toUInt32_of_toNat (st.count + 1) (by rw [hsum]; omega)]
  rfl

end Stack

namespace Hopper

/-- A hopper whose transfer cooldown fits a signed 32-bit word and whose collect cooldown is
zero is safe: hoppers are built and read back so. -/
theorem safe_of_fresh {h : Hopper}
    (htc : -2 ^ 31 ≤ h.transferCooldown.toInt ∧ h.transferCooldown.toInt ≤ 2 ^ 31 - 1)
    (hcc : h.collectCooldown = 0) : h.Safe := by
  refine Reloadable.safe ⟨htc, ?_, ?_⟩ <;> rw [hcc, Int64.toInt_zero] <;> omega

theorem create_safe (facing : Face) (powered : Bool) (name : String) (r : Realm) :
    ∃ h r', (create facing powered name).run r = .ok (h, r') ∧ h.Safe :=
  ⟨_, _, rfl, safe_of_fresh (by dsimp only; decide) rfl⟩

/-- A hopper read back from fields has a transfer cooldown read from a signed 32-bit field and
no collect cooldown, so it is safe whatever the fields hold. -/
theorem decode_safe (h : Hopper) {m : FieldMap} (hid : m.getString "id" = "Hopper") (s : Realm) :
    ∃ h' s', ((Block.hopper h).decode m).run s = .ok (.hopper h', s') ∧ h'.Safe := by
  obtain ⟨s', hrun, -, -⟩ := Block.run_decode_hopper h hid s
  refine ⟨_, s', hrun, safe_of_fresh ?_ rfl⟩
  have := (m.getI32 "TransferCooldown").le_toInt
  have := (m.getI32 "TransferCooldown").toInt_lt
  dsimp only
  rw [Int64.toInt_ofInt_of_le (by omega) (by omega)]
  omega

end Hopper

theorem Layout.newFurnace_cook (r : Realm) :
    ∃ f r', (Layout.newFurnace).run r = .ok (f, r') ∧ f.cook.toNat < 2 ^ 32 - 1 :=
  ⟨_, _, rfl, by dsimp only; decide⟩

theorem Furnace.decode_cook (f : Furnace) {m : FieldMap} (hid : m.getString "id" = "Furnace")
    (s : Realm) :
    ∃ f' s', ((Block.furnace f).decode m).run s = .ok (.furnace f', s') ∧
      f'.cook.toNat < 2 ^ 32 - 1 := by
  obtain ⟨s', hrun, -, -⟩ := Block.run_decode_furnace f hid s
  refine ⟨_, s', hrun, ?_⟩
  have := (m.getI32 "CookTime").toInt_lt
  dsimp only
  rw [Nat.toUInt32_eq, UInt32.toNat_ofNat']
  omega

/-- Overflow freedom of the tick pass. From a realm in range, a pass at any tick runs to its
summary without an arithmetic trap and leaves a realm in range, so any run of passes does. The
count arithmetic a pass does unchecked is exact: taking a unit grows by minus one, which never
traps; growing a stack that is not full by one never traps and counts one more; a successful
add adds exactly the added count. Hoppers built new or read back from fields have safe
cooldowns, and furnaces built new or read back from fields can count their cook counter up. -/
theorem passes_never_overflow :
    (∀ (now : Tick) (r : Realm), r.InRange →
      ∃ s r', (World.tick now).run r = .ok (s, r') ∧ r'.InRange) ∧
    (∀ (ts : List Tick) (r : Realm), r.InRange →
      ∃ sums r', (ts.mapM World.tick).run r = .ok (sums, r') ∧ r'.InRange) ∧
    (∀ st : Stack, st.grow (-1) = .ok st.shrink) ∧
    (∀ st : Stack, st.isFull = false →
      st.grow 1 = .ok (some (st.withCount (st.count + 1))) ∧ (st.count + 1).toNat = st.count.toNat + 1) ∧
    (∀ (s : Slots) (st : Stack) (e : Edit), s.addItem st = .ok e →
      e.slots.weigh (fun _ => 1) = s.weigh (fun _ => 1) + st.count.toNat) ∧
    (∀ (facing : Face) (powered : Bool) (name : String) (r : Realm),
      ∃ h r', (Hopper.create facing powered name).run r = .ok (h, r') ∧ h.Safe) ∧
    (∀ (h : Hopper) (m : FieldMap) (s : Realm), m.getString "id" = "Hopper" →
      ∃ h' s', ((Block.hopper h).decode m).run s = .ok (.hopper h', s') ∧ h'.Safe) ∧
    (∀ r : Realm, ∃ f r', (Layout.newFurnace).run r = .ok (f, r') ∧ f.cook.toNat < 2 ^ 32 - 1) ∧
    (∀ (f : Furnace) (m : FieldMap) (s : Realm), m.getString "id" = "Furnace" →
      ∃ f' s', ((Block.furnace f).decode m).run s = .ok (.furnace f', s') ∧
        f'.cook.toNat < 2 ^ 32 - 1) :=
  ⟨fun now _ hr => World.tick_noTrap hr now, fun ts _ hr => World.ticks_noTrap ts hr,
    Stack.grow_by_neg_one,
    fun _ hfull => ⟨Stack.grow_by_one hfull, (Stack.grow_one (by simp [hfull])).1⟩,
    fun _ _ _ h => by simpa using Slots.weigh_addItem (fun _ => 1) h,
    Hopper.create_safe, fun h _ s hid => Hopper.decode_safe h hid s, Layout.newFurnace_cook,
    fun f _ s hid => Furnace.decode_cook f hid s⟩

/-- A hopper feeding a chest below it, far from the edge of the coordinate range, is in range
and runs three passes without a trap; a stack of three grows by one and a hopper read back from
fields is safe. -/
theorem hopper_feeding_chest_never_overflows :
    let r : Realm :=
      { blocks := (({} : BlockMap).set ⟨0, 64, 0⟩ (.hopper ⟨.down, false, "", Tick.zero, 0, 0, ⟨0⟩, ⟨0⟩⟩)).set
          ⟨0, 63, 0⟩ (.chest ⟨"", ⟨1⟩, ⟨1⟩⟩)
        storages := #[⟨#[some (Stack.new .stone 3), none, none, none, none], ⟨0⟩⟩, ⟨Slots.empty 27, ⟨1⟩⟩]
        registries := #[{}, {}] }
    let m := FieldMap.ofList [("id", .string "Hopper"), ("TransferCooldown", .int 5)]
    r.InRange ∧ (∃ sums r', ([⟨1⟩, ⟨2⟩, ⟨3⟩].mapM World.tick).run r = .ok (sums, r') ∧ r'.InRange) ∧
      (Stack.new .stone 3).isFull = false ∧
      (Stack.new .stone 3).grow 1 = .ok (some ((Stack.new .stone 3).withCount 4)) ∧
      m.getString "id" = "Hopper" ∧
      ∃ h' s', ((Block.hopper ⟨.down, false, "", Tick.zero, 0, 0, ⟨0⟩, ⟨0⟩⟩).decode m).run r =
        .ok (.hopper h', s') ∧ h'.Safe := by
  intro r m
  have hr : r.InRange := Realm.inRange_of_entries (by decide +kernel)
  have hfull : (Stack.new .stone 3).isFull = false := by decide
  have hid : m.getString "id" = "Hopper" := by decide +kernel
  obtain ⟨hpass, hpasses, -, hgrow, -, -, hdecode, -, -⟩ := passes_never_overflow
  exact ⟨hr, hpasses _ r hr, hfull, (hgrow _ hfull).1, hid, hdecode _ m r hid⟩

end ItemFlow
