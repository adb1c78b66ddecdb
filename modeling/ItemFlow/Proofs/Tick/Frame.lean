import ItemFlow.Proofs.Tick.Cooldown
import ItemFlow.Proofs.Tick.FurnaceSlots
import ItemFlow.Proofs.Inventory.Mirror
/-! The frame of a tick pass. A turn stores at most one block, at its own position: the hopper
or furnace it ticked, on the same storage and registry, with new counters only. Slot writes
touch no block, keep each storage on its registry, and deliver their changes, which prunes the
registrations of dead viewers from the registries they go through. So a pass keeps every
position's block up to its tick counters, and ticks each hopper and furnace it started with
exactly once, on the block found at its position just before its turn, which is the block it
started with. -/
namespace ItemFlow
open Act

namespace Furnace

/-- The burn counter once a furnace with slots `s` has lit: the burn time of the fuel it
lights, else the counter as it was. -/
def lit (f : Furnace) (s : Slots) : UInt32 :=
  match f.litFuel s with
  | some fuel => fuel.kind.burnTicks
  | none => f.burn

/-- What a furnace turn from slots `s` stores at the furnace's position: the furnace on the same
storage and registry, its burn counter exactly one below the lit counter (zero when nothing
burns), and its cook counter short of the smelt time. -/
structure Step (f : Furnace) (s : Slots) (f' : Furnace) : Prop where
  inventory : f'.inventory = f.inventory
  viewers : f'.viewers = f.viewers
  burn : f'.burn.toNat = (f.lit s).toNat - 1
  cook : f'.cook < ItemKind.smeltTicks

variable {f : Furnace} {r r' : Realm}

theorem ignite_lit {burn : UInt32}
    (h : (f.ignite (smeltTarget (r.slotsOf f.inventory))).run r = .ok (burn, r')) :
    burn = f.lit (r.slotsOf f.inventory) ∧ r'.blocks = r.blocks := by
  rcases ignite_run h with ⟨hnone, rfl, rfl⟩ | ⟨fuel, hsome, -, rfl, rfl⟩
  · exact ⟨by rw [lit, hnone], rfl⟩
  · exact ⟨by rw [lit, hsome], by simp⟩

theorem cookStep_lt {target : Option Stack} {cook : UInt32}
    (h : (f.cookStep target).run r = .ok (cook, r')) :
    cook < ItemKind.smeltTicks ∧ r'.blocks = r.blocks := by
  have hb : r'.blocks = r.blocks :=
    f.cookStep_preserves (P := fun s => s.blocks = r.blocks)
      ⟨fun _ _ _ _ _ h _ => by simpa using h, fun _ _ _ _ h _ => by simpa using h,
        fun _ _ _ _ _ h _ => by simpa using h⟩ target rfl h
  refine ⟨?_, hb⟩
  unfold cookStep at h
  cases target with
  | none => rw [(pure_run_ok h).1]; decide
  | some out =>
    dsimp only at h
    rw [run_lift_bind] at h
    split at h
    · split at h
      · obtain ⟨-, r1, -, h⟩ := bind_run_ok h
        obtain ⟨-, r2, -, h⟩ := bind_run_ok h
        rw [(pure_run_ok h).1]
        decide
      · next hlt =>
        rw [(pure_run_ok h).1]
        simpa using hlt
    · cases h

theorem publish_blockAt {pos : Pos} {burn cook : UInt32} {changed : Bool}
    (hpos : r.blockAt pos = .furnace f) (h : (f.publish pos burn cook).run r = .ok (changed, r')) :
    r'.blockAt pos = .furnace { f with burn, cook } := by
  unfold publish at h
  dsimp only at h
  split at h
  · obtain ⟨_, r1, hset, h⟩ := bind_run_ok h
    rw [run_setBlock] at hset
    obtain ⟨-, rfl⟩ := Prod.mk.inj (Except.ok.inj hset)
    rw [(pure_run_ok h).2]
    exact Realm.blockAt_setBlock_self _ _ nofun
  · next hsame =>
    rw [(pure_run_ok h).2, hpos]
    simp only [Bool.or_eq_true, bne_iff_ne, ne_eq, not_or, Decidable.not_not] at hsame
    rw [hsame.1, hsame.2]

theorem tick_step {pos : Pos} {active : Bool} (hpos : r.blockAt pos = .furnace f)
    (h : (f.tick pos).run r = .ok (active, r')) :
    ∃ f', r'.blockAt pos = .furnace f' ∧ f.Step (r.slotsOf f.inventory) f' := by
  unfold tick at h
  rw [run_slotsOf_bind] at h
  obtain ⟨burn, r1, hign, h⟩ := bind_run_ok h
  obtain ⟨hlit, hb1⟩ := ignite_lit hign
  have hpos1 : r1.blockAt pos = .furnace f := by rw [Realm.blockAt, hb1]; exact hpos
  split at h
  · next hburn =>
    obtain ⟨cook, r2, hcook, h⟩ := bind_run_ok h
    obtain ⟨hlt, hb2⟩ := cookStep_lt hcook
    have hpos2 : r2.blockAt pos = .furnace f := by rw [Realm.blockAt, hb2]; exact hpos1
    refine ⟨_, publish_blockAt hpos2 h, rfl, rfl, ?_, hlt⟩
    have hpos : 0 < burn.toNat := by
      rw [gt_iff_lt, UInt32.lt_iff_toNat_lt, UInt32.toNat_zero] at hburn
      exact hburn
    rw [← hlit, UInt32.toNat_sub_one hpos]
  · next hburn =>
    refine ⟨_, publish_blockAt hpos1 h, rfl, rfl, ?_, (by decide : (0 : UInt32) < ItemKind.smeltTicks)⟩
    have h0 : burn.toNat = 0 := by simpa [UInt32.lt_iff_toNat_lt] using hburn
    rw [← hlit, h0]

end Furnace

namespace World
variable {now : Tick} {p : Pos} {r r' : Realm} {t : Turn}

/-- What a turn can do: tick the hopper at its position one step of the cooldown machine, tick
the furnace there one furnace step, or, at any other block, nothing. -/
theorem turn_cases (hrun : (turn now p).run r = .ok (t, r')) :
    (∃ h ph h', r.blockAt p = .hopper h ∧ t = .hopper ph ∧ r'.blockAt p = .hopper h' ∧
      Hopper.Step now h ph h') ∨
    (∃ f a f', r.blockAt p = .furnace f ∧ t = .furnace a ∧ r'.blockAt p = .furnace f' ∧
      f.Step (r.slotsOf f.inventory) f') ∨
    (ticks (r.blockAt p) = false ∧ t = .skip ∧ r' = r) := by
  cases hb : r.blockAt p with
  | hopper h =>
    obtain ⟨ph, h', rfl, hb', hs⟩ := turn_hopper hb hrun
    exact .inl ⟨h, ph, h', rfl, rfl, hb', hs⟩
  | furnace f =>
    unfold turn at hrun
    rw [run_blockAt_bind, hb] at hrun
    obtain ⟨a, r1, htick, hrun⟩ := bind_run_ok hrun
    obtain ⟨rfl, rfl⟩ := pure_run_ok hrun
    obtain ⟨f', hb', hs⟩ := Furnace.tick_step hb htick
    exact .inr (.inl ⟨f, a, f', rfl, rfl, hb', hs⟩)
  | air | solid | chest | enderChest =>
    unfold turn at hrun
    rw [run_blockAt_bind, hb] at hrun
    obtain ⟨rfl, rfl⟩ := pure_run_ok hrun
    exact .inr (.inr ⟨rfl, rfl, rfl⟩)

end World

namespace Block

/-- `b'` is `b` with at most its tick counters changed: a hopper's cooldowns and last tick, a
furnace's burn and cook counters. Every other block stays as it is. -/
def Frame : Block → Block → Prop
  | .hopper h, b' => ∃ tc cc t, b' = .hopper { h with transferCooldown := tc, collectCooldown := cc, lastTick := t }
  | .furnace f, b' => ∃ burn cook, b' = .furnace { f with burn, cook }
  | .air, b' => b' = .air
  | .solid id, b' => b' = .solid id
  | .chest c, b' => b' = .chest c
  | .enderChest, b' => b' = .enderChest

theorem Frame.refl : ∀ b : Block, b.Frame b
  | .hopper _ => ⟨_, _, _, rfl⟩
  | .furnace _ => ⟨_, _, rfl⟩
  | .air | .solid _ | .chest _ | .enderChest => rfl

theorem Frame.trans {b b' b'' : Block} (h : b.Frame b') (h' : b'.Frame b'') : b.Frame b'' := by
  cases b with
  | hopper =>
    obtain ⟨_, _, _, rfl⟩ := h
    obtain ⟨tc, cc, t, rfl⟩ := h'
    exact ⟨tc, cc, t, rfl⟩
  | furnace =>
    obtain ⟨_, _, rfl⟩ := h
    obtain ⟨burn, cook, rfl⟩ := h'
    exact ⟨burn, cook, rfl⟩
  | air | solid | chest | enderChest => subst h; exact h'

/-- A block keeps its storage through counter changes, so every copy of it still shares it. -/
theorem Frame.inventory? {b b' : Block} (h : b.Frame b') : b'.inventory? = b.inventory? := by
  cases b with
  | hopper => obtain ⟨_, _, _, rfl⟩ := h; rfl
  | furnace => obtain ⟨_, _, rfl⟩ := h; rfl
  | air | solid | chest | enderChest => subst h; rfl

theorem Frame.viewersOf? {b b' : Block} (h : b.Frame b') : b'.viewersOf? = b.viewersOf? := by
  cases b with
  | hopper => obtain ⟨_, _, _, rfl⟩ := h; rfl
  | furnace => obtain ⟨_, _, rfl⟩ := h; rfl
  | air | solid | chest | enderChest => subst h; rfl

end Block

theorem Hopper.Step.frame {now : Tick} {h h' : Hopper} {ph : Phase} (hs : Step now h ph h') :
    (Block.hopper h).Frame (.hopper h') := by
  cases hs with
  | idle => exact .refl _
  | coolingDown | blocked | transferred => exact ⟨_, _, _, rfl⟩

theorem Furnace.Step.frame {f f' : Furnace} {s : Slots} (hs : f.Step s f') :
    (Block.furnace f).Frame (.furnace f') := by
  obtain ⟨burn, cook, inv, g⟩ := f'
  obtain ⟨rfl, rfl, -, -⟩ := hs
  exact ⟨burn, cook, rfl⟩

namespace World
variable {now : Tick} {p : Pos} {r r' : Realm} {t : Turn}

theorem turn_frame (hrun : (turn now p).run r = .ok (t, r')) (q : Pos) :
    (r.blockAt q).Frame (r'.blockAt q) := by
  by_cases hq : q = p
  · subst hq
    rcases turn_cases hrun with ⟨h, ph, h', hb, -, hb', hs⟩ | ⟨f, a, f', hb, -, hb', hs⟩ | ⟨-, -, rfl⟩
    · rw [hb, hb']
      exact hs.frame
    · rw [hb, hb']
      exact hs.frame
    · exact .refl _
  · rw [turn_keeps_blockAt (Ne.symm hq) hrun]
    exact .refl _

end World

namespace Realm

/-- `r'` reports slot changes as `r` does: every storage reports to the same registry, a registry
at most drops the registrations of viewers no longer alive, the same viewers are alive, and the
log of deliveries only grows. -/
structure Reports (r r' : Realm) : Prop where
  storages : ∀ j : Nat, (r'.storages[j]?).map Storage.registry = (r.storages[j]?).map Storage.registry
  registries : ∀ g, r'.registry g = r.registry g ∨ r'.registry g = ⟨r.watchers g⟩
  alive : r'.alive = r.alive
  log : r.log.toList <+: r'.log.toList

namespace Reports
variable {r r' r'' : Realm}

theorem refl (r : Realm) : r.Reports r := ⟨fun _ => rfl, fun _ => .inl rfl, rfl, List.prefix_refl _⟩

theorem watchers (h : r.Reports r') (g : RegistryId) : r'.watchers g = r.watchers g := by
  have halive : r'.isAlive = r.isAlive := by
    funext v
    simp only [isAlive, h.alive]
  rcases h.registries g with hg | hg
  · simp only [Realm.watchers, hg, halive]
  · simp only [Realm.watchers, hg, halive, Registry.live, List.filter_filter, Bool.and_self]

theorem trans (h : r.Reports r') (h' : r'.Reports r'') : r.Reports r'' where
  storages j := (h'.storages j).trans (h.storages j)
  registries g := by
    rcases h'.registries g with hg | hg
    · rw [hg]
      exact h.registries g
    · right
      rw [hg, h.watchers]
  alive := h'.alive.trans h.alive
  log := h.log.trans h'.log

theorem deliver (r : Realm) (g : RegistryId) (c : Change) : r.Reports (r.deliver g c) where
  storages _ := rfl
  registries g' := by
    show (r.setRegistry g ⟨r.watchers g⟩).registry g' = r.registry g' ∨
      (r.setRegistry g ⟨r.watchers g⟩).registry g' = ⟨r.watchers g'⟩
    rw [registry_setRegistry]
    split
    · next hg =>
      obtain ⟨rfl, -⟩ := hg
      exact .inr rfl
    · exact .inl rfl
  alive := rfl
  log := by
    rw [log_deliver]
    exact List.prefix_append _ _

private theorem foldl_deliver (g : RegistryId) :
    ∀ (cs : List Change) (r : Realm), r.Reports (cs.foldl (fun r c => r.deliver g c) r)
  | [], r => .refl r
  | c :: cs, r => (deliver r g c).trans (foldl_deliver g cs _)

theorem applyEdit (r : Realm) (i : InventoryId) (e : Edit) : r.Reports (r.applyEdit i e) := by
  cases hs : r.storages[i.idx]? with
  | none =>
    rw [applyEdit_of_none hs]
    exact .refl r
  | some s =>
    have h := foldl_deliver s.registry e.changes
      { r with storages := r.storages.set! i.idx { s with slots := e.slots } }
    refine ⟨registry_applyEdit i e, ?_, ?_, ?_⟩ <;> simp only [Realm.applyEdit, hs]
    · exact h.registries
    · exact h.alive
    · exact h.log

theorem slotStable (r₀ : Realm) : SlotStable (Reports r₀) where
  setItem r _ _ _ e h _ := h.trans (applyEdit r _ e)
  addItem r _ _ e h _ := h.trans (applyEdit r _ e)
  decrement r _ _ _ e h _ := h.trans (applyEdit r _ e)

theorem blockStable (r₀ : Realm) : BlockStable (Reports r₀) := fun _ _ _ h =>
  ⟨h.storages, h.registries, h.alive, h.log⟩

end Reports

end Realm

theorem BlockMap.find?_of_mem {p : Pos} {b : Block} :
    ∀ {l : List (Pos × Block)}, BlockMap.Ascending l → (p, b) ∈ l → l.find? (·.1 == p) = some (p, b)
  | [], _, h => absurd h List.not_mem_nil
  | (q, c) :: l, hl, h => by
    simp only [BlockMap.Ascending, List.map_cons, List.pairwise_cons] at hl
    rcases List.mem_cons.mp h with he | he
    · cases he
      simp
    · have hqp : q ≠ p := Pos.ne_of_cmp_lt (hl.1 p (List.mem_map.mpr ⟨(p, b), he, rfl⟩))
      simp [hqp, find?_of_mem hl.2 he]

namespace World
variable {now : Tick}

/-- A pass visits exactly the positions holding a hopper or a furnace. -/
theorem mem_tickPositions_iff {m : BlockMap} {p : Pos} : p ∈ tickPositions m ↔ ticks (m.get p) = true := by
  constructor
  · intro hp
    obtain ⟨⟨q, b⟩, hmem, rfl⟩ := List.mem_map.mp hp
    obtain ⟨hmem, hb⟩ := List.mem_filter.mp hmem
    simpa [BlockMap.get, BlockMap.find?_of_mem m.ascending hmem] using hb
  · intro hp
    unfold BlockMap.get at hp
    split at hp
    · next q b hfind =>
      have hq : q = p := by simpa using List.find?_some hfind
      subst hq
      exact List.mem_map.mpr ⟨(q, b), List.mem_filter.mpr ⟨List.mem_of_find?_eq_some hfind, hp⟩, rfl⟩
    · cases hp

theorem turnsAlong_frame :
    ∀ (ps : List Pos) {r r' : Realm} {js : List (Pos × Turn)},
      (ps.mapM fun pos => return (pos, ← turn now pos)).run r = .ok (js, r') →
      js.map Prod.fst = ps ∧ ∀ q, (r.blockAt q).Frame (r'.blockAt q)
  | [], _, _, _, h => by
    obtain ⟨rfl, rfl⟩ := run_turnsAlong_nil h
    exact ⟨rfl, fun _ => .refl _⟩
  | p :: ps, r, r', js, h => by
    obtain ⟨t, r1, rest, ht, hrest, rfl⟩ := run_turnsAlong_cons h
    obtain ⟨hkeys, hframe⟩ := turnsAlong_frame ps hrest
    exact ⟨by simp [hkeys], fun q => (turn_frame ht q).trans (hframe q)⟩

/-- Along positions that hold `p` once, `p` takes one turn, from a realm that still holds at `p`
the block it held at the start; no other turn touches `p`. -/
theorem turnsAlong_once {p : Pos} :
    ∀ (ps : List Pos) {r r' : Realm} {js : List (Pos × Turn)}, ps.Nodup → p ∈ ps →
      (ps.mapM fun pos => return (pos, ← turn now pos)).run r = .ok (js, r') →
      ∃ r₁ r₂ t, r₁.blockAt p = r.blockAt p ∧ (turn now p).run r₁ = .ok (t, r₂) ∧
        r'.blockAt p = r₂.blockAt p ∧ js.lookup p = some t
  | [], _, _, _, _, hmem, _ => absurd hmem List.not_mem_nil
  | q :: ps, r, r', js, hnd, hmem, hrun => by
    obtain ⟨t, r1, rest, ht, hrest, rfl⟩ := run_turnsAlong_cons hrun
    obtain ⟨hq, hnd⟩ := List.nodup_cons.mp hnd
    by_cases hqp : q = p
    · subst hqp
      obtain ⟨hb, -⟩ := turnsAlong_keeps_blockAt ps hq hrest
      exact ⟨r, r1, t, rfl, ht, hb, by simp [List.lookup]⟩
    · obtain ⟨r₁, r₂, t', hb₁, ht', hb₂, hl⟩ :=
        turnsAlong_once ps hnd (List.mem_of_ne_of_mem (Ne.symm hqp) hmem) hrest
      refine ⟨r₁, r₂, t', hb₁.trans (turn_keeps_blockAt hqp ht), ht', hb₂, ?_⟩
      simp [List.lookup, beq_eq_false_iff_ne.mpr (Ne.symm hqp), hl]

theorem turns_reports {r r' : Realm} {js : List (Pos × Turn)} (hrun : (turns now).run r = .ok (js, r')) :
    r.Reports r' :=
  turns_preserves (Realm.Reports.slotStable r) (Realm.Reports.blockStable r) now (.refl r) hrun

end World

/-- A tick pass ticks each position that held a hopper or a furnace at the start exactly once, in
position order, on the block read there just before its turn, which is the block it held at the
start; no other position takes a turn. It keeps every position's block up to its tick counters,
so every block keeps its kind, its storage and its registry, and it changes how slot changes are
reported only by pruning the registrations of dead viewers from the registries it reports
through. -/
theorem tick_pass_frame {now : Tick} {r r' : Realm} {sum : Summary}
    (hrun : (World.tick now).run r = .ok (sum, r')) :
    ∃ js, (World.turns now).run r = .ok (js, r') ∧
      (∀ p, p ∈ World.tickPositions r.blocks ↔ World.ticks (r.blockAt p) = true) ∧
      (World.tickPositions r.blocks).Nodup ∧ js.map Prod.fst = World.tickPositions r.blocks ∧
      (∀ p ∈ World.tickPositions r.blocks, ∃ r₁ r₂ t, r₁.blockAt p = r.blockAt p ∧
        (World.turn now p).run r₁ = .ok (t, r₂) ∧ r'.blockAt p = r₂.blockAt p ∧ js.lookup p = some t) ∧
      (∀ p, (r.blockAt p).Frame (r'.blockAt p)) ∧ r.Reports r' := by
  obtain ⟨js, r1, hturns, hsum⟩ := bind_run_ok hrun
  obtain ⟨-, rfl⟩ := pure_run_ok hsum
  have halong := hturns
  unfold World.turns at halong
  rw [run_get_bind] at halong
  obtain ⟨hkeys, hframe⟩ := World.turnsAlong_frame _ halong
  exact ⟨js, hturns, fun p => World.mem_tickPositions_iff, World.nodup_tickPositions _, hkeys,
    fun p hp => World.turnsAlong_once _ (World.nodup_tickPositions _) hp halong, hframe,
    World.turns_reports hturns⟩

/-- A hopper feeding a chest below it: the pass keeps the frame. -/
theorem hopper_feeding_chest_keeps_frame :
    let r : Realm :=
      { blocks := (({} : BlockMap).set ⟨0, 64, 0⟩ (.hopper ⟨.down, false, "", Tick.zero, 0, 0, ⟨0⟩, ⟨0⟩⟩)).set
          ⟨0, 63, 0⟩ (.chest ⟨"", ⟨1⟩, ⟨1⟩⟩)
        storages := #[⟨#[some (Stack.new .stone 3), none, none, none, none], ⟨0⟩⟩, ⟨Slots.empty 27, ⟨1⟩⟩]
        registries := #[{}, {}] }
    ∃ sum r', (World.tick ⟨1⟩).run r = .ok (sum, r') ∧
      ∃ js, (World.turns ⟨1⟩).run r = .ok (js, r') ∧
        (∀ p, p ∈ World.tickPositions r.blocks ↔ World.ticks (r.blockAt p) = true) ∧
        (World.tickPositions r.blocks).Nodup ∧ js.map Prod.fst = World.tickPositions r.blocks ∧
        (∀ p ∈ World.tickPositions r.blocks, ∃ r₁ r₂ t, r₁.blockAt p = r.blockAt p ∧
          (World.turn ⟨1⟩ p).run r₁ = .ok (t, r₂) ∧ r'.blockAt p = r₂.blockAt p ∧ js.lookup p = some t) ∧
        (∀ p, (r.blockAt p).Frame (r'.blockAt p)) ∧ r.Reports r' := by
  intro r
  obtain ⟨sum, r', hrun⟩ := exists_run_ok (x := World.tick ⟨1⟩) (r := r) (by decide +kernel)
  exact ⟨sum, r', hrun, tick_pass_frame hrun⟩

/-- A pass prunes a dead viewer's registration from the registry of a chest a hopper feeds, so
removing that viewer reports it registered before the pass and not after. -/
theorem pass_prunes_dead_registration :
    let h : Hopper := ⟨.down, false, "", Tick.zero, 0, 0, ⟨0⟩, ⟨0⟩⟩
    let c : Chest := ⟨"", ⟨1⟩, ⟨1⟩⟩
    let r : Realm :=
      { blocks := (({} : BlockMap).set ⟨0, 64, 0⟩ (.hopper h)).set ⟨0, 63, 0⟩ (.chest c)
        storages := #[⟨#[some (Stack.new .stone 1), none, none, none, none], ⟨0⟩⟩, ⟨Slots.empty 27, ⟨1⟩⟩]
        registries := #[{}, ⟨[⟨1, 0⟩]⟩] }
    ∃ sum r', (World.tick ⟨1⟩).run r = .ok (sum, r') ∧ ((r.registry ⟨1⟩).remove 1).2 = true ∧
      ((r'.registry ⟨1⟩).remove 1).2 = false := by
  intro h c r
  obtain ⟨sum, r', hrun⟩ := exists_run_ok (x := World.tick ⟨1⟩) (r := r) (by decide +kernel)
  have hpruned : (match (World.tick ⟨1⟩).run r with
      | .ok (_, r') => ((r'.registry ⟨1⟩).remove 1).2
      | .error _ => true) = false := by decide +kernel
  rw [hrun] at hpruned
  exact ⟨sum, r', hrun, rfl, hpruned⟩

end ItemFlow
