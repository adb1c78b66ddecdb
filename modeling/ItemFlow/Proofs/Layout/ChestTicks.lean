import ItemFlow.Proofs.Tick.HopperTick
import ItemFlow.Proofs.Inventory.Stock
/-! The demo chest layout, tick by tick. A source chest stands above an unpowered hopper that
faces east into a sink chest; everything moved is stone. A pass over the layout is the tick of
its one hopper: with rest left it counts down, and when due it pushes the unit it holds into the
sink and pulls the next from the source's first filled slot, then rests eight ticks, or idles
when neither moved.

Main statements: `ChestAt.cool` and `ChestAt.due` say what one pass does to the layout's units and
rest; `ChestAt.After.step` puts them in closed form in the number of ticks, where the hopper moves
a unit at ticks `1 + 9 * j`; and `ticks_after` runs the layout tick after tick to that form, with
its count of moving ticks and its event-log lines. -/
namespace ItemFlow

open Act

namespace Layout

/-- The blocks of the chest layout: the source chest, the transfer hopper under it, and the sink
chest east of the hopper. -/
def chestMap (src : Chest) (h : Hopper) (snk : Chest) : BlockMap :=
  ((({} : BlockMap).set sourcePos (.chest src)).set hopperPos (.hopper h)).set (sinkPos .chest)
    (.chest snk)

section ChestMap

variable (src snk : Chest) (h : Hopper)

theorem tickPositions_chestMap : World.tickPositions (chestMap src h snk) = [hopperPos] := rfl

theorem chestMap_set_hopper (h' : Hopper) :
    (chestMap src h snk).set hopperPos (.hopper h') = chestMap src h' snk := rfl

@[simp] theorem get_chestMap_source : (chestMap src h snk).get sourcePos = .chest src := rfl

@[simp] theorem get_chestMap_hopper : (chestMap src h snk).get hopperPos = .hopper h := rfl

@[simp] theorem get_chestMap_sink : (chestMap src h snk).get (sinkPos .chest) = .chest snk := rfl

end ChestMap

theorem side_east_hopperPos : hopperPos.side .east = .ok (sinkPos .chest) := rfl

theorem side_up_hopperPos : hopperPos.side .up = .ok sourcePos := rfl

def stone : Identity := (Stack.new .stone 1).identity

@[simp] theorem identity_new_stone (n : UInt32) : (Stack.new .stone n).identity = stone := rfl

theorem maxStack_of_stone {st : Stack} (h : st.identity = stone) : st.maxStack.toNat = 64 := by
  have hk : st.kind = .stone := congrArg Identity.kind h
  rw [Stack.maxStack, hk]
  rfl

/-- The storages of the chest layout: `a` units in the source chest, `b` in the hopper's storage
`H` and `c` in the sink chest, all stone, in three distinct storages of a hopper's and a chest's
size. -/
structure Stocked (src snk : Chest) (H : InventoryId) (r : Realm) (a b c : Nat) : Prop where
  source : (r.slotsOf src.inventory).Stock stone a
  held : (r.slotsOf H).Stock stone b
  sink : (r.slotsOf snk.inventory).Stock stone c
  heldSize : (r.slotsOf H).size = Hopper.slotCount
  sinkSize : (r.slotsOf snk.inventory).size = Chest.slotCount
  srcH : src.inventory ≠ H
  hSnk : H ≠ snk.inventory
  srcSnk : src.inventory ≠ snk.inventory

namespace Stocked

variable {src snk : Chest} {H : InventoryId} {r : Realm} {a b c : Nat}

theorem withBlocks (hs : Stocked src snk H r a b c) (m : BlockMap) :
    Stocked src snk H { r with blocks := m } a b c :=
  ⟨hs.source, hs.held, hs.sink, hs.heldSize, hs.sinkSize, hs.srcH, hs.hSnk, hs.srcSnk⟩

theorem insert {h : Hopper} (hs : Stocked src snk H r a b c) (hf : h.facing = .east)
    (hi : h.inventory = H) (hsink : r.blockAt (sinkPos .chest) = .chest snk) (hb : b ≤ 1)
    (hc : c + b ≤ 1728) :
    ∃ r₁, (h.insert hopperPos).run r = .ok (decide (0 < b), r₁) ∧ r₁.blocks = r.blocks ∧
      Stocked src snk H r₁ a 0 (c + b) := by
  rw [Hopper.insert_run (hf ▸ side_east_hopperPos), hsink, hi, hf]
  dsimp only [Block.inventory?]
  rcases Nat.lt_or_ge 0 b with hpos | hzero
  · have hb1 : b = 1 := by omega
    subst hb1
    obtain ⟨i, st, rest, hl, hst, hid⟩ := hs.held.exists_first hpos
    obtain ⟨e, he, hstock, hsize⟩ := hs.sink.addItem_single hid
      (by rw [hs.sinkSize, maxStack_of_stone hid, Chest.slotCount]; omega)
    have hfirst : Hopper.firstIntake .east (.chest snk) (r.slotsOf snk.inventory) (r.slotsOf H) =
        some (i, e) := by
      simp [Hopper.firstIntake, hl, Hopper.intake, he, Except.toOption]
    rw [hfirst]
    refine ⟨_, rfl, by simp, ?_⟩
    have hH := Realm.slotsOf_gain_take_src (e := e) hs.hSnk hst
    have hS := Realm.slotsOf_gain_take_dst (k := i) hs.hSnk hsize
    refine ⟨?_, ?_, ?_, ?_, ?_, hs.srcH, hs.hSnk, hs.srcSnk⟩
    · rw [Realm.slotsOf_gain_take_of_ne hs.srcH hs.srcSnk]
      exact hs.source
    · rw [hH]
      exact hs.held.set_shrink hst
    · rw [hS]
      exact hstock
    · rw [hH, Array.size_set!]
      exact hs.heldSize
    · rw [hS]
      exact hsize.trans hs.sinkSize
  · have hb0 : b = 0 := by omega
    subst hb0
    have hnil : (r.slotsOf H).filled = [] := hs.held.filled_eq_nil_iff.mpr rfl
    refine ⟨r, ?_, rfl, ?_⟩
    · simp [Hopper.firstIntake, hnil]
    · simpa using hs

theorem extract {h : Hopper} (hs : Stocked src snk H r a 0 c) (hi : h.inventory = H)
    (hsrc : r.blockAt sourcePos = .chest src) :
    ∃ r₂, (h.extract hopperPos).run r = .ok (decide (0 < a), r₂) ∧ r₂.blocks = r.blocks ∧
      Stocked src snk H r₂ (a - min a 1) (min a 1) c := by
  rw [Hopper.extract_run side_up_hopperPos, hsrc]
  dsimp only [Block.inventory?]
  rw [Hopper.pullOne_run, hi]
  rcases Nat.lt_or_ge 0 a with hpos | hzero
  · obtain ⟨i, st, rest, hl, hst, hid⟩ := hs.source.exists_first hpos
    have hnom : Hopper.nomination (.chest src) (r.slotsOf src.inventory) = some (st, i) := by
      simp [Hopper.nomination, Slots.firstFilled?_eq_head?_filled, hl]
    obtain ⟨e, he, hstock, hsize⟩ := hs.held.addItem_single hid
      (by rw [hs.heldSize, maxStack_of_stone hid, Hopper.slotCount]; omega)
    have hne : st.isEmpty = false := by
      have := Stack.Fits.count_ne_zero (hs.source.valid st (Array.mem_of_getElem? hst))
      simpa [Stack.isEmpty] using this
    have hpull : Hopper.pullable (r.slotsOf H) (r.slotsOf src.inventory) (some (st, i)) =
        some (i, e) :=
      Hopper.pullable_eq_some_iff.mpr ⟨st, st, rfl, hne, hst, by simp [Stack.comparable], he⟩
    rw [hnom, hpull]
    refine ⟨(r.applyEdit H e).takeOne src.inventory i, by simp [hpos], by simp, ?_⟩
    have hS := Realm.slotsOf_gain_take_src (e := e) hs.srcH hst
    have hH := Realm.slotsOf_gain_take_dst (k := i) hs.srcH hsize
    have hmin : min a 1 = 1 := by omega
    rw [hmin]
    refine ⟨?_, ?_, ?_, ?_, ?_, hs.srcH, hs.hSnk, hs.srcSnk⟩
    · rw [hS]
      exact hs.source.set_shrink hst
    · rw [hH]
      exact hstock
    · rw [Realm.slotsOf_gain_take_of_ne hs.srcSnk.symm hs.hSnk.symm]
      exact hs.sink
    · rw [hH]
      exact hsize.trans hs.heldSize
    · rw [Realm.slotsOf_gain_take_of_ne hs.srcSnk.symm hs.hSnk.symm]
      exact hs.sinkSize
  · have ha0 : a = 0 := by omega
    subst ha0
    have hnil : (r.slotsOf src.inventory).filled = [] := hs.source.filled_eq_nil_iff.mpr rfl
    refine ⟨r, ?_, rfl, hs⟩
    simp [Hopper.nomination, Slots.firstFilled?_eq_head?_filled, hnil, Hopper.pullable]

end Stocked

/-- The transfer hopper of the chest layout: facing the sink, unpowered, holding storage `H`, with
`k` ticks of rest left on both cooldowns. -/
structure Feeder (H : InventoryId) (k : Nat) (h : Hopper) : Prop where
  facing : h.facing = .east
  unpowered : h.powered = false
  inventory : h.inventory = H
  transfer : h.transferCooldown.toInt = k
  collect : h.collectCooldown.toInt = k

/-- The chest layout with `a` units in the source, `b` in the hopper and `c` in the sink, the
hopper resting `k` more ticks. -/
structure ChestAt (src snk : Chest) (H : InventoryId) (r : Realm) (a b c k : Nat) : Prop where
  hopper : ∃ h, r.blocks = chestMap src h snk ∧ Feeder H k h
  stocked : Stocked src snk H r a b c

theorem tick_chestMap {src snk : Chest} {h : Hopper} {r r' : Realm} {now : Tick} {ph : Phase}
    (hr : r.blocks = chestMap src h snk) (htick : (h.tick now hopperPos).run r = .ok (ph, r')) :
    (World.tick now).run r = .ok (Summary.addPhase {} ph, r') := by
  have hturn : (World.turn now hopperPos).run r = .ok (.hopper ph, r') := by
    unfold World.turn
    rw [run_blockAt_bind, Realm.blockAt, hr, get_chestMap_hopper]
    dsimp only
    rw [run_bind_ok htick]
    rfl
  have hp : ((do return (hopperPos, ← World.turn now hopperPos)) : Act (Pos × Turn)).run r =
      .ok ((hopperPos, .hopper ph), r') := by
    rw [run_bind_ok hturn]
    rfl
  have hturns : (World.turns now).run r = .ok ([(hopperPos, .hopper ph)], r') := by
    unfold World.turns
    rw [run_get_bind, hr, tickPositions_chestMap, List.mapM_cons, run_bind_ok hp]
    rfl
  unfold World.tick
  rw [run_bind_ok hturns]
  rfl

namespace ChestAt

variable {src snk : Chest} {H : InventoryId} {r : Realm} {a b c k : Nat}

theorem tick_run (hr : ChestAt src snk H r a b c k) (now : Tick) :
    ∃ h ph r', r.blocks = chestMap src h snk ∧ Feeder H k h ∧
      (World.tick now).run r = .ok (Summary.addPhase {} ph, r') ∧ Hopper.TickRun now h hopperPos r ph r' := by
  obtain ⟨h, hb, hf⟩ := hr.hopper
  -- cooldowns at rest `k` are far above the least word, and both neighbours are in range
  have htick := Hopper.tick_noTrap (h := h) (by rw [hf.transfer]; omega) (by rw [hf.collect]; omega)
    (hf.facing ▸ side_east_hopperPos) side_up_hopperPos now
  obtain ⟨ph, r', hrun⟩ := htick.run_ok r
  exact ⟨h, ph, r', hb, hf, tick_chestMap hb hrun, Hopper.TickRun.of_run hrun⟩

theorem cool (hr : ChestAt src snk H r a b c (k + 1)) (now : Tick) :
    ∃ r', (World.tick now).run r = .ok (Summary.addPhase {} .coolingDown, r') ∧
      ChestAt src snk H r' a b c k := by
  obtain ⟨h, ph, r', hb, hf, hrun, htr⟩ := hr.tick_run now
  cases htr with
  | coolingDown htc hcc _ =>
    refine ⟨_, hrun, ⟨_, by rw [hb, chestMap_set_hopper], ?_⟩, hr.stocked.withBlocks _⟩
    exact ⟨hf.facing, hf.unpowered, hf.inventory, by rw [htc, hf.transfer]; omega,
      by rw [hcc, hf.collect]; omega⟩
  | blocked hdue _ | idle hdue _ _ _ | transferred hdue _ _ _ _ =>
    have := hf.transfer
    omega

/-- A due hopper pushes a held unit into the sink, then pulls one from the source; it rests the
full eight ticks when a unit moved, and idles when none did. -/
theorem due (hr : ChestAt src snk H r a b c 0) (hb : b ≤ 1) (hc : c + b ≤ 1728) (now : Tick) :
    ∃ ph r', (World.tick now).run r = .ok (Summary.addPhase {} ph, r') ∧ ph ≠ .blocked ∧
      ph.isTransferred = decide (0 < a ∨ 0 < b) ∧
      ChestAt src snk H r' (a - min a 1) (min a 1) (c + b) (if 0 < a ∨ 0 < b then 8 else 0) := by
  obtain ⟨h, ph, r', hbl, hf, hrun, htr⟩ := hr.tick_run now
  have hsink : r.blockAt (sinkPos .chest) = .chest snk := by rw [Realm.blockAt, hbl]; rfl
  obtain ⟨r₁, hins, hb₁, hs₁⟩ := hr.stocked.insert hf.facing hf.inventory hsink hb hc
  have hsrc : r₁.blockAt sourcePos = .chest src := by rw [Realm.blockAt, hb₁, hbl]; rfl
  obtain ⟨r₂, hext, hb₂, hs₂⟩ := hs₁.extract hf.inventory hsrc
  refine ⟨ph, r', hrun, ?_⟩
  cases htr with
  | coolingDown htc hcc hcool =>
    rw [hf.transfer] at htc
    rw [hf.collect] at hcc
    omega
  | blocked _ hpow =>
    rw [hf.unpowered] at hpow
    cases hpow
  | idle _ _ hins' hext' =>
    rw [hins] at hins'
    obtain ⟨hb0, rfl⟩ := Prod.mk.inj (Except.ok.inj hins')
    rw [hext] at hext'
    obtain ⟨ha0, rfl⟩ := Prod.mk.inj (Except.ok.inj hext')
    have ha : a = 0 := by simpa using ha0
    have hb' : b = 0 := by simpa using hb0
    subst ha hb'
    exact ⟨(by intro h; cases h), rfl, ⟨h, hb₂.trans (hb₁.trans hbl), hf⟩, hs₂⟩
  | transferred _ _ hins' hext' hmoved =>
    rw [hins] at hins'
    obtain ⟨rfl, rfl⟩ := Prod.mk.inj (Except.ok.inj hins')
    rw [hext] at hext'
    obtain ⟨rfl, rfl⟩ := Prod.mk.inj (Except.ok.inj hext')
    have hmv : 0 < a ∨ 0 < b := by
      simp only [Bool.or_eq_true, decide_eq_true_eq] at hmoved
      omega
    refine ⟨(by intro h; cases h), by simp [Phase.isTransferred, hmv],
      ⟨_, by rw [hb₂, hb₁, hbl, chestMap_set_hopper], ?_⟩,
      hs₂.withBlocks _⟩
    rw [if_pos hmv]
    exact ⟨hf.facing, hf.unpowered, hf.inventory, Hopper.cooldownTicks_toInt, Hopper.cooldownTicks_toInt⟩

end ChestAt

/-! The chest layout tick by tick. From a source of `n` units, the hopper pulls its first unit at
tick 1 and rests eight ticks after each transfer, so it is due at ticks 1, 10, 19, and so on; at
each it pushes the unit it pulled nine ticks before and pulls the next, until the source is empty
and one last push empties the hopper. -/

/-- Units pulled from a source of `n` after `t` ticks: one at each tick `1 + 9 * j`, while the
source lasts. -/
def pulledBy (n t : Nat) : Nat := min n ((t + 8) / 9)

/-- Units pushed into the sink after `t` ticks: each pulled unit, nine ticks after its pull. -/
def pushedBy (n t : Nat) : Nat := min n ((t - 1) / 9)

/-- The hopper's rest after `t` ticks: counting down from eight after each transfer. -/
def restAfter (n t : Nat) : Nat := if 0 < n ∧ 1 ≤ t ∧ (t - 1) / 9 ≤ n then 8 - (t - 1) % 9 else 0

/-- Whether tick `t` moves a unit: ticks `1 + 9 * j` for `j` up to `n`, the last of them only
pushing. -/
def movesAt (n t : Nat) : Bool := decide (0 < n ∧ 1 ≤ t ∧ (t - 1) % 9 = 0 ∧ (t - 1) / 9 ≤ n)

/-- Ticks among the first `t` that move a unit. -/
def transfersBy (n t : Nat) : Nat := if n = 0 then 0 else min (n + 1) ((t + 8) / 9)

/-- The chest layout after `t` ticks from a source of `n` units. -/
def ChestAt.After (src snk : Chest) (H : InventoryId) (r : Realm) (n t : Nat) : Prop :=
  ChestAt src snk H r (n - pulledBy n t) (pulledBy n t - pushedBy n t) (pushedBy n t) (restAfter n t)

theorem closed_at {n t q ρ : Nat} (ht : t = 9 * q + ρ + 1) (hρ : ρ < 9) :
    pulledBy n t = min n (q + 1) ∧ pushedBy n t = min n q ∧
      restAfter n t = (if 0 < n ∧ q ≤ n then 8 - ρ else 0) ∧
      movesAt n t = decide (0 < n ∧ ρ = 0 ∧ q ≤ n) := by
  subst ht
  have hq : (9 * q + ρ + 1 - 1) / 9 = q := by omega
  have hr : (9 * q + ρ + 1 - 1) % 9 = ρ := by omega
  have hq' : (9 * q + ρ + 1 + 8) / 9 = q + 1 := by omega
  simp only [pulledBy, pushedBy, restAfter, movesAt, hq, hr, hq', true_and, and_true,
    Nat.le_add_left]

theorem closed_zero (n : Nat) : pulledBy n 0 = 0 ∧ pushedBy n 0 = 0 ∧ restAfter n 0 = 0 := by
  simp [pulledBy, pushedBy, restAfter]

theorem exists_cycle {t : Nat} (ht : 0 < t) : ∃ q ρ, t = 9 * q + ρ + 1 ∧ ρ < 9 :=
  ⟨(t - 1) / 9, (t - 1) % 9, by omega, Nat.mod_lt _ (by omega)⟩

theorem closed_of_rest {n t k : Nat} (hk : restAfter n t = k + 1) :
    pulledBy n (t + 1) = pulledBy n t ∧ pushedBy n (t + 1) = pushedBy n t ∧
      restAfter n (t + 1) = k ∧ movesAt n (t + 1) = false := by
  rcases Nat.eq_zero_or_pos t with rfl | ht
  · rw [(closed_zero n).2.2] at hk
    omega
  -- only a tick of a cycle that moved has rest left, and the next tick is in the same cycle
  obtain ⟨q, ρ, rfl, hρ⟩ := exists_cycle ht
  obtain ⟨p₁, s₁, r₁, -⟩ := closed_at (n := n) rfl hρ
  rw [r₁] at hk
  have hmoved : 0 < n ∧ q ≤ n ∧ ρ < 8 := by split at hk <;> omega
  obtain ⟨p₂, s₂, r₂, m₂⟩ :=
    closed_at (n := n) (t := 9 * q + ρ + 1 + 1) (q := q) (ρ := ρ + 1) (by omega) (by omega)
  rw [if_pos ⟨hmoved.1, hmoved.2.1⟩] at hk
  refine ⟨p₂.trans p₁.symm, s₂.trans s₁.symm, ?_, ?_⟩
  · rw [r₂, if_pos ⟨hmoved.1, hmoved.2.1⟩]
    omega
  · rw [m₂]
    simp

/-- A due tick moves a unit exactly when the source or the hopper holds one: the hopper holds at
most one, pushes it, and pulls the next. -/
theorem closed_of_due {n t a b c : Nat} (hk : restAfter n t = 0) (ha : a = n - pulledBy n t)
    (hb : b = pulledBy n t - pushedBy n t) (hc : c = pushedBy n t) :
    b ≤ 1 ∧ c + b ≤ n ∧ n - pulledBy n (t + 1) = a - min a 1 ∧
      pulledBy n (t + 1) - pushedBy n (t + 1) = min a 1 ∧ pushedBy n (t + 1) = c + b ∧
      restAfter n (t + 1) = (if 0 < a ∨ 0 < b then 8 else 0) ∧
      movesAt n (t + 1) = decide (0 < a ∨ 0 < b) := by
  subst ha hb hc
  rcases Nat.eq_zero_or_pos t with rfl | ht
  · obtain ⟨p₀, s₀, -⟩ := closed_zero n
    obtain ⟨p₁, s₁, r₁, m₁⟩ := closed_at (n := n) (q := 0) (ρ := 0) rfl (by omega)
    rw [p₀, s₀, p₁, s₁, r₁, m₁]
    simp only [decide_eq_decide, true_and]
    refine ⟨by omega, by omega, by omega, by omega, by omega, ?_, by omega⟩
    split <;> split <;> omega
  obtain ⟨q, ρ, rfl, hρ⟩ := exists_cycle ht
  obtain ⟨p₁, s₁, r₁, -⟩ := closed_at (n := n) rfl hρ
  rw [p₁, s₁]
  by_cases h8 : ρ = 8
  · -- the last tick of a cycle: the next one starts cycle `q + 1`
    subst h8
    obtain ⟨p₂, s₂, r₂, m₂⟩ :=
      closed_at (n := n) (t := 9 * q + 8 + 1 + 1) (q := q + 1) (ρ := 0) (by omega) (by omega)
    rw [p₂, s₂, r₂, m₂]
    simp only [decide_eq_decide, true_and]
    refine ⟨by omega, by omega, by omega, by omega, by omega, ?_, by omega⟩
    split <;> split <;> omega
  · -- inside a cycle the rest is spent only once the source has run dry
    have hidle : ¬(0 < n ∧ q ≤ n) := by
      intro hm
      rw [r₁, if_pos hm] at hk
      omega
    obtain ⟨p₂, s₂, r₂, m₂⟩ :=
      closed_at (n := n) (t := 9 * q + ρ + 1 + 1) (q := q) (ρ := ρ + 1) (by omega) (by omega)
    rw [p₂, s₂, r₂, m₂, if_neg hidle]
    simp only [decide_eq_decide]
    refine ⟨by omega, by omega, by omega, by omega, by omega, ?_, by omega⟩
    split <;> omega

namespace ChestAt.After

variable {src snk : Chest} {H : InventoryId} {r : Realm} {n t : Nat}

/-- One tick from the chest layout's state after `t` ticks leads to its state after `t + 1`,
moving a unit exactly at the ticks `movesAt` names, and never blocked. -/
theorem step (hn : n ≤ 1728) (hr : ChestAt.After src snk H r n t) (now : Tick) :
    ∃ ph r', (World.tick now).run r = .ok (Summary.addPhase {} ph, r') ∧ ph ≠ .blocked ∧
      ph.isTransferred = movesAt n (t + 1) ∧ ChestAt.After src snk H r' n (t + 1) := by
  unfold ChestAt.After at *
  cases hk : restAfter n t with
  | succ k =>
    obtain ⟨hp, hq, hk', hm⟩ := closed_of_rest hk
    rw [hk] at hr
    obtain ⟨r', hrun, hr'⟩ := hr.cool now
    refine ⟨.coolingDown, r', hrun, (by intro h; cases h), by rw [hm]; rfl, ?_⟩
    rw [hp, hq, hk']
    exact hr'
  | zero =>
    obtain ⟨hb1, hcb, ha', hb', hc', hk', hm⟩ := closed_of_due hk rfl rfl rfl
    rw [hk] at hr
    obtain ⟨ph, r', hrun, hne, htr, hr'⟩ := hr.due hb1 (by omega) now
    refine ⟨ph, r', hrun, hne, by rw [htr, hm], ?_⟩
    rw [ha', hb', hc', hk']
    exact hr'

end ChestAt.After

def movedSummary : Summary := { hoppers := 1, transfers := 1 }

/-- The event-log lines of the chest layout's first `t` ticks from a source of `n` units: one
for each moving tick `1 + 9 * j`. -/
def eventLines (n t : Nat) : List String :=
  (List.range (transfersBy n t)).map fun j => eventLine (1 + 9 * j) movedSummary

theorem transfersBy_succ (n t : Nat) :
    transfersBy n (t + 1) = transfersBy n t + (if movesAt n (t + 1) then 1 else 0) ∧
      (movesAt n (t + 1) = true → 1 + 9 * transfersBy n t = t + 1) := by
  unfold transfersBy movesAt
  constructor
  · split <;> split <;> simp_all <;> omega
  · intro h
    simp only [decide_eq_true_eq] at h
    rw [if_neg (by omega)]
    omega

theorem eventLines_succ (n t : Nat) :
    eventLines n (t + 1) =
      eventLines n t ++ (if movesAt n (t + 1) then [eventLine (t + 1) movedSummary] else []) := by
  obtain ⟨hsucc, htick⟩ := transfersBy_succ n t
  unfold eventLines
  rw [hsucc]
  split
  · next hm => rw [List.range_succ, List.map_append, List.map_singleton, htick hm]
  · simp

namespace Summary

theorem addPhase_of_ne_blocked {ph : Phase} (hne : ph ≠ .blocked) :
    (Summary.addPhase {} ph).blocked = 0 ∧
      (Summary.addPhase {} ph).transfers = (if ph.isTransferred then 1 else 0) ∧
      (ph.isTransferred = true → Summary.addPhase {} ph = movedSummary) := by
  cases ph with
  | blocked => exact absurd rfl hne
  | idle | coolingDown => exact ⟨rfl, rfl, fun h => by cases h⟩
  | transferred => exact ⟨rfl, rfl, fun _ => rfl⟩

end Summary

/-- The ticks of the chest layout from its state after `t` ticks: `m` more ticks count the moving
ticks among the first `t + m`, log one line for each, and leave the state after `t + m`. -/
theorem ticks_after {src snk : Chest} {H : InventoryId} {n : Nat} (hn : n ≤ 1728) :
    ∀ (m t : Nat) (r : Realm) (rep : RunReport) (log : Array String),
      ChestAt.After src snk H r n t → rep.transfers = transfersBy n t → rep.blocked = 0 →
      log.toList = eventLines n t →
      ∃ r' log', (ticks m (t + 1) (rep, log)).run r =
          .ok (({ rep with transfers := transfersBy n (t + m) }, log'), r') ∧
        log'.toList = eventLines n (t + m) ∧ ChestAt.After src snk H r' n (t + m)
  | 0, t, r, rep, log, hr, htr, _, hlog => ⟨r, log, by simp only [Nat.add_zero, ← htr]; rfl, hlog, hr⟩
  | m + 1, t, r, rep, log, hr, htr, hbl, hlog => by
    obtain ⟨ph, r₁, hrun, hne, hmv, hr₁⟩ := hr.step hn ⟨(t + 1).toUInt64⟩
    obtain ⟨hbl₁, htr₁, hmoved⟩ := Summary.addPhase_of_ne_blocked hne
    obtain ⟨hsucc, -⟩ := transfersBy_succ n t
    have hlog₁ : (if (Summary.addPhase {} ph).transfers > 0 then
        log.push (eventLine (t + 1) (Summary.addPhase {} ph)) else log).toList = eventLines n (t + 1) := by
      rw [eventLines_succ, ← hlog, htr₁, ← hmv]
      cases htp : ph.isTransferred
      · simp
      · simp [hmoved htp]
    -- the totals and the log after this tick are those of the state after `t + 1`
    obtain ⟨r', log', hrun', hlog', hr'⟩ := ticks_after hn m (t + 1) r₁
      { rep with
        transfers := rep.transfers + (Summary.addPhase {} ph).transfers
        blocked := rep.blocked + (Summary.addPhase {} ph).blocked } _ hr₁
      (by simp only [htr, htr₁, hsucc, hmv]) (by simp only [hbl, hbl₁]) hlog₁
    have ht : t + 1 + m = t + (m + 1) := by omega
    rw [ht] at hlog' hr' hrun'
    refine ⟨r', log', ?_, hlog', hr'⟩
    rw [ticks, run_bind_ok hrun]
    rw [hrun']
    simp only [hbl₁, Nat.add_zero]

end Layout

end ItemFlow
