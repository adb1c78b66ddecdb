import ItemFlow.Proofs.Tick.Frame
/-! Furnace ticks and the economy of smelting. A furnace tick lights a unit of fuel only when
nothing burns and a smelt is possible, burns one tick of its fuel, and moves its cook counter one
step toward a smelt, completing it at the smelt time. Every tick that burns moves the burn
counter, so a tick that reports no change has changed nothing, not even a slot.

Main statements: one furnace tick publishes exactly when a counter changed, takes at most one
fuel unit and completes at most one smelt; and over any run of a furnace's ticks among hopper
pushes and pulls, smelts are paid for by burning ticks with a smelt in reach, and burning ticks
by the burn time of the fuel lit. -/
namespace ItemFlow
open Act Furnace

theorem ItemKind.one_lt_burnTicks {k : ItemKind} (h : 0 < k.burnTicks) : 1 < k.burnTicks := by
  revert h
  unfold ItemKind.burnTicks
  split <;> decide

theorem Stack.shrink_ne_some (e : Stack) : e.shrink ≠ some e := by
  intro h
  have := Stack.count_of_shrink h
  omega

@[simp] theorem Realm.slotsOf_withBlocks (r : Realm) (b : BlockMap) (i : InventoryId) :
    Realm.slotsOf { r with blocks := b } i = r.slotsOf i := rfl

theorem Furnace.smeltTarget_oneMore {s : Slots} {out : Stack} (h : smeltTarget s = some out) :
    ∃ input k, s[inputSlot]? = some (some input) ∧ input.kind.smeltOutput? = some k ∧
      s.OneMore outputSlot (Stack.new k 1) (some out) := by
  unfold smeltTarget at h
  obtain ⟨input, hin, h⟩ := Option.bind_eq_some_iff.mp h
  obtain ⟨k, hk, h⟩ := Option.bind_eq_some_iff.mp h
  refine ⟨input, k, Option.join_eq_some_iff.mp hin, hk, ?_⟩
  dsimp only at h
  split at h
  · cases h
  · next hout => exact .inl ⟨hout, by rw [← h]; rfl⟩
  · next e hout =>
    split at h
    · next hc => exact .inr ⟨e, hout, hc.1, hc.2, h.symm⟩
    · cases h

namespace Slots

/-- The slot edits one furnace tick may make: its fuel slot as it was or one unit fewer, and its
input and output slots as they were or one smelt further, which takes one input unit and grows
the output slot by one unit of the recipe output of the input's kind. No other slot changes. -/
structure TickEdit (s s' : Slots) : Prop where
  size : s'.size = s.size
  other : ∀ k, k ≠ inputSlot → k ≠ fuelSlot → k ≠ outputSlot → s'[k]? = s[k]?
  fuel : s'[fuelSlot]? = s[fuelSlot]? ∨ ∃ c, s.OneLess fuelSlot c ∧ s'[fuelSlot]? = some c
  smelt : s'[inputSlot]? = s[inputSlot]? ∧ s'[outputSlot]? = s[outputSlot]? ∨
    ∃ input k c, s[inputSlot]? = some (some input) ∧ input.kind.smeltOutput? = some k ∧
      s'[inputSlot]? = some input.shrink ∧ s.OneMore outputSlot (Stack.new k 1) c ∧
      s'[outputSlot]? = some c

theorem tickEdit_of {s s₁ s' : Slots}
    (hfuel : s₁ = s ∨ ∃ fuel, s[fuelSlot]? = some (some fuel) ∧ s₁ = s.set! fuelSlot fuel.shrink)
    (hsmelt : s' = s₁ ∨ ∃ input out, s[inputSlot]? = some (some input) ∧ smeltTarget s = some out ∧
      s' = (s₁.set! inputSlot input.shrink).set! outputSlot (some out)) :
    s.TickEdit s' := by
  -- the fuel write touches only the fuel slot, so the smelt reads the input and output of `s`
  have hfuel' : s₁.size = s.size ∧ (∀ k, k ≠ fuelSlot → s₁[k]? = s[k]?) ∧
      (s₁[fuelSlot]? = s[fuelSlot]? ∨ ∃ c, s.OneLess fuelSlot c ∧ s₁[fuelSlot]? = some c) := by
    rcases hfuel with rfl | ⟨fuel, hf, rfl⟩
    · exact ⟨rfl, fun _ _ => rfl, .inl rfl⟩
    · have hlt : fuelSlot < s.size := (Array.getElem?_eq_some_iff.mp hf).1
      refine ⟨by simp, fun k hk => ?_, .inr ⟨_, ⟨fuel, hf, rfl⟩, ?_⟩⟩
      · simp [Array.set!_eq_setIfInBounds, Ne.symm hk]
      · simp [Array.set!_eq_setIfInBounds, hlt]
  obtain ⟨hsize, hkeep, hfuelSlot⟩ := hfuel'
  rcases hsmelt with rfl | ⟨input, out, hin, hout, rfl⟩
  · refine ⟨hsize, fun k _ hk _ => hkeep k hk, hfuelSlot, .inl ⟨hkeep _ (by decide), hkeep _ (by decide)⟩⟩
  · obtain ⟨input', k, hin', hk, hmore⟩ := Furnace.smeltTarget_oneMore hout
    obtain rfl : input = input' := by simpa [hin] using hin'
    have hinlt : inputSlot < s₁.size := hsize ▸ (Array.getElem?_eq_some_iff.mp hin).1
    have houtlt : outputSlot < s₁.size := by
      obtain ⟨h, -⟩ | ⟨e, h, -⟩ := hmore <;> exact hsize ▸ (Array.getElem?_eq_some_iff.mp h).1
    refine ⟨by simp [hsize], fun j hj hf ho => ?_, ?_, .inr ⟨input, k, _, hin, hk, ?_, hmore, ?_⟩⟩
    · simp [Array.set!_eq_setIfInBounds, Ne.symm hj, Ne.symm ho, hkeep j hf]
    · simpa [Array.set!_eq_setIfInBounds, Array.getElem?_setIfInBounds, inputSlot, fuelSlot, outputSlot]
        using hfuelSlot
    · have hio : outputSlot ≠ inputSlot := by decide
      simp [Array.set!_eq_setIfInBounds, hio, hinlt]
    · simp [Array.set!_eq_setIfInBounds, houtlt]

end Slots

namespace Furnace
variable {f : Furnace} {r r₁ r₂ r' : Realm}

theorem lit_toNat (s : Slots) :
    (f.lit s).toNat = f.burn.toNat + ((f.litFuel s).map (·.kind.burnTicks.toNat)).getD 0 := by
  unfold lit
  cases hfuel : f.litFuel s with
  | none => simp
  | some fuel => simp [(litFuel_eq_some_iff.mp hfuel).1]

/-- A furnace burning this tick stores a burn counter other than the one it had: a unit just lit
burns for more than one tick, and a burning unit burns down by one. -/
theorem lit_sub_one_ne {s : Slots} (h : 0 < f.lit s) : f.lit s - 1 ≠ f.burn := by
  intro heq
  have hpos : 0 < (f.lit s).toNat := by simpa [UInt32.lt_iff_toNat_lt] using h
  have hsub := congrArg UInt32.toNat heq
  rw [UInt32.toNat_sub_one hpos, lit_toNat] at hsub
  rw [lit_toNat] at hpos
  cases hfuel : f.litFuel s with
  | none =>
    simp only [hfuel, Option.map_none, Option.getD_none, Nat.add_zero] at hsub hpos
    omega
  | some fuel =>
    obtain ⟨hburn, -, -, hticks⟩ := litFuel_eq_some_iff.mp hfuel
    have hgt := UInt32.lt_iff_toNat_lt.mp (ItemKind.one_lt_burnTicks hticks)
    simp only [hfuel, hburn, Option.map_some, Option.getD_some, UInt32.toNat_zero,
      UInt32.toNat_one] at hsub hgt
    omega

theorem litFuel_of_lit_eq_zero {s : Slots} (h : f.lit s = 0) : f.litFuel s = none ∧ f.burn = 0 := by
  unfold lit at h
  cases hfuel : f.litFuel s with
  | none =>
    rw [hfuel] at h
    exact ⟨rfl, h⟩
  | some fuel =>
    rw [hfuel] at h
    dsimp only at h
    have := (litFuel_eq_some_iff.mp hfuel).2.2.2
    rw [h] at this
    cases this

theorem cooked_isSome {s : Slots} :
    (f.cooked s).isSome ↔ (smeltTarget s).isSome ∧ ItemKind.smeltTicks.toNat ≤ f.cook.toNat + 1 := by
  unfold cooked
  split
  · next hc =>
    refine iff_of_true ?_ hc
    obtain ⟨out, hout⟩ := Option.isSome_iff_exists.mp hc.1
    obtain ⟨⟨input, hin, hsm⟩, -⟩ := smeltTarget_spec hout
    simp [smeltOf, hin, hsm]
  · next hc => exact iff_of_false (by simp) hc

theorem publish_run {pos : Pos} {burn cook : UInt32} {b : Bool}
    (h : (f.publish pos burn cook).run r = .ok (b, r')) :
    b = (burn != f.burn || cook != f.cook) ∧
      r' = if b then { r with blocks := r.blocks.set pos (.furnace { f with burn, cook }) } else r := by
  unfold publish at h
  dsimp only at h
  split at h
  · next hb =>
    rw [run_bind_ok (run_setBlock _ _)] at h
    obtain ⟨rfl, rfl⟩ := pure_run_ok h
    exact ⟨rfl, by rw [if_pos hb]⟩
  · next hb =>
    obtain ⟨rfl, rfl⟩ := pure_run_ok h
    simp only [Bool.not_eq_true] at hb
    exact ⟨rfl, by rw [hb, if_neg Bool.false_ne_true]⟩

theorem cookStep_slots {s : Slots} {c : UInt32}
    (hslots : ∀ k, k ≠ fuelSlot → (r₁.slotsOf f.inventory)[k]? = s[k]?)
    (h : (f.cookStep (smeltTarget s)).run r₁ = .ok (c, r₂)) :
    r₂.blocks = r₁.blocks ∧ (∀ j, j ≠ f.inventory → r₂.slotsOf j = r₁.slotsOf j) ∧
      c.toNat = (if (smeltTarget s).isSome ∧ f.cook.toNat + 1 < ItemKind.smeltTicks.toNat
        then f.cook.toNat + 1 else 0) ∧
      if (f.cooked s).isSome then
        ∃ input out, s[inputSlot]? = some (some input) ∧ smeltTarget s = some out ∧
          r₂.slotsOf f.inventory =
            ((r₁.slotsOf f.inventory).set! inputSlot input.shrink).set! outputSlot (some out)
      else r₂.slotsOf f.inventory = r₁.slotsOf f.inventory := by
  obtain ⟨hc, ⟨hnone, rfl⟩ | ⟨input, out, hcooked, hin, ht, rfl⟩⟩ := cookStep_run hslots h
  · exact ⟨rfl, fun _ _ => rfl, hc, by simp [hnone]⟩
  · refine ⟨by simp, fun j hj => slotsOf_afterSmelt_of_ne hj _ _, hc, ?_⟩
    rw [if_pos (by simp [hcooked])]
    exact ⟨input, out, hin, ht, slotsOf_afterSmelt_self _ _⟩

/-- The slots once a furnace with slots `s` has lit: the fuel it lights loses a unit. -/
def litSlots (f : Furnace) (s : Slots) : Slots :=
  match f.litFuel s with
  | none => s
  | some fuel => s.set! fuelSlot fuel.shrink

theorem litSlots_cases (s : Slots) :
    f.litSlots s = s ∨ ∃ fuel, s[fuelSlot]? = some (some fuel) ∧ f.litSlots s = s.set! fuelSlot fuel.shrink := by
  unfold litSlots
  cases hfuel : f.litFuel s with
  | none => exact .inl rfl
  | some fuel => exact .inr ⟨fuel, (litFuel_eq_some_iff.mp hfuel).2.2.1, rfl⟩

theorem litSlots_getElem?_of_ne {s : Slots} {k : Nat} (hk : k ≠ fuelSlot) : (f.litSlots s)[k]? = s[k]? := by
  rcases litSlots_cases (f := f) s with h | ⟨fuel, -, h⟩ <;> rw [h]
  simp [Array.set!_eq_setIfInBounds, Ne.symm hk]

theorem slotsOf_ignite {b : UInt32}
    (h : (f.ignite (smeltTarget (r.slotsOf f.inventory))).run r = .ok (b, r₁)) :
    r₁.blocks = r.blocks ∧ (∀ j, j ≠ f.inventory → r₁.slotsOf j = r.slotsOf j) ∧
      r₁.slotsOf f.inventory = f.litSlots (r.slotsOf f.inventory) := by
  rcases ignite_run h with ⟨hnone, -, rfl⟩ | ⟨fuel, hsome, -, -, rfl⟩
  · exact ⟨rfl, fun _ _ => rfl, by rw [litSlots, hnone]⟩
  · exact ⟨by simp, fun j hj => Realm.slotsOf_applyEdit_of_ne (Ne.symm hj) _,
      by rw [Realm.slotsOf_applyEdit_set_self, litSlots, hsome]⟩

/-- One furnace tick, read from the realm it starts in. It stores the lit counter less one and the
cook counter after one step, and stores the furnace exactly when one of them changed, so a tick
that reports no change changed nothing. Its slot writes are the unit of fuel it lights and, when it
burns and the cook counter reaches the smelt time, the smelt it completes. -/
theorem tick_run {pos : Pos} {b : Bool} (h : (f.tick pos).run r = .ok (b, r')) :
    ∃ burn cook : UInt32,
      burn.toNat = (f.lit (r.slotsOf f.inventory)).toNat - 1 ∧
      cook.toNat = (if 0 < f.lit (r.slotsOf f.inventory) ∧ (smeltTarget (r.slotsOf f.inventory)).isSome ∧
          f.cook.toNat + 1 < ItemKind.smeltTicks.toNat then f.cook.toNat + 1 else 0) ∧
      b = (burn != f.burn || cook != f.cook) ∧
      r'.blocks = (if b then r.blocks.set pos (.furnace { f with burn, cook }) else r.blocks) ∧
      (b = false → r' = r) ∧
      (∀ j, j ≠ f.inventory → r'.slotsOf j = r.slotsOf j) ∧
      if 0 < f.lit (r.slotsOf f.inventory) ∧ (f.cooked (r.slotsOf f.inventory)).isSome then
        ∃ input out, (r.slotsOf f.inventory)[inputSlot]? = some (some input) ∧
          smeltTarget (r.slotsOf f.inventory) = some out ∧
          r'.slotsOf f.inventory =
            ((f.litSlots (r.slotsOf f.inventory)).set! inputSlot input.shrink).set! outputSlot (some out)
      else r'.slotsOf f.inventory = f.litSlots (r.slotsOf f.inventory) := by
  unfold tick at h
  rw [run_slotsOf_bind] at h
  obtain ⟨lit, r₁, hign, h⟩ := bind_run_ok h
  obtain ⟨hb₁, hframe₁, hs₁⟩ := slotsOf_ignite hign
  obtain ⟨rfl, -⟩ := ignite_lit hign
  split at h
  · next hburn =>
    obtain ⟨c, r₂, hcook, h⟩ := bind_run_ok h
    have hslots : ∀ k, k ≠ fuelSlot → (r₁.slotsOf f.inventory)[k]? = (r.slotsOf f.inventory)[k]? :=
      fun k hk => hs₁ ▸ litSlots_getElem?_of_ne hk
    obtain ⟨hb₂, hframe₂, hc, hsmelt⟩ := cookStep_slots hslots hcook
    obtain ⟨rfl, rfl⟩ := publish_run h
    have hpos : 0 < (f.lit (r.slotsOf f.inventory)).toNat := by
      simpa [UInt32.lt_iff_toNat_lt] using hburn
    have hchanged : (f.lit (r.slotsOf f.inventory) - 1 != f.burn || c != f.cook) = true := by
      simp [lit_sub_one_ne hburn]
    refine ⟨_, c, UInt32.toNat_sub_one hpos, ?_, rfl, ?_, ?_, ?_, ?_⟩
    · simpa [hburn] using hc
    · rw [if_pos hchanged, if_pos hchanged, hb₂, hb₁]
    · intro hfalse
      rw [hchanged] at hfalse
      cases hfalse
    · intro j hj
      rw [if_pos hchanged]
      exact (hframe₂ j hj).trans (hframe₁ j hj)
    · rw [if_pos hchanged, ← hs₁]
      simpa [hburn] using hsmelt
  · next hburn =>
    have hlit : f.lit (r.slotsOf f.inventory) = 0 := by
      apply UInt32.toNat_inj.mp
      simpa [UInt32.lt_iff_toNat_lt] using hburn
    obtain ⟨hnone, -⟩ := litFuel_of_lit_eq_zero hlit
    have hr₁ : r₁ = r := by
      rcases ignite_run hign with ⟨-, -, rfl⟩ | ⟨fuel, hsome, -⟩
      · rfl
      · rw [hnone] at hsome
        cases hsome
    subst hr₁
    obtain ⟨rfl, rfl⟩ := publish_run h
    refine ⟨_, 0, by simp [hlit], by simp [hlit], rfl, ?_, fun hfalse => by rw [if_neg (by simp [hfalse])],
      fun j _ => ?_, ?_⟩
    · split <;> rfl
    · split <;> rfl
    · rw [if_neg (by simp [hlit])]
      unfold litSlots
      rw [hnone]
      split <;> rfl

theorem litSlots_fuelSlot_ne {s : Slots} : (f.litSlots s)[fuelSlot]? ≠ s[fuelSlot]? ↔ (f.litFuel s).isSome := by
  unfold litSlots
  cases hfuel : f.litFuel s with
  | none => simp
  | some fuel =>
    have hslot := (litFuel_eq_some_iff.mp hfuel).2.2.1
    have hlt : fuelSlot < s.size := (Array.getElem?_eq_some_iff.mp hslot).1
    have hget : s[fuelSlot] = some fuel := by
      rw [Array.getElem?_eq_getElem hlt] at hslot
      exact Option.some.inj hslot
    simpa [Array.set!_eq_setIfInBounds, hlt, hget] using Stack.shrink_ne_some fuel

/-- What one furnace tick did, read from its furnace and slots `s` before the tick and its slots
`s'` after: whether nothing burned as it started, whether a smelt was in reach, whether it
burned, whether it took fuel, the burn time of what the fuel slot held, and whether it took
input. -/
structure Entry where
  cold : Bool
  aimed : Bool
  burned : Bool
  lit : Bool
  fuel : Nat
  smelted : Bool
deriving DecidableEq, Repr

/-- A tick that burned with a smelt in reach: one that moves the cook counter. -/
def Entry.fed (e : Entry) : Bool := e.burned && e.aimed

theorem Entry.countP_cons (p : Entry → Bool) (e : Entry) (L : List Entry) :
    (e :: L).countP p = (p e).toNat + L.countP p := by
  rw [List.countP_cons, Nat.add_comm]
  cases p e <;> rfl

theorem Entry.sum_fuel_cons (e : Entry) (L : List Entry) :
    (((e :: L).filter (·.lit)).map (·.fuel)).sum =
      (if e.lit then e.fuel else 0) + ((L.filter (·.lit)).map (·.fuel)).sum := by
  cases h : e.lit <;> simp [h]

def entry (f : Furnace) (s s' : Slots) : Entry where
  cold := f.burn == 0
  aimed := (smeltTarget s).isSome
  burned := decide (0 < f.lit s)
  lit := s'[fuelSlot]? != s[fuelSlot]?
  fuel := ((s[fuelSlot]?).join.map (·.kind.burnTicks.toNat)).getD 0
  smelted := s'[inputSlot]? != s[inputSlot]?

theorem tick_fuel_input {pos : Pos} {b : Bool} (h : (f.tick pos).run r = .ok (b, r')) :
    (r'.slotsOf f.inventory)[fuelSlot]? = (f.litSlots (r.slotsOf f.inventory))[fuelSlot]? ∧
      ((r'.slotsOf f.inventory)[inputSlot]? ≠ (r.slotsOf f.inventory)[inputSlot]? ↔
        0 < f.lit (r.slotsOf f.inventory) ∧ (f.cooked (r.slotsOf f.inventory)).isSome) := by
  obtain ⟨-, -, -, -, -, -, -, -, hslots⟩ := tick_run h
  split at hslots
  · next hsmelt =>
    obtain ⟨input, out, hin, -, heq⟩ := hslots
    have hlt : inputSlot < (f.litSlots (r.slotsOf f.inventory)).size := by
      have hkeep := litSlots_getElem?_of_ne (f := f) (s := r.slotsOf f.inventory)
        (show inputSlot ≠ fuelSlot by decide)
      exact (Array.getElem?_eq_some_iff.mp (hkeep.trans hin)).1
    have hio : outputSlot ≠ inputSlot := by decide
    refine ⟨by simp [heq, Array.set!_eq_setIfInBounds, inputSlot, fuelSlot, outputSlot],
      iff_of_true ?_ hsmelt⟩
    rw [hin, heq]
    simpa [Array.set!_eq_setIfInBounds, hio, hlt] using Stack.shrink_ne_some input
  · next hsmelt =>
    refine ⟨by rw [hslots], iff_of_false ?_ hsmelt⟩
    rw [hslots, litSlots_getElem?_of_ne (by decide)]
    exact fun hne => hne rfl

theorem entry_tick {pos : Pos} {b : Bool} (h : (f.tick pos).run r = .ok (b, r')) :
    (f.entry (r.slotsOf f.inventory) (r'.slotsOf f.inventory)).lit =
        (f.litFuel (r.slotsOf f.inventory)).isSome ∧
      (f.entry (r.slotsOf f.inventory) (r'.slotsOf f.inventory)).smelted =
        decide (0 < f.lit (r.slotsOf f.inventory) ∧ (f.cooked (r.slotsOf f.inventory)).isSome) := by
  obtain ⟨hfuel, hinput⟩ := tick_fuel_input h
  refine ⟨?_, ?_⟩
  · simp only [entry, hfuel]
    exact Bool.eq_iff_iff.mpr (by simpa [bne_iff_ne] using litSlots_fuelSlot_ne)
  · simp only [entry]
    exact Bool.eq_iff_iff.mpr (by rw [bne_iff_ne, decide_eq_true_iff]; exact hinput)

theorem tick_stores {pos : Pos} {b : Bool} (hpos : r.blockAt pos = .furnace f)
    (h : (f.tick pos).run r = .ok (b, r')) :
    ∃ burn cook : UInt32, r'.blockAt pos = .furnace { f with burn, cook } ∧
      burn.toNat = (f.lit (r.slotsOf f.inventory)).toNat - 1 ∧
      cook.toNat = (if 0 < f.lit (r.slotsOf f.inventory) ∧ (smeltTarget (r.slotsOf f.inventory)).isSome ∧
          f.cook.toNat + 1 < ItemKind.smeltTicks.toNat then f.cook.toNat + 1 else 0) := by
  obtain ⟨burn, cook, hburn, hcook, hb, hblocks, hsame, -, -⟩ := tick_run h
  refine ⟨burn, cook, ?_, hburn, hcook⟩
  cases b with
  | true =>
    rw [Realm.blockAt, hblocks, if_pos rfl]
    exact BlockMap.get_set_self _ _ (by intro hair; cases hair)
  | false =>
    rw [eq_comm, Bool.or_eq_false_iff, bne_eq_false_iff_eq, bne_eq_false_iff_eq] at hb
    obtain ⟨rfl, rfl⟩ := hb
    rw [hsame rfl, hpos]

theorem burned_add_burn {s : Slots} {burn : UInt32} (hburn : burn.toNat = (f.lit s).toNat - 1) :
    (decide (0 < f.lit s)).toNat + burn.toNat = (f.lit s).toNat := by
  by_cases hburns : 0 < f.lit s
  · have := UInt32.lt_iff_toNat_lt.mp hburns
    simp only [hburns, decide_true, Bool.toNat_true, UInt32.toNat_zero] at this ⊢
    omega
  · have : (f.lit s).toNat = 0 := by simpa [UInt32.lt_iff_toNat_lt] using hburns
    simp only [hburns, decide_false, Bool.toNat_false]
    omega

/-- The arithmetic of the cook counter: a fed step from `k` moves it to `k + 1`, or at the smelt
time completes a smelt and starts it again; any other step starts it again. -/
theorem cook_arith {k c : Nat} {fed : Prop} [Decidable fed]
    (hc : c = if fed ∧ k + 1 < 200 then k + 1 else 0) :
    200 * (decide (fed ∧ 200 ≤ k + 1)).toNat + c ≤ k + (decide fed).toNat ∧
      (fed → k < 200 → c = (k + 1) % 200 ∧ (decide (fed ∧ 200 ≤ k + 1)).toNat = (k + 1) / 200) := by
  by_cases hfed : fed
  · by_cases hdone : 200 ≤ k + 1
    · simp only [hfed, hdone, true_and, decide_true, Bool.toNat_true, if_neg (by omega : ¬k + 1 < 200)] at hc ⊢
      exact ⟨by omega, fun _ hk => ⟨by omega, by omega⟩⟩
    · simp only [hfed, hdone, true_and, decide_false, Bool.toNat_false, decide_true, Bool.toNat_true,
        if_pos (by omega : k + 1 < 200)] at hc ⊢
      exact ⟨by omega, fun _ _ => ⟨by omega, by omega⟩⟩
  · simp only [hfed, false_and, decide_false, Bool.toNat_false, if_false] at hc ⊢
    exact ⟨by omega, fun h => h.elim⟩

/-- How the entry `e` of one tick accounts for its move of the furnace from `f` to `f'`: a tick
that burns spends one tick of the lit counter, the cook counter moves only on a fed tick and
gives up the smelt time when a smelt completes, and fuel is lit only from a cold start with a
smelt in reach. -/
structure Entry.Accounts (e : Entry) (f f' : Furnace) : Prop where
  inventory : f'.inventory = f.inventory
  cook_lt : f'.cook < ItemKind.smeltTicks
  burn : e.burned.toNat + f'.burn.toNat = f.burn.toNat + (if e.lit then e.fuel else 0)
  cook : ItemKind.smeltTicks.toNat * e.smelted.toNat + f'.cook.toNat ≤ f.cook.toNat + e.fed.toNat
  cook_fed : e.fed = true → f.cook < ItemKind.smeltTicks →
    f'.cook.toNat = (f.cook.toNat + 1) % ItemKind.smeltTicks.toNat ∧
      e.smelted.toNat = (f.cook.toNat + 1) / ItemKind.smeltTicks.toNat
  lit : e.lit = true → e.cold = true ∧ e.aimed = true

theorem tick_accounts {pos : Pos} {b : Bool} (hpos : r.blockAt pos = .furnace f)
    (h : (f.tick pos).run r = .ok (b, r')) :
    ∃ f' : Furnace, r'.blockAt pos = .furnace f' ∧
      (f.entry (r.slotsOf f.inventory) (r'.slotsOf f.inventory)).Accounts f f' := by
  obtain ⟨burn, cook, hstored, hburn, hcook⟩ := tick_stores hpos h
  obtain ⟨hlit, hsmelted⟩ := entry_tick h
  set e := f.entry (r.slotsOf f.inventory) (r'.slotsOf f.inventory) with he
  have h200 : ItemKind.smeltTicks.toNat = 200 := rfl
  -- the fuel a tick takes is the unit it lights, burning for its burn time
  have hfuel : (if e.lit then e.fuel else 0) =
      ((f.litFuel (r.slotsOf f.inventory)).map (·.kind.burnTicks.toNat)).getD 0 := by
    rw [hlit]
    cases hl : f.litFuel (r.slotsOf f.inventory) with
    | none => rfl
    | some fuel => simp [e, entry, (litFuel_eq_some_iff.mp hl).2.2.1]
  -- the cook counter in the terms of its arithmetic, fed when it burns with a smelt in reach
  have hfed : e.fed = decide (0 < f.lit (r.slotsOf f.inventory) ∧ (smeltTarget (r.slotsOf f.inventory)).isSome) := by
    simp [e, Entry.fed, entry]
  have hsm : e.smelted = decide ((0 < f.lit (r.slotsOf f.inventory) ∧
      (smeltTarget (r.slotsOf f.inventory)).isSome) ∧ 200 ≤ f.cook.toNat + 1) := by
    rw [hsmelted, ← h200]
    simp only [cooked_isSome, and_assoc]
  have hck : cook.toNat = if (0 < f.lit (r.slotsOf f.inventory) ∧
      (smeltTarget (r.slotsOf f.inventory)).isSome) ∧ f.cook.toNat + 1 < 200 then f.cook.toNat + 1 else 0 := by
    rw [hcook, ← h200]
    simp only [and_assoc]
  obtain ⟨hle, hexact⟩ := cook_arith hck
  refine ⟨_, hstored, rfl, ?_, ?_, ?_, ?_, ?_⟩
  · show cook < ItemKind.smeltTicks
    rw [UInt32.lt_iff_toNat_lt, h200, hck]
    split <;> omega
  · show e.burned.toNat + burn.toNat = _
    rw [hfuel, ← lit_toNat]
    exact burned_add_burn hburn
  · rw [hsm, hfed, h200]
    exact hle
  · intro hfed' hlt
    rw [hfed, decide_eq_true_iff] at hfed'
    rw [UInt32.lt_iff_toNat_lt, h200] at hlt
    rw [hsm, h200]
    exact hexact hfed' hlt
  · intro hl
    rw [hlit, Option.isSome_iff_exists] at hl
    obtain ⟨fuel, hl⟩ := hl
    obtain ⟨hcold, haim, -⟩ := litFuel_eq_some_iff.mp hl
    exact ⟨by simp [e, entry, hcold], haim⟩

/-- What a furnace at a position meets between and in its ticks: its turn in a tick pass, or a
hopper pushing or pulling. -/
inductive Visit where
  | turn (now : Tick)
  | push (h : Hopper) (p : Pos)
  | pull (h : Hopper) (p : Pos)
deriving DecidableEq, Repr

namespace Visit

def run (pos : Pos) : Visit → Act Unit
  | turn now => do let _ ← World.turn now pos
  | push h p => do let _ ← h.insert p
  | pull h p => do let _ ← h.extract p

/-- The entry of a visit from `r` that left `r'`: one for a turn of the furnace at `pos`, none
for anything else. -/
def entryAt (pos : Pos) (v : Visit) (r r' : Realm) : List Entry :=
  match v, r.blockAt pos with
  | turn _, .furnace f => [f.entry (r.slotsOf f.inventory) (r'.slotsOf f.inventory)]
  | _, _ => []

/-- The entries of the furnace ticks along a run of visits, each read from the realms its visit
starts in and leaves. -/
def entriesAlong (pos : Pos) : List Visit → Realm → List Entry
  | [], _ => []
  | v :: vs, r =>
    match (v.run pos).run r with
    | .ok (_, r') => entryAt pos v r r' ++ entriesAlong pos vs r'
    | .error _ => []

variable {pos : Pos} {v : Visit}

/-- One visit of the furnace at `pos`: a hopper's leaves it stored as it was and makes no entry,
its turn leaves a furnace its entry accounts for. -/
theorem step (hpos : r.blockAt pos = .furnace f) (h : (v.run pos).run r = .ok ((), r')) :
    ∃ f' : Furnace, r'.blockAt pos = .furnace f' ∧
      (v.entryAt pos r r' = [] ∧ f' = f ∨
        v.entryAt pos r r' = [f.entry (r.slotsOf f.inventory) (r'.slotsOf f.inventory)] ∧
          (f.entry (r.slotsOf f.inventory) (r'.slotsOf f.inventory)).Accounts f f') := by
  cases v with
  | turn now =>
    obtain ⟨t, r₁, hturn, h⟩ := bind_run_ok h
    obtain ⟨-, rfl⟩ := pure_run_ok h
    unfold World.turn at hturn
    rw [run_blockAt_bind, hpos] at hturn
    obtain ⟨a, r₂, htick, hturn⟩ := bind_run_ok hturn
    obtain ⟨-, rfl⟩ := pure_run_ok hturn
    obtain ⟨f', hpos', hacc⟩ := tick_accounts hpos htick
    exact ⟨f', hpos', .inr ⟨by simp [entryAt, hpos], hacc⟩⟩
  | push hop p =>
    obtain ⟨_, r₁, hins, h⟩ := bind_run_ok h
    obtain ⟨-, rfl⟩ := pure_run_ok h
    exact ⟨f, Hopper.insert_preserves (slotStable_blockAt pos _) hop p hpos hins, .inl ⟨rfl, rfl⟩⟩
  | pull hop p =>
    obtain ⟨_, r₁, hext, h⟩ := bind_run_ok h
    obtain ⟨-, rfl⟩ := pure_run_ok h
    exact ⟨f, Hopper.extract_preserves (slotStable_blockAt pos _) hop p hpos hext, .inl ⟨rfl, rfl⟩⟩

theorem entriesAlong_cons {vs : List Visit} (h : (v.run pos).run r = .ok ((), r')) :
    entriesAlong pos (v :: vs) r = v.entryAt pos r r' ++ entriesAlong pos vs r' := by
  rw [entriesAlong, h]

end Visit

end Furnace

/-- A furnace tick publishes every change it makes. A tick that reports no change leaves the realm
as it was, its furnace short of the smelt time; one that reports a change stores at `pos` the
furnace with a new burn or cook counter, short of the smelt time. It touches no other storage,
and its own slots change only by the fuel unit it lights and the smelt it completes. -/
theorem furnace_tick_publishes_changes (f : Furnace) (pos : Pos) (r r' : Realm) (b : Bool)
    (h : (f.tick pos).run r = .ok (b, r')) :
    (b = false → r' = r ∧ f.cook < ItemKind.smeltTicks) ∧
      (b = true → ∃ burn cook : UInt32, r'.blocks = r.blocks.set pos (.furnace { f with burn, cook }) ∧
        (burn ≠ f.burn ∨ cook ≠ f.cook) ∧ cook < ItemKind.smeltTicks) ∧
      (∀ j, j ≠ f.inventory → r'.slotsOf j = r.slotsOf j) ∧
      (r.slotsOf f.inventory).TickEdit (r'.slotsOf f.inventory) := by
  obtain ⟨burn, cook, -, hcook, hb, hblocks, hsame, hframe, hslots⟩ := Furnace.tick_run h
  have hlt : cook < ItemKind.smeltTicks := by
    rw [UInt32.lt_iff_toNat_lt, hcook]
    split
    · next hc => exact hc.2.2
    · decide
  refine ⟨fun hf => ⟨hsame hf, ?_⟩, fun ht => ⟨burn, cook, by rw [hblocks, if_pos ht], ?_, hlt⟩,
    hframe, ?_⟩
  · -- nothing changed, so the cook counter is the one the tick left
    rw [hf, eq_comm, Bool.or_eq_false_iff, bne_eq_false_iff_eq, bne_eq_false_iff_eq] at hb
    exact hb.2 ▸ hlt
  · rwa [ht, eq_comm, Bool.or_eq_true, bne_iff_ne, bne_iff_ne] at hb
  · refine Slots.tickEdit_of (Furnace.litSlots_cases (f := f) _) ?_
    split at hslots
    · exact .inr hslots
    · exact .inl hslots

/-- A cold furnace with iron ore and coal, one tick short of a smelt: its tick publishes what it
changes. -/
theorem cold_furnace_tick_publishes :
    let f : Furnace := ⟨0, 199, ⟨0⟩, ⟨0⟩⟩
    let r : Realm :=
      { blocks := ({} : BlockMap).set ⟨0, 64, 0⟩ (.furnace f)
        storages := #[⟨#[some (Stack.new .ironOre 2), some (Stack.new .coal 1), none], ⟨0⟩⟩]
        registries := #[{}] }
    ∃ b r', (f.tick ⟨0, 64, 0⟩).run r = .ok (b, r') ∧
      (b = false → r' = r ∧ f.cook < ItemKind.smeltTicks) ∧
      (b = true → ∃ burn cook : UInt32,
        r'.blocks = r.blocks.set ⟨0, 64, 0⟩ (.furnace { f with burn, cook }) ∧
        (burn ≠ f.burn ∨ cook ≠ f.cook) ∧ cook < ItemKind.smeltTicks) ∧
      (∀ j, j ≠ f.inventory → r'.slotsOf j = r.slotsOf j) ∧
      (r.slotsOf f.inventory).TickEdit (r'.slotsOf f.inventory) := by
  intro f r
  obtain ⟨b, r', hrun⟩ := exists_run_ok (x := f.tick ⟨0, 64, 0⟩) (r := r) (by decide +kernel)
  exact ⟨b, r', hrun, furnace_tick_publishes_changes f _ r r' b hrun⟩

/-- The economy of smelting over any run of a furnace's turns among hopper pushes and pulls,
counted in the entries of its ticks. The smelts are paid for by fed ticks, which burned with a
smelt in reach: the smelt time for each, less the cook counter left. The burning ticks spend the
burn counter the furnace started with and the burn time of each fuel unit lit, less the burn
counter left. Fuel is lit only from a cold start with a smelt in reach. And when every tick is fed
from a cook counter short of the smelt time, the smelts and the cook counter left are the quotient
and the remainder of the cook ticks by the smelt time. -/
theorem furnace_run_balances (pos : Pos) (f₀ : Furnace) (r : Realm) (vs : List Furnace.Visit) (r' : Realm)
    (hpos : r.blockAt pos = .furnace f₀)
    (hrun : (vs.forM (Furnace.Visit.run pos)).run r = .ok ((), r')) :
    let L := Furnace.Visit.entriesAlong pos vs r
    ∃ f : Furnace, r'.blockAt pos = .furnace f ∧ f.inventory = f₀.inventory ∧
      ItemKind.smeltTicks.toNat * L.countP (·.smelted) + f.cook.toNat ≤
        f₀.cook.toNat + L.countP (·.fed) ∧
      L.countP (·.burned) + f.burn.toNat = f₀.burn.toNat + ((L.filter (·.lit)).map (·.fuel)).sum ∧
      (∀ e ∈ L, e.lit = true → e.cold = true ∧ e.aimed = true) ∧
      (f₀.cook < ItemKind.smeltTicks → (∀ e ∈ L, e.fed = true) →
        L.countP (·.smelted) = (f₀.cook.toNat + L.length) / ItemKind.smeltTicks.toNat ∧
        f.cook.toNat = (f₀.cook.toNat + L.length) % ItemKind.smeltTicks.toNat) := by
  have h200 : ItemKind.smeltTicks.toNat = 200 := rfl
  -- induction on the visits, from the furnace stored before each one
  induction vs generalizing r f₀ with
  | nil =>
    obtain ⟨-, rfl⟩ := pure_run_ok hrun
    simp only [Furnace.Visit.entriesAlong, List.countP_nil, List.filter_nil, List.map_nil, List.sum_nil,
      List.length_nil, List.not_mem_nil, Nat.add_zero, Nat.mul_zero, Nat.zero_add]
    refine ⟨f₀, hpos, rfl, Nat.le_refl _, rfl, fun _ h => h.elim, fun hlt _ => ?_⟩
    rw [UInt32.lt_iff_toNat_lt] at hlt
    exact ⟨(Nat.div_eq_of_lt hlt).symm, (Nat.mod_eq_of_lt hlt).symm⟩
  | cons v vs ih =>
    obtain ⟨⟨⟩, r₁, hv, hrest⟩ :=
      bind_run_ok (x := Furnace.Visit.run pos v) (f := fun _ => vs.forM (Furnace.Visit.run pos)) hrun
    rw [Furnace.Visit.entriesAlong_cons hv]
    obtain ⟨f₁, hpos₁, hstep⟩ := Furnace.Visit.step hpos hv
    obtain ⟨f, hposf, hinv, hcook, hburn, hlit, hexact⟩ := ih f₁ r₁ hpos₁ hrest
    rcases hstep with ⟨hnil, rfl⟩ | ⟨hone, hacc⟩
    · rw [hnil, List.nil_append]
      exact ⟨f, hposf, hinv, hcook, hburn, hlit, hexact⟩
    · rw [hone, List.singleton_append]
      set e := f₀.entry (r.slotsOf f₀.inventory) (r₁.slotsOf f₀.inventory)
      set L := Furnace.Visit.entriesAlong pos vs r₁
      refine ⟨f, hposf, hinv.trans hacc.inventory, ?_, ?_, ?_, ?_⟩
      · rw [Furnace.Entry.countP_cons, Furnace.Entry.countP_cons]
        have := hacc.cook
        rw [h200] at this hcook ⊢
        calc 200 * (e.smelted.toNat + L.countP (·.smelted)) + f.cook.toNat
            = 200 * e.smelted.toNat + (200 * L.countP (·.smelted) + f.cook.toNat) := by ring
          _ ≤ 200 * e.smelted.toNat + (f₁.cook.toNat + L.countP (·.fed)) := by omega
          _ ≤ f₀.cook.toNat + (e.fed.toNat + L.countP (·.fed)) := by omega
      · rw [Furnace.Entry.countP_cons, Furnace.Entry.sum_fuel_cons]
        have := hacc.burn
        omega
      · intro e' he'
        rcases List.mem_cons.mp he' with rfl | he'
        · exact hacc.lit
        · exact hlit e' he'
      · intro hlt hfed
        obtain ⟨hc₁, hs₁⟩ := hacc.cook_fed (hfed e List.mem_cons_self) hlt
        obtain ⟨hsm, hc⟩ := hexact hacc.cook_lt fun e' he' => hfed e' (List.mem_cons_of_mem _ he')
        rw [Furnace.Entry.countP_cons, List.length_cons, hsm, hc, hs₁, hc₁]
        rw [h200]
        omega

/-- A cold furnace with iron ore and coal, fed ore by a hopper above it between two turns: the run
balances. -/
theorem fed_furnace_run_balances :
    let f₀ : Furnace := ⟨0, 0, ⟨0⟩, ⟨0⟩⟩
    let above : Hopper := ⟨.down, false, "", Tick.zero, 0, 0, ⟨1⟩, ⟨1⟩⟩
    let r : Realm :=
      { blocks := (({} : BlockMap).set ⟨0, 64, 0⟩ (.furnace f₀)).set ⟨0, 65, 0⟩ (.hopper above)
        storages := #[⟨#[some (Stack.new .ironOre 1), some (Stack.new .coal 1), none], ⟨0⟩⟩,
          ⟨#[some (Stack.new .ironOre 5), none, none, none, none], ⟨1⟩⟩]
        registries := #[{}, {}] }
    let vs := [Furnace.Visit.turn ⟨1⟩, .push above ⟨0, 65, 0⟩, .turn ⟨2⟩]
    r.blockAt ⟨0, 64, 0⟩ = .furnace f₀ ∧ ∃ r', (vs.forM (Furnace.Visit.run ⟨0, 64, 0⟩)).run r = .ok ((), r') ∧
      let L := Furnace.Visit.entriesAlong ⟨0, 64, 0⟩ vs r
      ∃ f : Furnace, r'.blockAt ⟨0, 64, 0⟩ = .furnace f ∧ f.inventory = f₀.inventory ∧
        ItemKind.smeltTicks.toNat * L.countP (·.smelted) + f.cook.toNat ≤
          f₀.cook.toNat + L.countP (·.fed) ∧
        L.countP (·.burned) + f.burn.toNat = f₀.burn.toNat + ((L.filter (·.lit)).map (·.fuel)).sum ∧
        (∀ e ∈ L, e.lit = true → e.cold = true ∧ e.aimed = true) ∧
        (f₀.cook < ItemKind.smeltTicks → (∀ e ∈ L, e.fed = true) →
          L.countP (·.smelted) = (f₀.cook.toNat + L.length) / ItemKind.smeltTicks.toNat ∧
          f.cook.toNat = (f₀.cook.toNat + L.length) % ItemKind.smeltTicks.toNat) := by
  intro f₀ above r vs
  have hpos : r.blockAt ⟨0, 64, 0⟩ = .furnace f₀ := by decide +kernel
  obtain ⟨⟨⟩, r', hrun⟩ := exists_run_ok (x := vs.forM (Furnace.Visit.run ⟨0, 64, 0⟩)) (r := r)
    (by decide +kernel)
  exact ⟨hpos, r', hrun, furnace_run_balances _ f₀ r vs r' hpos hrun⟩

end ItemFlow
