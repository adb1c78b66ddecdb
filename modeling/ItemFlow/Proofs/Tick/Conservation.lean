import ItemFlow.Proofs.Inventory.Units
/-! Conservation of units over a tick pass. Hoppers move units between containers and never
create, destroy or alter one. A furnace turn takes one unit of fuel when it lights, and trades
one unit of input for one unit of its recipe output, fresh, when a smelt completes. So over a
pass the units of every item change by the smelts that made it, less the smelts that took it
as input and the fuel of it that was lit. -/
namespace ItemFlow
open Act

/-- What one furnace turn takes and makes. -/
structure Burn where
  /-- The item of the fuel unit lit. -/
  fuel : Option Identity
  /-- The item of the input unit smelted, with the item of the output unit made. -/
  smelt : Option (Identity × Identity)
deriving DecidableEq, Repr

/-- The item a smelt of `x` makes: its kind's recipe output, with no durability and no
metadata. -/
def Identity.smelted (x : Identity) : Option Identity :=
  x.kind.smeltOutput?.map fun k => ⟨k, none, none⟩

namespace Furnace

/-- The fuel stack a furnace with slots `s` lights from: when nothing burns and a smelt is
possible, the stack in its fuel slot, if it burns. -/
def litFuel (f : Furnace) (s : Slots) : Option Stack :=
  if f.burn = 0 ∧ (smeltTarget s).isSome then
    (s[fuelSlot]?).join.filter fun st => 0 < st.kind.burnTicks
  else none

/-- The smelt of the input unit of slots `s`: the input's item, with the item its recipe makes. -/
def smeltOf (s : Slots) : Option (Identity × Identity) :=
  (s[inputSlot]?).join.bind fun input => input.identity.smelted.map (input.identity, ·)

/-- The smelt a burning tick of `f` on slots `s` completes: one is possible, and the cook counter
reaches the smelt time. -/
def cooked (f : Furnace) (s : Slots) : Option (Identity × Identity) :=
  if (smeltTarget s).isSome ∧ ItemKind.smeltTicks.toNat ≤ f.cook.toNat + 1 then smeltOf s else none

/-- What a furnace with slots `s` takes and makes in its turn: the fuel it lights, and the smelt
it completes if it burns, because it was burning or lights fuel. -/
def burnOf (f : Furnace) (s : Slots) : Burn where
  fuel := (f.litFuel s).map Stack.identity
  smelt := if 0 < f.burn ∨ (f.litFuel s).isSome then f.cooked s else none

end Furnace

namespace Burn
variable (w : Identity → Nat)

/-- The weight of the units a burn takes: its fuel and its smelted input. -/
def taken (b : Burn) : Nat := (b.fuel.map w).getD 0 + (b.smelt.map fun p => w p.1).getD 0

def made (b : Burn) : Nat := (b.smelt.map fun p => w p.2).getD 0

def smeltsInto (x : Identity) (bs : List Burn) : Nat := bs.countP fun b => b.smelt.map Prod.snd == some x

def smeltsFrom (x : Identity) (bs : List Burn) : Nat := bs.countP fun b => b.smelt.map Prod.fst == some x

def ignitionsOf (x : Identity) (bs : List Burn) : Nat := bs.countP fun b => b.fuel == some x

def ignitions (bs : List Burn) : Nat := bs.countP fun b => b.fuel.isSome

end Burn

namespace World

/-- The burn of the turn at `p`, read from the realm the turn starts in: one for a furnace,
none for anything else. -/
def burnAt (r : Realm) (p : Pos) : List Burn :=
  match r.blockAt p with
  | .furnace f => [f.burnOf (r.slotsOf f.inventory)]
  | _ => []

def burnsAlong (now : Tick) : List Pos → Realm → List Burn
  | [], _ => []
  | p :: ps, r =>
    burnAt r p ++ match (turn now p).run r with
      | .ok (_, r') => burnsAlong now ps r'
      | .error _ => []

/-- The burns of a tick pass from `r`, one per furnace, in position order. -/
def burns (now : Tick) (r : Realm) : List Burn := burnsAlong now (tickPositions r.blocks) r

end World

/-- From a realm with no empty stack, every successful run keeps it so and leaves the weight of
the storages unchanged, whatever the weights. -/
def Act.Conserves {α : Type} (x : Act α) : Prop :=
  ∀ ⦃r a r'⦄, r.NoEmptyStack → x.run r = .ok (a, r') →
    r'.NoEmptyStack ∧ ∀ w, r'.weigh w = r.weigh w

namespace Act.Conserves
variable {α β : Type}

theorem of_storages {x : Act α} (h : ∀ ⦃r a r'⦄, x.run r = .ok (a, r') → r'.storages = r.storages) :
    Conserves x := by
  intro r a r' hr hx
  have hs := h hx
  refine ⟨fun s hmem => hr s (hs ▸ hmem), fun w => ?_⟩
  simp only [Realm.weigh, hs]

theorem pure (a : α) : Conserves (Pure.pure a : Act α) :=
  of_storages fun _ _ _ h => by cases h; rfl

theorem bind {x : Act α} {f : α → Act β} (hx : Conserves x) (hf : ∀ a, Conserves (f a)) :
    Conserves (x >>= f) := by
  intro r b r'' hr h
  obtain ⟨a, r', h1, h2⟩ := bind_run_ok h
  obtain ⟨hr', hw⟩ := hx hr h1
  obtain ⟨hr'', hw'⟩ := hf a hr' h2
  exact ⟨hr'', fun w => (hw' w).trans (hw w)⟩

theorem blockAt (p : Pos) : Conserves (Act.blockAt p) :=
  of_storages fun _ _ _ h => by cases h; rfl

theorem slotsOf (i : InventoryId) : Conserves (Act.slotsOf i) :=
  of_storages fun _ _ _ h => by cases h; rfl

theorem lift (x : Except Overflow α) : Conserves (Act.lift x) :=
  of_storages fun _ _ _ h => by
    cases x <;> simp at h
    obtain ⟨-, rfl⟩ := h
    rfl

theorem setBlock (p : Pos) (b : Block) : Conserves (Act.setBlock p b) :=
  of_storages fun _ _ _ h => by cases h; rfl

end Act.Conserves

/-- Answering true, the action has put one unit of item `x` into the storages, keeping every
unit already there; answering false, it has changed nothing. -/
def Act.PutsOne (x : Identity) (act : Act Bool) : Prop :=
  ∀ ⦃r ok r'⦄, act.run r = .ok (ok, r') →
    (ok = true → (∀ w, r'.weigh w = r.weigh w + w x) ∧ r.Keeps r') ∧ (ok = false → r' = r)

theorem Act.PutsOne.pure_false (x : Identity) : PutsOne x (Pure.pure false) := by
  intro r ok r' h
  cases h
  exact ⟨nofun, fun _ => rfl⟩

namespace Hopper

theorem placeOne_putsOne (inv : InventoryId) (slot : Nat) (source : Stack) :
    PutsOne source.identity (placeOne inv slot source) := by
  intro r ok r' h
  unfold placeOne at h
  rw [run_slotsOf_bind] at h
  split at h
  · exact PutsOne.pure_false _ h
  · next hc =>
    have hc := Slots.getElem?_of_item hc
    rw [run_bind_ok (run_setItem_of_getElem? hc)] at h
    obtain ⟨rfl, rfl⟩ := pure_run_ok h
    refine ⟨fun _ => ⟨fun w => ?_, Realm.keeps_applyEdit (Slots.keeps_set hc nofun)⟩, nofun⟩
    have := Realm.weigh_applyEdit_set w hc (some source.single) [⟨slot, some source.single⟩]
    simp only [Option.bind_some, Stack.stored_of_fits (Stack.fits_single source)] at this ⊢
    rw [Stack.weight_single] at this
    exact this
  · next e hc =>
    have hc := Slots.getElem?_of_item hc
    split at h
    · exact PutsOne.pure_false _ h
    · next hok =>
      simp only [Bool.or_eq_true, Bool.not_eq_true', not_or, Bool.not_eq_false] at hok
      obtain ⟨hcomp, hfull⟩ := hok
      have hid : e.identity = source.identity := by simpa [Stack.comparable] using hcomp
      have hroom : ¬e.isFull = true := by simpa using hfull
      obtain ⟨hsum, hfit⟩ := Stack.grow_one hroom
      rw [run_bind_ok (run_setItem_of_getElem? hc)] at h
      obtain ⟨rfl, rfl⟩ := pure_run_ok h
      simp only [Option.bind_some, Stack.stored_of_fits hfit]
      refine ⟨fun _ => ⟨fun w => ?_, Realm.keeps_applyEdit (Slots.keeps_set hc ?_)⟩, nofun⟩
      · have := Realm.weigh_applyEdit_set w hc (some (e.withCount (e.count + 1)))
          [⟨slot, some (e.withCount (e.count + 1))⟩]
        rw [Stack.weight_grow_one w hroom, hid] at this
        omega
      · rintro st ⟨⟩
        exact ⟨_, rfl, rfl, by simp [hsum]⟩

theorem offer_putsOne (h : Hopper) (dest : Block) (inv : InventoryId) (source : Stack) :
    PutsOne source.identity (h.offer dest inv source) := by
  unfold offer
  split
  · intro r ok r' hrun
    rw [run_slotsOf_bind] at hrun
    split at hrun
    split at hrun
    · exact placeOne_putsOne inv _ source hrun
    · exact PutsOne.pure_false _ hrun
  · intro r ok r' hrun
    obtain ⟨res, r1, hadd, hrun⟩ := bind_run_ok hrun
    obtain ⟨rfl, rfl⟩ := pure_run_ok hrun
    refine ⟨fun hok => ?_, fun hok => addItem_refused hadd hok⟩
    refine ⟨fun w => ?_, keeps_addItem hadd hok⟩
    simpa [Stack.single] using Act.weigh_addItem w hadd hok

/-- Offering the listed slots of the hopper's own storage in turn moves at most one unit, and
moves it whole: the accepting container gains it and the listed slot gives it up. -/
theorem offerEach_conserves (h : Hopper) (dest : Block) (inv : InventoryId) {r : Realm}
    (hr : r.NoEmptyStack) :
    ∀ (l : List (Nat × Stack)), (∀ p ∈ l, (r.slotsOf h.inventory)[p.1]? = some (some p.2)) →
      ∀ {ok r'}, (h.offerEach dest inv l).run r = .ok (ok, r') → ∀ w, r'.weigh w = r.weigh w
  | [], _, _, _, hrun => by
    cases hrun
    exact fun _ => rfl
  | (slot, source) :: rest, hl, _, _, hrun => by
    unfold offerEach at hrun
    obtain ⟨accepted, r1, hoffer, hrest⟩ := bind_run_ok hrun
    have hput := offer_putsOne h dest inv source hoffer
    cases accepted with
    | true =>
      obtain ⟨hw, hkeep⟩ := hput.1 rfl
      have hsource : (r.slotsOf h.inventory)[slot]? = some (some source) :=
        hl (slot, source) List.mem_cons_self
      -- the offer may have grown the listed slot, but it still holds the source's item
      obtain ⟨st, hst, hid, h0⟩ := hr.kept hkeep hsource
      simp only [↓reduceIte] at hrest
      rw [run_bind_ok (run_decrement_filled hst)] at hrest
      obtain ⟨-, rfl⟩ := pure_run_ok hrest
      intro w
      have := Act.weigh_decrement w hst h0
      rw [hid] at this
      have := hw w
      omega
    | false =>
      obtain rfl := hput.2 rfl
      simp only [Bool.false_eq_true, ↓reduceIte] at hrest
      exact offerEach_conserves h dest inv hr rest (fun p hp => hl p (List.mem_cons_of_mem _ hp)) hrest

theorem insert_conserves (h : Hopper) (pos : Pos) : Conserves (h.insert pos) := by
  intro r ok r' hr hrun
  refine ⟨h.insert_preserves Realm.slotStable_noEmptyStack pos hr hrun, ?_⟩
  unfold insert at hrun
  rw [run_lift_bind] at hrun
  split at hrun
  · rw [run_blockAt_bind] at hrun
    split at hrun
    · cases hrun
      exact fun _ => rfl
    · rw [run_slotsOf_bind] at hrun
      exact offerEach_conserves h _ _ hr _ (fun p hp => Slots.getElem?_of_mem_filled hp) hrun
  · cases hrun

/-- Pulling moves one unit whole: the hopper gains a unit of the nominated stack's item and
the nominated slot, which held a comparable stack, gives one up. -/
theorem pullOne_conserves (own inv : InventoryId) (nominated : Option (Stack × Nat)) :
    Conserves (pullOne own inv nominated) := by
  intro r ok r' hr hrun
  refine ⟨pullOne_preserves Realm.slotStable_noEmptyStack own inv nominated hr hrun, ?_⟩
  unfold pullOne at hrun
  split at hrun
  · cases hrun
    exact fun _ => rfl
  · next stack slot =>
    split at hrun
    · cases hrun
      exact fun _ => rfl
    · rw [run_slotsOf_bind] at hrun
      split at hrun
      · next held hheld =>
        split at hrun
        · cases hrun
          exact fun _ => rfl
        · next hcomp =>
          have hid : held.identity = stack.identity := by
            simpa [Stack.comparable] using hcomp
          have hslot := Slots.getElem?_of_item hheld
          obtain ⟨res, r1, hadd, hrest⟩ := bind_run_ok hrun
          split at hrest
          · obtain rfl := addItem_refused hadd rfl
            cases hrest
            exact fun _ => rfl
          · obtain ⟨st, hst, hid', h0⟩ := hr.kept (keeps_addItem hadd rfl) hslot
            rw [run_bind_ok (run_decrement_filled hst)] at hrest
            obtain ⟨-, rfl⟩ := pure_run_ok hrest
            intro w
            have := Act.weigh_decrement w hst h0
            have := Act.weigh_addItem w hadd rfl
            simp only [Stack.single, Stack.identity_withCount, Stack.count_withCount,
              UInt32.toNat_one, Nat.mul_one] at this
            rw [hid', hid] at *
            omega
      · cases hrun
        exact fun _ => rfl

theorem extract_conserves (h : Hopper) (pos : Pos) : Conserves (h.extract pos) := by
  unfold extract
  refine .bind (.lift _) fun _ => .bind (.blockAt _) fun origin => ?_
  split
  · exact .pure _
  · exact .bind (.slotsOf _) fun _ => pullOne_conserves _ _ _

theorem tick_conserves (h : Hopper) (now : Tick) (pos : Pos) : Conserves (h.tick now pos) := by
  unfold tick
  refine .bind (.lift _) fun tc => .bind (.lift _) fun cc => ?_
  dsimp only
  split
  · exact .bind (.setBlock _ _) fun _ => .pure _
  · split
    · exact .bind (.setBlock _ _) fun _ => .pure _
    · refine .bind (insert_conserves _ _) fun _ => .bind (extract_conserves _ _) fun _ => ?_
      split
      · exact .pure _
      · exact .bind (.setBlock _ _) fun _ => .pure _

end Hopper

theorem ItemKind.freshDurability_of_smeltOutput {k k' : ItemKind} (h : k.smeltOutput? = some k') :
    k'.freshDurability = none := by
  unfold ItemKind.smeltOutput? at h
  split at h <;> cases h <;> rfl

theorem Overflow.toNat_of_addU32 {a b c : UInt32} (h : Overflow.addU32 a b = .ok c) :
    c.toNat = a.toNat + b.toNat := by
  unfold Overflow.addU32 at h
  split at h
  · next hlt =>
    cases h
    rw [UInt32.toNat_add]
    exact Nat.mod_eq_of_lt hlt
  · cases h

namespace Furnace
variable (f : Furnace)

theorem smeltTarget_spec {s : Slots} {out : Stack} (h : smeltTarget s = some out) :
    (∃ input, s[inputSlot]? = some (some input) ∧ input.identity.smelted = some out.identity) ∧
      ∃ c, s[outputSlot]? = some c ∧ out.Fits ∧
        ∀ w, Stack.weight w (some out) = Stack.weight w c + w out.identity := by
  unfold smeltTarget at h
  obtain ⟨input, hin, h⟩ := Option.bind_eq_some_iff.mp h
  obtain ⟨k, hk, h⟩ := Option.bind_eq_some_iff.mp h
  have hfresh : (Stack.new k 1).identity = ⟨k, none, none⟩ := by
    simp [Stack.new, Stack.identity, ItemKind.freshDurability_of_smeltOutput hk]
  have hsm : input.identity.smelted = some ⟨k, none, none⟩ := by
    simp [Identity.smelted, Stack.identity, hk]
  have hin := Option.join_eq_some_iff.mp hin
  dsimp only at h
  split at h
  · cases h
  · next hc =>
    cases h
    refine ⟨⟨input, hin, hsm.trans (congrArg some hfresh.symm)⟩, none, hc, ?_, fun w => ?_⟩
    · exact Stack.fits_single (Stack.new k 1)
    · simp [Stack.weight, Stack.new]
  · next e hc =>
    split at h
    · next hok =>
      cases h
      have hid : e.identity = (Stack.new k 1).identity := by simpa [Stack.comparable] using hok.1
      refine ⟨⟨input, hin, ?_⟩, some e, hc, (Stack.grow_one hok.2).2, fun w => ?_⟩
      · rw [Stack.identity_withCount, hid, hfresh]
        exact hsm
      · exact Stack.weight_grow_one w hok.2
    · cases h

section Lighting
variable {f} {r r₁ : Realm}

theorem litFuel_eq_some_iff {s : Slots} {fuel : Stack} :
    f.litFuel s = some fuel ↔
      f.burn = 0 ∧ (smeltTarget s).isSome ∧ s[fuelSlot]? = some (some fuel) ∧
        0 < fuel.kind.burnTicks := by
  unfold litFuel
  constructor
  · intro h
    split at h
    · next hc =>
      obtain ⟨hfuel, hburns⟩ := Option.filter_eq_some_iff.mp h
      exact ⟨hc.1, hc.2, Option.join_eq_some_iff.mp hfuel, by simpa using hburns⟩
    · cases h
  · rintro ⟨hb, ht, hslot, hburns⟩
    rw [if_pos ⟨hb, ht⟩, Option.join_eq_some_iff.mpr hslot]
    simp [hburns]

/-- Lighting toward any target: with nothing burning and a smelt possible it takes one unit of
the stack in the fuel slot, if that stack burns, and answers its burn time; otherwise it changes
nothing and answers the burn counter. -/
theorem ignite_cases {target : Option Stack} {burn : UInt32}
    (h : (f.ignite target).run r = .ok (burn, r₁)) :
    (burn = f.burn ∧ r₁ = r ∧ ∀ fuel, f.burn = 0 → target.isSome →
        (r.slotsOf f.inventory)[fuelSlot]? = some (some fuel) → ¬0 < fuel.kind.burnTicks) ∨
      ∃ fuel, f.burn = 0 ∧ target.isSome ∧ (r.slotsOf f.inventory)[fuelSlot]? = some (some fuel) ∧
        0 < fuel.kind.burnTicks ∧ burn = fuel.kind.burnTicks ∧
        r₁ = r.applyEdit f.inventory
          ⟨(r.slotsOf f.inventory).set! fuelSlot fuel.shrink, [⟨fuelSlot, fuel.shrink⟩]⟩ := by
  unfold ignite at h
  split at h
  · next hc =>
    simp only [Bool.and_eq_true, beq_iff_eq] at hc
    rw [run_slotsOf_bind] at h
    cases hfuel : ((r.slotsOf f.inventory)[fuelSlot]?).join with
    | none =>
      rw [hfuel] at h
      obtain ⟨rfl, rfl⟩ := pure_run_ok h
      refine .inl ⟨rfl, rfl, fun fuel _ _ hslot => ?_⟩
      rw [Option.join_eq_some_iff.mpr hslot] at hfuel
      cases hfuel
    | some fuel =>
      have hslot := Option.join_eq_some_iff.mp hfuel
      rw [hfuel] at h
      dsimp only at h
      split at h
      · next hburns =>
        rw [run_bind_ok (run_decrement_filled hslot)] at h
        obtain ⟨rfl, rfl⟩ := pure_run_ok h
        exact .inr ⟨fuel, hc.1, hc.2, hslot, hburns, rfl, rfl⟩
      · next hburns =>
        obtain ⟨rfl, rfl⟩ := pure_run_ok h
        refine .inl ⟨rfl, rfl, fun fuel' _ _ hslot' => ?_⟩
        rw [hslot, Option.some.injEq, Option.some.injEq] at hslot'
        exact hslot' ▸ hburns
  · next hc =>
    obtain ⟨rfl, rfl⟩ := pure_run_ok h
    exact .inl ⟨rfl, rfl, fun _ hb ht _ _ => hc (by simp [hb, ht])⟩

theorem ignite_run {b : UInt32}
    (h : (f.ignite (smeltTarget (r.slotsOf f.inventory))).run r = .ok (b, r₁)) :
    (f.litFuel (r.slotsOf f.inventory) = none ∧ b = f.burn ∧ r₁ = r) ∨
      ∃ fuel, f.litFuel (r.slotsOf f.inventory) = some fuel ∧
        (r.slotsOf f.inventory)[fuelSlot]? = some (some fuel) ∧ b = fuel.kind.burnTicks ∧
        r₁ = r.applyEdit f.inventory
          ⟨(r.slotsOf f.inventory).set! fuelSlot fuel.shrink, [⟨fuelSlot, fuel.shrink⟩]⟩ := by
  rcases ignite_cases h with ⟨rfl, hr, hnot⟩ | ⟨fuel, hb, ht, hslot, hburns, rfl, rfl⟩
  · subst r₁
    refine .inl ⟨?_, rfl, rfl⟩
    cases hl : f.litFuel (r.slotsOf f.inventory) with
    | none => rfl
    | some fuel =>
      obtain ⟨hb, ht, hslot, hburns⟩ := litFuel_eq_some_iff.mp hl
      exact absurd hburns (hnot fuel hb ht hslot)
  · exact .inr ⟨fuel, litFuel_eq_some_iff.mpr ⟨hb, ht, hslot, hburns⟩, hslot, rfl, rfl⟩

end Lighting

theorem ignite_spec {r r1 : Realm} {burn : UInt32} (hr : r.NoEmptyStack)
    (h : (f.ignite (smeltTarget (r.slotsOf f.inventory))).run r = .ok (burn, r1)) :
    (0 < burn ↔ 0 < f.burn ∨ (f.litFuel (r.slotsOf f.inventory)).isSome) ∧
      (∀ w, r1.weigh w + ((f.litFuel (r.slotsOf f.inventory)).map fun st => w st.identity).getD 0 =
        r.weigh w) ∧
      ∀ k, k ≠ fuelSlot → (r1.slotsOf f.inventory)[k]? = (r.slotsOf f.inventory)[k]? := by
  rcases ignite_run h with ⟨hnone, rfl, rfl⟩ | ⟨fuel, hsome, hslot, rfl, rfl⟩
  · exact ⟨by simp [hnone], fun _ => by simp [hnone], fun _ _ => rfl⟩
  · have hburns := (litFuel_eq_some_iff.mp hsome).2.2.2
    refine ⟨by simp [hsome, hburns], fun w => ?_, fun k hk => Realm.slotsOf_applyEdit_set hk _ _⟩
    simpa [hsome] using Act.weigh_decrement w hslot (hr.count_ne_zero hslot)

/-- The realm once the furnace on `f.inventory` completes a smelt of `input` into `out`: one
input unit taken, then the output slot set to the smelt's target. -/
def afterSmelt (f : Furnace) (r : Realm) (input out : Stack) : Realm :=
  let taken := r.applyEdit f.inventory
    ⟨(r.slotsOf f.inventory).set! inputSlot input.shrink, [⟨inputSlot, input.shrink⟩]⟩
  taken.applyEdit f.inventory
    ⟨(taken.slotsOf f.inventory).set! outputSlot (some out), [⟨outputSlot, some out⟩]⟩

section Cooking
variable {f} {r r₁ r₂ : Realm}

@[simp] theorem blocks_afterSmelt (input out : Stack) : (f.afterSmelt r input out).blocks = r.blocks := by
  simp [afterSmelt]

theorem slotsOf_afterSmelt_of_ne {j : InventoryId} (hj : j ≠ f.inventory) (input out : Stack) :
    (f.afterSmelt r input out).slotsOf j = r.slotsOf j := by
  simp only [afterSmelt]
  rw [Realm.slotsOf_applyEdit_of_ne (Ne.symm hj), Realm.slotsOf_applyEdit_of_ne (Ne.symm hj)]

theorem slotsOf_afterSmelt_self (input out : Stack) :
    (f.afterSmelt r input out).slotsOf f.inventory =
      ((r.slotsOf f.inventory).set! inputSlot input.shrink).set! outputSlot (some out) := by
  simp only [afterSmelt]
  rw [Realm.slotsOf_applyEdit_set_self, Realm.slotsOf_applyEdit_set_self]

theorem weigh_afterSmelt {input : Stack} {c : Option Stack} (w : Identity → Nat) (out : Stack)
    (hin : (r.slotsOf f.inventory)[inputSlot]? = some (some input)) (h0 : input.count ≠ 0)
    (hout : (r.slotsOf f.inventory)[outputSlot]? = some c) :
    (f.afterSmelt r input out).weigh w + w input.identity + Stack.weight w c =
      r.weigh w + Stack.weight w (some out) := by
  have hout' : ((r.applyEdit f.inventory ⟨(r.slotsOf f.inventory).set! inputSlot input.shrink,
      [⟨inputSlot, input.shrink⟩]⟩).slotsOf f.inventory)[outputSlot]? = some c :=
    (Realm.slotsOf_applyEdit_set (by decide) _ _).trans hout
  have e1 := Act.weigh_decrement w hin h0
  have e2 := Realm.weigh_applyEdit_set w hout' (some out) [⟨outputSlot, some out⟩]
  simp only [afterSmelt]
  omega

/-- A burning tick's cook step toward the smelt slots `s` allow, from a realm whose slots agree
with `s` outside the fuel slot. The counter rises while a smelt is possible and short of the
smelt time and is zero otherwise; at the smelt time the smelt completes, and otherwise nothing
is written. -/
theorem cookStep_run {s : Slots} {c : UInt32}
    (hslots : ∀ k, k ≠ fuelSlot → (r₁.slotsOf f.inventory)[k]? = s[k]?)
    (h : (f.cookStep (smeltTarget s)).run r₁ = .ok (c, r₂)) :
    c.toNat = (if (smeltTarget s).isSome ∧ f.cook.toNat + 1 < ItemKind.smeltTicks.toNat
        then f.cook.toNat + 1 else 0) ∧
      (f.cooked s = none ∧ r₂ = r₁ ∨
        ∃ input out, f.cooked s = some (input.identity, out.identity) ∧
          s[inputSlot]? = some (some input) ∧ smeltTarget s = some out ∧
          r₂ = f.afterSmelt r₁ input out) := by
  unfold cookStep at h
  cases ht : smeltTarget s with
  | none =>
    rw [ht] at h
    obtain ⟨rfl, rfl⟩ := pure_run_ok h
    exact ⟨by simp, .inl ⟨by simp [cooked, ht], rfl⟩⟩
  | some out =>
    rw [ht, run_lift_bind] at h
    split at h
    · next c' hc' =>
      have hcount := Overflow.toNat_of_addU32 hc'
      rw [UInt32.toNat_one] at hcount
      split at h
      · next hge =>
        have hge : ItemKind.smeltTicks.toNat ≤ f.cook.toNat + 1 := by
          simpa [UInt32.le_iff_toNat_le, hcount] using hge
        obtain ⟨⟨input, hin, hsm⟩, oc, hoc, hfit, -⟩ := smeltTarget_spec ht
        have hin₁ : (r₁.slotsOf f.inventory)[inputSlot]? = some (some input) :=
          (hslots inputSlot (by decide)).trans hin
        rw [run_bind_ok (run_decrement_filled hin₁)] at h
        have hout : ((r₁.applyEdit f.inventory ⟨(r₁.slotsOf f.inventory).set! inputSlot input.shrink,
            [⟨inputSlot, input.shrink⟩]⟩).slotsOf f.inventory)[outputSlot]? = some oc :=
          (Realm.slotsOf_applyEdit_set (by decide) _ _).trans ((hslots outputSlot (by decide)).trans hoc)
        rw [run_bind_ok (run_setItem_of_getElem? hout)] at h
        obtain ⟨rfl, rfl⟩ := pure_run_ok h
        refine ⟨?_, .inr ⟨input, out, ?_, hin, rfl, ?_⟩⟩
        · rw [UInt32.toNat_zero, if_neg fun hc => absurd hc.2 (by omega)]
        · rw [cooked, if_pos ⟨by simp [ht], hge⟩]
          simp [smeltOf, hin, hsm]
        · simp only [Option.bind_some, Stack.stored_of_fits hfit]
          rfl
      · next hlt =>
        obtain ⟨rfl, rfl⟩ := pure_run_ok h
        have hlt : f.cook.toNat + 1 < ItemKind.smeltTicks.toNat := by
          simpa [UInt32.le_iff_toNat_le, hcount] using hlt
        refine ⟨by simp [hcount, hlt], .inl ⟨?_, rfl⟩⟩
        rw [cooked, if_neg fun hc => absurd hc.2 (by omega)]
    · cases h

end Cooking

theorem cookStep_balance {s : Slots} {r1 r2 : Realm} {cook : UInt32} (hr1 : r1.NoEmptyStack)
    (hslots : ∀ k, k ≠ fuelSlot → (r1.slotsOf f.inventory)[k]? = s[k]?)
    (h : (f.cookStep (smeltTarget s)).run r1 = .ok (cook, r2)) (w : Identity → Nat) :
    r2.weigh w + ((f.cooked s).map fun p => w p.1).getD 0 =
      r1.weigh w + ((f.cooked s).map fun p => w p.2).getD 0 := by
  rcases cookStep_run hslots h with ⟨-, ⟨hnone, rfl⟩ | ⟨input, out, hcooked, hin, ht, rfl⟩⟩
  · simp [hnone]
  · obtain ⟨-, oc, hoc, -, hwout⟩ := smeltTarget_spec ht
    have hin₁ := (hslots inputSlot (by decide)).trans hin
    have hw := weigh_afterSmelt w out hin₁ (hr1.count_ne_zero hin₁)
      ((hslots outputSlot (by decide)).trans hoc)
    have := hwout w
    simp only [hcooked, Option.map_some, Option.getD_some]
    omega

theorem publish_conserves (pos : Pos) (burn cook : UInt32) : Conserves (f.publish pos burn cook) := by
  unfold publish
  dsimp only
  split
  · exact .bind (.setBlock _ _) fun _ => .pure _
  · exact .pure _

theorem tick_balance {pos : Pos} {r r' : Realm} {changed : Bool} (hr : r.NoEmptyStack)
    (h : (Furnace.tick f pos).run r = .ok (changed, r')) (w : Identity → Nat) :
    r'.weigh w + (f.burnOf (r.slotsOf f.inventory)).taken w =
      r.weigh w + (f.burnOf (r.slotsOf f.inventory)).made w := by
  unfold tick at h
  rw [run_slotsOf_bind] at h
  obtain ⟨burn, r1, hign, h⟩ := bind_run_ok h
  obtain ⟨hburn, hw1, hslots⟩ := f.ignite_spec hr hign
  have hr1 := f.ignite_preserves Realm.slotStable_noEmptyStack _ hr hign
  have hw1 := hw1 w
  split at h
  · next hpos =>
    obtain ⟨cook, r2, hcook, h⟩ := bind_run_ok h
    have hw2 := f.cookStep_balance hr1 hslots hcook w
    have hr2 := f.cookStep_preserves Realm.slotStable_noEmptyStack _ hr1 hcook
    have hw3 := (f.publish_conserves pos _ _ hr2 h).2 w
    have hburning := hburn.mp hpos
    simp only [burnOf, Burn.taken, Burn.made, if_pos hburning, Option.map_map, Function.comp_def]
    omega
  · next hpos =>
    have hw3 := (f.publish_conserves pos _ _ hr1 h).2 w
    have hburning : ¬(0 < f.burn ∨ (f.litFuel (r.slotsOf f.inventory)).isSome) :=
      fun hb => hpos (hburn.mpr hb)
    simp only [burnOf, Burn.taken, Burn.made, if_neg hburning, Option.map_none, Option.getD_none,
      Option.map_map, Function.comp_def]
    omega

end Furnace

namespace World

theorem turn_balance {now : Tick} {p : Pos} {r r' : Realm} {t : Turn} (hr : r.NoEmptyStack)
    (h : (turn now p).run r = .ok (t, r')) (w : Identity → Nat) :
    r'.weigh w + ((burnAt r p).map (Burn.taken w)).sum =
      r.weigh w + ((burnAt r p).map (Burn.made w)).sum := by
  unfold turn at h
  rw [run_blockAt_bind] at h
  unfold burnAt
  split at h
  · next hp hb =>
    obtain ⟨ph, r1, ht, h⟩ := bind_run_ok h
    obtain ⟨-, rfl⟩ := pure_run_ok h
    simpa [hb] using (hp.tick_conserves now p hr ht).2 w
  · next f hb =>
    obtain ⟨active, r1, ht, h⟩ := bind_run_ok h
    obtain ⟨-, rfl⟩ := pure_run_ok h
    simpa [hb] using f.tick_balance hr ht w
  · next hnh hnf =>
    obtain ⟨-, rfl⟩ := pure_run_ok h
    split
    · next f hb => exact absurd hb (hnf f)
    · simp

theorem run_turnsAlong_nil {now : Tick} {r r' : Realm} {js : List (Pos × Turn)}
    (h : (([] : List Pos).mapM fun pos => return (pos, ← turn now pos)).run r = .ok (js, r')) :
    js = [] ∧ r' = r :=
  pure_run_ok h

theorem run_turnsAlong_cons {now : Tick} {p : Pos} {ps : List Pos} {r r' : Realm}
    {js : List (Pos × Turn)}
    (h : ((p :: ps).mapM fun pos => return (pos, ← turn now pos)).run r = .ok (js, r')) :
    ∃ t r1 rest, (turn now p).run r = .ok (t, r1) ∧
      (ps.mapM fun pos => return (pos, ← turn now pos)).run r1 = .ok (rest, r') ∧
      js = (p, t) :: rest := by
  rw [List.mapM_cons] at h
  obtain ⟨first, r1, hfirst, h⟩ := bind_run_ok h
  obtain ⟨t, r1', ht, hfirst⟩ := bind_run_ok hfirst
  obtain ⟨rfl, rfl⟩ := pure_run_ok hfirst
  obtain ⟨rest, r2, hrest, h⟩ := bind_run_ok h
  obtain ⟨rfl, rfl⟩ := pure_run_ok h
  exact ⟨t, r1, rest, ht, hrest, rfl⟩

/-- Turn after turn, the storages change by what the burns read along the way take and make. -/
theorem turnsAlong_balance (now : Tick) (w : Identity → Nat) :
    ∀ (ps : List Pos) {r r' : Realm} {ts : List (Pos × Turn)}, r.NoEmptyStack →
      (ps.mapM fun pos => return (pos, ← turn now pos)).run r = .ok (ts, r') →
      r'.weigh w + ((burnsAlong now ps r).map (Burn.taken w)).sum =
        r.weigh w + ((burnsAlong now ps r).map (Burn.made w)).sum
  | [], _, _, _, _, h => by
    obtain ⟨-, rfl⟩ := run_turnsAlong_nil h
    simp [burnsAlong]
  | p :: ps, r, r', ts, hr, h => by
    obtain ⟨t, r1, rest, ht, hrest, -⟩ := run_turnsAlong_cons h
    have hr1 := turn_preserves Realm.slotStable_noEmptyStack (Realm.blockStable_noEmptyStack.at p) now hr ht
    have hstep := turn_balance hr ht w
    have hrun := turnsAlong_balance now w ps hr1 hrest
    simp only [burnsAlong, ht, List.map_append, List.sum_append]
    omega

/-- Over a tick pass, the storages change by what the pass's burns take and make. -/
theorem tick_balance {now : Tick} {r r' : Realm} {sum : Summary} (hr : r.NoEmptyStack)
    (h : (World.tick now).run r = .ok (sum, r')) (w : Identity → Nat) :
    r'.weigh w + ((burns now r).map (Burn.taken w)).sum =
      r.weigh w + ((burns now r).map (Burn.made w)).sum := by
  unfold World.tick at h
  obtain ⟨ts, r1, hts, h⟩ := bind_run_ok h
  obtain ⟨-, rfl⟩ := pure_run_ok h
  unfold turns at hts
  rw [run_get_bind] at hts
  exact turnsAlong_balance now w _ hr hts

end World

namespace Burn

theorem sum_made_units (x : Identity) (bs : List Burn) :
    (bs.map (made fun y => if y = x then 1 else 0)).sum = smeltsInto x bs := by
  induction bs with
  | nil => rfl
  | cons b bs ih =>
    obtain ⟨fuel, _ | ⟨i, o⟩⟩ := b
    · simpa [made, smeltsInto] using ih
    · by_cases ho : o = x <;> simp [made, smeltsInto, ho] at * <;> omega

theorem sum_taken_units (x : Identity) (bs : List Burn) :
    (bs.map (taken fun y => if y = x then 1 else 0)).sum = smeltsFrom x bs + ignitionsOf x bs := by
  induction bs with
  | nil => rfl
  | cons b bs ih =>
    obtain ⟨_ | f, _ | ⟨i, o⟩⟩ := b
    · simpa [taken, smeltsFrom, ignitionsOf] using ih
    · by_cases hi : i = x <;> simp [taken, smeltsFrom, ignitionsOf, hi] at * <;> omega
    · by_cases hf : f = x <;> simp [taken, smeltsFrom, ignitionsOf, hf] at * <;> omega
    · by_cases hi : i = x <;> by_cases hf : f = x <;>
        simp [taken, smeltsFrom, ignitionsOf, hi, hf] at * <;> omega

/-- Weighing every unit as one, the burns make one unit per smelt and take one per smelt and
per fuel unit lit. -/
theorem sum_made_add_ignitions (bs : List Burn) :
    (bs.map (made fun _ => 1)).sum + ignitions bs = (bs.map (taken fun _ => 1)).sum := by
  induction bs with
  | nil => rfl
  | cons b bs ih =>
    obtain ⟨_ | f, _ | ⟨i, o⟩⟩ := b <;> simp [made, taken, ignitions] at * <;> omega

end Burn

/-- Over a tick pass, the units of every item change by the smelts that made it, less the
smelts that took it as input and the units of it lit as fuel; all units together drop by the
fuel lit. Pushing or pulling a unit with a hopper keeps the units of every item. -/
theorem tick_conserves_units {now : Tick} {r r' : Realm} {sum : Summary} (hr : r.NoEmptyStack)
    (h : (World.tick now).run r = .ok (sum, r')) :
    let bs := World.burns now r
    (∀ x, (r'.units x : Int) - r.units x =
      Burn.smeltsInto x bs - Burn.smeltsFrom x bs - Burn.ignitionsOf x bs) ∧
    (r'.totalUnits : Int) - r.totalUnits = -(Burn.ignitions bs : Int) ∧
    ∀ (hp : Hopper) (pos : Pos) (q q' : Realm) (moved : Bool), q.NoEmptyStack →
      ((hp.insert pos).run q = .ok (moved, q') ∨ (hp.extract pos).run q = .ok (moved, q')) →
      ∀ x, q'.units x = q.units x := by
  dsimp only
  refine ⟨fun x => ?_, ?_, fun hp pos q q' moved hq hmove x => ?_⟩
  · have := World.tick_balance hr h fun y => if y = x then 1 else 0
    rw [Burn.sum_made_units, Burn.sum_taken_units] at this
    simp only [Realm.units]
    omega
  · have := World.tick_balance hr h fun _ => 1
    have := Burn.sum_made_add_ignitions (World.burns now r)
    simp only [Realm.totalUnits]
    omega
  · rcases hmove with hmove | hmove
    · exact (hp.insert_conserves pos hq hmove).2 _
    · exact (hp.extract_conserves pos hq hmove).2 _

/-- A furnace one tick from a smelt, holding a unit of iron ore and a unit of coal, under a
hopper with two more units of ore: in one pass the furnace lights the coal and smelts the ore,
and the hopper refills the input slot. -/
theorem smelting_pass_balances :
    let r : Realm :=
      { blocks := (({} : BlockMap).set ⟨0, 0, 0⟩ (.furnace ⟨0, 199, ⟨0⟩, ⟨0⟩⟩)).set ⟨0, 1, 0⟩
          (.hopper ⟨.down, false, "", Tick.zero, 0, 0, ⟨1⟩, ⟨1⟩⟩)
        storages := #[⟨#[some (Stack.new .ironOre 1), some (Stack.new .coal 1), none], ⟨0⟩⟩,
          ⟨#[some (Stack.new .ironOre 2), none, none, none, none], ⟨1⟩⟩] }
    let bs := World.burns ⟨1⟩ r
    bs = [⟨some (Stack.new .coal 1).identity,
      some ((Stack.new .ironOre 1).identity, (Stack.new .ironIngot 1).identity)⟩] ∧
    ∃ sum r', (World.tick ⟨1⟩).run r = .ok (sum, r') ∧ r.NoEmptyStack ∧
      (∀ x, (r'.units x : Int) - r.units x =
        Burn.smeltsInto x bs - Burn.smeltsFrom x bs - Burn.ignitionsOf x bs) ∧
      (r'.totalUnits : Int) - r.totalUnits = -(Burn.ignitions bs : Int) ∧
      ∀ (hp : Hopper) (pos : Pos) (q q' : Realm) (moved : Bool), q.NoEmptyStack →
        ((hp.insert pos).run q = .ok (moved, q') ∨ (hp.extract pos).run q = .ok (moved, q')) →
        ∀ x, q'.units x = q.units x := by
  intro r bs
  have hr : r.NoEmptyStack := by decide
  -- the kernel runs the pass; elaborating the run by unification would be far slower
  have hok : ((World.tick ⟨1⟩).run r).toBool = true := by decide
  obtain ⟨⟨sum, r'⟩, h⟩ : ∃ v, (World.tick ⟨1⟩).run r = .ok v := by
    cases hrun : (World.tick ⟨1⟩).run r with
    | ok v => exact ⟨v, rfl⟩
    | error e =>
      rw [hrun] at hok
      cases hok
  exact ⟨by decide, sum, r', h, hr, tick_conserves_units hr h⟩

end ItemFlow
