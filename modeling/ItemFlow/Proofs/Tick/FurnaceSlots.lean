import ItemFlow.Proofs.Tick.Conservation
/-! The slot discipline of furnaces under hopper traffic. The slots of a furnace change in five
ways only: a hopper facing down from directly above puts a unit into the input slot, a hopper
facing any other way puts a unit of fuel into the fuel slot, a hopper directly below takes a
unit from the output slot, the furnace lights a unit of fuel, and the furnace smelts one input
unit into its output slot. Over any run of tick passes and hopper pushes and pulls, the slots of
a storage that only furnaces hold change by a chain of these moves; each move keeps the fuel
slot holding fuel and the output slot holding fresh smelting products, so the run does too. -/
namespace ItemFlow
open Act Furnace

namespace Block

/-- The storage a block holds, and whether it holds it as a furnace: all that hopper traffic
reads of a block besides its counters. -/
def holding : Block → Option (Bool × InventoryId)
  | .hopper h => some (false, h.inventory)
  | .chest c => some (false, c.inventory)
  | .furnace f => some (true, f.inventory)
  | _ => none

theorem inventory?_of_holding {b : Block} {x : Bool} {i : InventoryId}
    (h : b.holding = some (x, i)) : b.inventory? = some i := by
  cases b <;> simp_all [holding, inventory?]

theorem holding_of_inventory? {b : Block} {i : InventoryId} (h : b.inventory? = some i) :
    ∃ x, b.holding = some (x, i) := by
  cases b <;> simp_all [holding, inventory?]

theorem furnace_of_holding {b : Block} {i : InventoryId} (h : b.holding = some (true, i)) :
    ∃ f, b = .furnace f ∧ f.inventory = i := by
  cases b <;> simp_all [holding]

end Block

namespace Realm

def FurnaceAt (r : Realm) (q : Pos) (i : InventoryId) : Prop :=
  ∃ f, r.blockAt q = .furnace f ∧ f.inventory = i

/-- Storage `i` is held by furnaces alone: every block holding it is a furnace. -/
def FurnaceOnly (r : Realm) (i : InventoryId) : Prop :=
  ∀ q, (r.blockAt q).inventory? = some i → ∃ f, r.blockAt q = .furnace f

/-- `r'` has the blocks of `r` up to their counters: every position holds the same storage,
as a furnace or not, in both. -/
def SameLayout (r r' : Realm) : Prop :=
  ∀ q, (r'.blockAt q).holding = (r.blockAt q).holding

theorem furnaceAt_iff {r : Realm} {q : Pos} {i : InventoryId} :
    r.FurnaceAt q i ↔ (r.blockAt q).holding = some (true, i) := by
  constructor
  · rintro ⟨f, hf, rfl⟩
    simp [hf, Block.holding]
  · exact Block.furnace_of_holding

namespace SameLayout
variable {r r' r'' : Realm}

theorem refl (r : Realm) : r.SameLayout r := fun _ => rfl

theorem trans (h : r.SameLayout r') (h' : r'.SameLayout r'') : r.SameLayout r'' :=
  fun q => (h' q).trans (h q)

theorem of_blocks (h : r'.blocks = r.blocks) : r.SameLayout r' := fun q => by
  simp only [blockAt, h]

theorem setBlock (h : r.SameLayout r') {p : Pos} {b : Block} (hb : b.holding = (r.blockAt p).holding)
    (hair : b ≠ .air) : r.SameLayout { r' with blocks := r'.blocks.set p b } := by
  intro q
  by_cases hq : q = p
  · subst hq
    simp only [blockAt, BlockMap.get_set_self _ _ hair, hb]
  · simp only [blockAt, BlockMap.get_set_ne _ _ hq]
    exact h q

end SameLayout

theorem FurnaceOnly.ne_of_holding {r : Realm} {i j : InventoryId} (hi : r.FurnaceOnly i) {q : Pos}
    (h : (r.blockAt q).holding = some (false, j)) : j ≠ i := by
  rintro rfl
  obtain ⟨f, hf⟩ := hi q (Block.inventory?_of_holding h)
  simp [hf, Block.holding] at h

theorem FurnaceOnly.of_entries {r : Realm} {i : InventoryId}
    (h : ∀ e ∈ r.blocks.entries, e.2.inventory? = some i → e.2.holding = some (true, i)) :
    r.FurnaceOnly i := by
  intro q hq
  unfold blockAt BlockMap.get at hq ⊢
  split at hq
  · next p b hfind =>
    obtain ⟨f, hf, -⟩ := Block.furnace_of_holding (h (p, b) (List.mem_of_find?_eq_some hfind) hq)
    exact ⟨f, hf⟩
  · simp [Block.inventory?] at hq

theorem FurnaceOnly.furnace_of_holding_eq {r : Realm} {i : InventoryId} (hi : r.FurnaceOnly i)
    {b : Block} {q : Pos} (hb : b.holding = (r.blockAt q).holding) (hinv : b.inventory? = some i) :
    ∃ f, b = .furnace f ∧ f.inventory = i := by
  obtain ⟨x, hx⟩ := Block.holding_of_inventory? hinv
  obtain ⟨f, hf⟩ := hi q (Block.inventory?_of_holding (hb ▸ hx))
  have hq : (r.blockAt q).holding = some (true, f.inventory) := by simp [hf, Block.holding]
  rw [hq, hx] at hb
  obtain ⟨rfl, rfl⟩ := Prod.mk.inj (Option.some.inj hb)
  exact Block.furnace_of_holding hx

end Realm

namespace Stack

/-- A smelting product: a recipe's output item, with no wear and no metadata. -/
def IsProduct (st : Stack) : Prop :=
  (∃ k : ItemKind, k.smeltOutput? = some st.kind) ∧ st.durability = none ∧ st.metadata = none

theorem IsProduct.of_identity {st e : Stack} (he : e.IsProduct) (h : st.identity = e.identity) :
    st.IsProduct := by
  have h : (⟨st.kind, st.durability, st.metadata⟩ : Identity) = ⟨e.kind, e.durability, e.metadata⟩ := h
  simp only [Identity.mk.injEq] at h
  obtain ⟨hk, hd, hm⟩ := h
  exact ⟨hk ▸ he.1, hd ▸ he.2.1, hm ▸ he.2.2⟩

theorem kind_of_shrink {st st' : Stack} (h : st.shrink = some st') : st'.kind = st.kind :=
  congrArg Identity.kind (identity_of_shrink h)

end Stack

namespace Slots

/-- `c` is slot `k` of `s` with one more unit of `unit`'s item: a single unit in an empty slot,
or one more on a comparable stack that is not full. -/
def OneMore (s : Slots) (k : Nat) (unit : Stack) (c : Option Stack) : Prop :=
  s[k]? = some none ∧ c = some unit.single ∨
    ∃ e, s[k]? = some (some e) ∧ e.comparable unit ∧ ¬e.isFull ∧ c = some (e.withCount (e.count + 1))

def OneLess (s : Slots) (k : Nat) (c : Option Stack) : Prop :=
  ∃ e, s[k]? = some (some e) ∧ c = e.shrink

theorem eq_of_getElem?_set!_self {s : Slots} {k : Nat} {c d : Option Stack}
    (h : (s.set! k c)[k]? = some d) : c = d := by
  rw [Array.set!_eq_setIfInBounds, Array.getElem?_setIfInBounds_self] at h
  split at h
  · exact Option.some.inj h
  · cases h

end Slots

namespace Furnace

/-- What a hopper at `p` facing `face` may do to the slots of furnace storage `i`; positions
are read in the realm `r`. -/
inductive HopperMove (r : Realm) (i : InventoryId) (p : Pos) (face : Face) (s : Slots) :
    Slots → Prop
  /-- Facing down, directly above a furnace on `i`, it feeds the input slot. -/
  | feedInput {q : Pos} {unit : Stack} {c : Option Stack} : face = .down →
      p.side .down = .ok q → r.FurnaceAt q i → s.OneMore inputSlot unit c →
      HopperMove r i p face s (s.set! inputSlot c)
  /-- Facing another way, towards a furnace on `i`, it feeds the fuel slot with fuel. -/
  | feedFuel {q : Pos} {unit : Stack} {c : Option Stack} : face ≠ .down →
      p.side face = .ok q → r.FurnaceAt q i → unit.kind.isFuel → s.OneMore fuelSlot unit c →
      HopperMove r i p face s (s.set! fuelSlot c)
  /-- Directly below a furnace on `i`, it takes a unit of the output. -/
  | take {q : Pos} {c : Option Stack} : p.side .up = .ok q → r.FurnaceAt q i →
      s.OneLess outputSlot c → HopperMove r i p face s (s.set! outputSlot c)

/-- What the furnace at `q`, on storage `i`, does to its own slots. -/
inductive FurnaceMove (r : Realm) (i : InventoryId) (q : Pos) (s : Slots) : Slots → Prop
  /-- With a smelt possible, it lights a unit of fuel. -/
  | ignite {fuel : Stack} : r.FurnaceAt q i → (smeltTarget s).isSome →
      s[fuelSlot]? = some (some fuel) → 0 < fuel.kind.burnTicks →
      FurnaceMove r i q s (s.set! fuelSlot fuel.shrink)
  /-- It smelts a unit of input into its output slot. -/
  | smelt {input out : Stack} : r.FurnaceAt q i → s[inputSlot]? = some (some input) →
      smeltTarget s = some out →
      FurnaceMove r i q s ((s.set! inputSlot input.shrink).set! outputSlot (some out))

/-- A change of the slots of furnace storage `i` under hopper traffic: a hopper's or a
furnace's. -/
inductive Move (r : Realm) (i : InventoryId) (s s' : Slots) : Prop
  | hopper {p : Pos} {face : Face} : HopperMove r i p face s s' → Move r i s s'
  | furnace {q : Pos} : FurnaceMove r i q s s' → Move r i s s'

/-- The slot discipline of a furnace: its fuel slot holds nothing or something that burns, and
its output slot nothing or a smelting product. -/
structure Tidy (s : Slots) : Prop where
  fuel : ∀ st, s[fuelSlot]? = some (some st) → 0 < st.kind.burnTicks
  output : ∀ st, s[outputSlot]? = some (some st) → st.IsProduct

theorem smeltTarget_isProduct {s : Slots} {out : Stack} (h : smeltTarget s = some out) :
    out.IsProduct := by
  obtain ⟨⟨input, -, hsm⟩, -⟩ := smeltTarget_spec h
  obtain ⟨k, hk, hid⟩ := Option.map_eq_some_iff.mp hsm
  have hid : (⟨k, none, none⟩ : Identity) = ⟨out.kind, out.durability, out.metadata⟩ := hid
  simp only [Identity.mk.injEq] at hid
  obtain ⟨rfl, hd, hm⟩ := hid
  exact ⟨⟨input.kind, hk⟩, hd.symm, hm.symm⟩

namespace Tidy
variable {s : Slots}

theorem set_input (h : Tidy s) (c : Option Stack) : Tidy (s.set! inputSlot c) where
  fuel st hst := h.fuel st (by simpa [Array.set!_eq_setIfInBounds, inputSlot, fuelSlot] using hst)
  output st hst := h.output st (by simpa [Array.set!_eq_setIfInBounds, inputSlot, outputSlot] using hst)

theorem set_fuel (h : Tidy s) {c : Option Stack} (hc : ∀ st, c = some st → 0 < st.kind.burnTicks) :
    Tidy (s.set! fuelSlot c) where
  fuel st hst := hc st (Slots.eq_of_getElem?_set!_self hst)
  output st hst := h.output st (by simpa [Array.set!_eq_setIfInBounds, fuelSlot, outputSlot] using hst)

theorem set_output (h : Tidy s) {c : Option Stack} (hc : ∀ st, c = some st → st.IsProduct) :
    Tidy (s.set! outputSlot c) where
  fuel st hst := h.fuel st (by simpa [Array.set!_eq_setIfInBounds, fuelSlot, outputSlot] using hst)
  output st hst := hc st (Slots.eq_of_getElem?_set!_self hst)

end Tidy

section Moves
variable {r : Realm} {i : InventoryId} {s s' : Slots}

/-- A hopper keeps a furnace tidy: fuel comes in only as fuel, and the output slot only loses
units of what it holds. -/
theorem HopperMove.tidy {p : Pos} {face : Face} (hm : HopperMove r i p face s s') (hs : Tidy s) :
    Tidy s' := by
  cases hm with
  | feedInput _ _ _ _ => exact hs.set_input _
  | feedFuel _ _ _ hfuel hc =>
    refine hs.set_fuel fun st hst => ?_
    rcases hc with ⟨-, rfl⟩ | ⟨e, he, -, -, rfl⟩
    · cases hst
      simpa [ItemKind.isFuel, Stack.single] using hfuel
    · cases hst
      exact hs.fuel e he
  | take _ _ hc =>
    obtain ⟨e, he, rfl⟩ := hc
    exact hs.set_output fun st hst => (hs.output e he).of_identity (Stack.identity_of_shrink hst)

/-- A furnace keeps itself tidy: lighting leaves fuel in the fuel slot, and a smelt puts its
product into the output slot. -/
theorem FurnaceMove.tidy {q : Pos} (hm : FurnaceMove r i q s s') (hs : Tidy s) : Tidy s' := by
  cases hm with
  | ignite _ _ _ hburns =>
    exact hs.set_fuel fun st hst => Stack.kind_of_shrink hst ▸ hburns
  | smelt _ _ ht =>
    refine (hs.set_input _).set_output fun st hst => ?_
    cases hst
    exact smeltTarget_isProduct ht

theorem Move.tidy (hm : Move r i s s') (hs : Tidy s) : Tidy s' := by
  cases hm with
  | hopper hm => exact hm.tidy hs
  | furnace hm => exact hm.tidy hs

theorem Moves.tidy (hm : Relation.ReflTransGen (Move r i) s s') (hs : Tidy s) : Tidy s' := by
  induction hm with
  | refl => exact hs
  | tail _ step ih => exact step.tidy ih

end Moves

/-- A furnace takes a unit into its input slot from a hopper facing down, and into its fuel
slot from a hopper facing any other way, then only fuel. -/
theorem acceptsInsert_slot {s : Slots} {unit : Stack} {face : Face} {slot : Nat}
    (h : acceptsInsert s unit face = (true, slot)) :
    face = .down ∧ slot = inputSlot ∨ face ≠ .down ∧ unit.kind.isFuel ∧ slot = fuelSlot := by
  unfold acceptsInsert at h
  by_cases hface : face = .down
  · simp only [hface, ↓reduceIte, Prod.mk.injEq] at h
    exact .inl ⟨hface, h.2.symm⟩
  · by_cases hfuel : unit.kind.isFuel
    · simp only [hface, hfuel, ↓reduceIte, Prod.mk.injEq] at h
      exact .inr ⟨hface, hfuel, h.2.symm⟩
    · simp [hface, hfuel] at h

theorem nominate_slot {s : Slots} {stack : Stack} {slot : Nat} (h : nominate s = some (stack, slot)) :
    slot = outputSlot := by
  unfold nominate at h
  split at h
  · cases h
    rfl
  · cases h

theorem smeltTarget_congr {s s' : Slots} (hin : s'[inputSlot]? = s[inputSlot]?)
    (hout : s'[outputSlot]? = s[outputSlot]?) : smeltTarget s' = smeltTarget s := by
  simp only [smeltTarget, hin, hout]

end Furnace

theorem Hopper.placeOne_cases {inv : InventoryId} {slot : Nat} {source : Stack} {r r' : Realm}
    {ok : Bool} (h : (Hopper.placeOne inv slot source).run r = .ok (ok, r')) :
    r' = r ∨ ∃ c, (r.slotsOf inv).OneMore slot source c ∧
      r' = r.applyEdit inv ⟨(r.slotsOf inv).set! slot c, [⟨slot, c⟩]⟩ := by
  unfold Hopper.placeOne at h
  rw [run_slotsOf_bind] at h
  split at h
  · exact .inl (pure_run_ok h).2
  · next hc =>
    have hc := Slots.getElem?_of_item hc
    rw [run_bind_ok (run_setItem_of_getElem? hc)] at h
    obtain ⟨-, rfl⟩ := pure_run_ok h
    refine .inr ⟨_, .inl ⟨hc, rfl⟩, ?_⟩
    simp only [Option.bind_some, Stack.stored_of_fits (Stack.fits_single source)]
  · next e hc =>
    have hc := Slots.getElem?_of_item hc
    split at h
    · exact .inl (pure_run_ok h).2
    · next hok =>
      simp only [Bool.or_eq_true, Bool.not_eq_true', not_or, Bool.not_eq_false] at hok
      obtain ⟨hcomp, hfull⟩ := hok
      have hfull : ¬e.isFull = true := by simpa using hfull
      rw [run_bind_ok (run_setItem_of_getElem? hc)] at h
      obtain ⟨-, rfl⟩ := pure_run_ok h
      refine .inr ⟨_, .inr ⟨e, hc, hcomp, hfull, rfl⟩, ?_⟩
      simp only [Option.bind_some, Stack.stored_of_fits (Stack.grow_one hfull).2]

/-- Run from a realm laid out like `r₀`, the action keeps that layout and changes the slots of
storage `i` only by a chain of `R` steps. -/
def Act.Disciplined {α : Type} (r₀ : Realm) (i : InventoryId) (R : Slots → Slots → Prop)
    (x : Act α) : Prop :=
  ∀ ⦃r a r'⦄, r₀.SameLayout r → x.run r = .ok (a, r') →
    r₀.SameLayout r' ∧ Relation.ReflTransGen R (r.slotsOf i) (r'.slotsOf i)

namespace Act.Disciplined
variable {α β : Type} {r₀ : Realm} {i : InventoryId} {R : Slots → Slots → Prop}

theorem of_frame {x : Act α}
    (h : ∀ ⦃r a r'⦄, x.run r = .ok (a, r') → r'.blocks = r.blocks ∧ r'.slotsOf i = r.slotsOf i) :
    Disciplined r₀ i R x := by
  intro r a r' hr hx
  obtain ⟨hb, hs⟩ := h hx
  exact ⟨hr.trans (.of_blocks hb), hs ▸ .refl⟩

theorem mono {R' : Slots → Slots → Prop} (hR : ∀ s s', R s s' → R' s s') {x : Act α}
    (hx : Disciplined r₀ i R x) : Disciplined r₀ i R' x := by
  intro r a r' hr h
  obtain ⟨hr', hm⟩ := hx hr h
  exact ⟨hr', Relation.ReflTransGen.mono hR _ _ hm⟩

theorem pure (a : α) : Disciplined r₀ i R (Pure.pure a : Act α) :=
  of_frame fun _ _ _ h => by
    cases h
    exact ⟨rfl, rfl⟩

theorem bind {x : Act α} {f : α → Act β} (hx : Disciplined r₀ i R x)
    (hf : ∀ a, Disciplined r₀ i R (f a)) : Disciplined r₀ i R (x >>= f) := by
  intro r b r'' hr h
  obtain ⟨a, r', h1, h2⟩ := bind_run_ok h
  obtain ⟨hr', hm⟩ := hx hr h1
  obtain ⟨hr'', hm'⟩ := hf a hr' h2
  exact ⟨hr'', hm.trans hm'⟩

theorem get_bind {f : Realm → Act β} (hf : ∀ r, Disciplined r₀ i R (f r)) :
    Disciplined r₀ i R ((MonadState.get : Act Realm) >>= f) := by
  intro r b r' hr h
  rw [run_get_bind] at h
  exact hf r hr h

theorem lift_bind {x : Except Overflow α} {f : α → Act β}
    (hf : ∀ a, x = .ok a → Disciplined r₀ i R (f a)) : Disciplined r₀ i R (Act.lift x >>= f) := by
  intro r b r' hr h
  rw [run_lift_bind] at h
  cases x with
  | ok a => exact hf a rfl hr h
  | error e => cases h

theorem blockAt_bind {p : Pos} {f : Block → Act β}
    (hf : ∀ b, b.holding = (r₀.blockAt p).holding → Disciplined r₀ i R (f b)) :
    Disciplined r₀ i R (Act.blockAt p >>= f) := by
  intro r a r' hr h
  rw [run_blockAt_bind] at h
  exact hf _ (hr p) hr h

theorem slotsOf_bind {j : InventoryId} {f : Slots → Act β} (hf : ∀ s, Disciplined r₀ i R (f s)) :
    Disciplined r₀ i R (Act.slotsOf j >>= f) := by
  intro r a r' hr h
  rw [run_slotsOf_bind] at h
  exact hf _ hr h

theorem setBlock {p : Pos} {b : Block} (hb : b.holding = (r₀.blockAt p).holding) (hair : b ≠ .air) :
    Disciplined r₀ i R (Act.setBlock p b) := by
  intro r a r' hr h
  cases h
  exact ⟨hr.setBlock hb hair, .refl⟩

theorem setItem_of_ne {j : InventoryId} (hj : j ≠ i) (slot : Nat) (st : Option Stack) :
    Disciplined r₀ i R (Act.setItem j slot st) :=
  of_frame fun r a r' h => by
    rcases setItem_cases h with ⟨e, -, -, rfl⟩ | ⟨-, rfl⟩
    · exact ⟨by simp, Realm.slotsOf_applyEdit_of_ne hj e⟩
    · exact ⟨rfl, rfl⟩

theorem addItem_of_ne {j : InventoryId} (hj : j ≠ i) (st : Stack) :
    Disciplined r₀ i R (Act.addItem j st) :=
  of_frame fun r a r' h => by
    rcases addItem_cases h with ⟨e, -, -, rfl⟩ | ⟨-, rfl⟩
    · exact ⟨by simp, Realm.slotsOf_applyEdit_of_ne hj e⟩
    · exact ⟨rfl, rfl⟩

theorem decrement_of_ne {j : InventoryId} (hj : j ≠ i) (slot : Nat) :
    Disciplined r₀ i R (Act.decrement j slot) :=
  of_frame fun r a r' h => by
    rw [run_decrement] at h
    split at h <;> cases h
    · exact ⟨by simp, Realm.slotsOf_applyEdit_of_ne hj _⟩
    · exact ⟨rfl, rfl⟩

theorem mapM {γ δ : Type} {f : γ → Act δ} (hf : ∀ c, Disciplined r₀ i R (f c)) :
    ∀ l : List γ, Disciplined r₀ i R (l.mapM f)
  | [] => .pure _
  | c :: l => by
    rw [List.mapM_cons]
    exact .bind (hf c) fun _ => .bind (Disciplined.mapM hf l) fun _ => .pure _

theorem forM {γ : Type} {f : γ → Act Unit} :
    ∀ {l : List γ}, (∀ c ∈ l, Disciplined r₀ i R (f c)) → Disciplined r₀ i R (l.forM f)
  | [], _ => .pure _
  | c :: _, hf => .bind (hf c List.mem_cons_self) fun _ =>
    Disciplined.forM fun c' hc' => hf c' (List.mem_cons_of_mem _ hc')

theorem decrement_take {p q : Pos} {face : Face} (hq : p.side .up = .ok q) (hf : r₀.FurnaceAt q i) :
    Disciplined r₀ i (HopperMove r₀ i p face) (Act.decrement i outputSlot) := by
  intro r a r' hr h
  cases hc : (r.slotsOf i)[outputSlot]? with
  | none =>
    simp only [run_decrement, Slots.decrement, hc] at h
    obtain ⟨-, rfl⟩ := pure_run_ok h
    exact ⟨hr, .refl⟩
  | some c =>
    cases c with
    | none =>
      simp only [run_decrement, Slots.decrement, hc] at h
      obtain ⟨-, rfl⟩ := pure_run_ok h
      rw [Realm.slotsOf_applyEdit_slotsOf]
      exact ⟨hr.trans (.of_blocks (by simp)), .refl⟩
    | some e =>
      rw [run_decrement_filled hc] at h
      obtain ⟨-, rfl⟩ := pure_run_ok h
      refine ⟨hr.trans (.of_blocks (by simp)), .single ?_⟩
      rw [Realm.slotsOf_applyEdit_set_self]
      exact .take hq hf ⟨e, hc, rfl⟩

end Act.Disciplined

namespace Hopper
variable {r₀ : Realm} {i : InventoryId} {R : Slots → Slots → Prop}

theorem placeOne_of_ne {inv : InventoryId} (hne : inv ≠ i) (slot : Nat) (source : Stack) :
    Disciplined r₀ i R (placeOne inv slot source) :=
  Disciplined.of_frame fun r a r' h => by
    rcases placeOne_cases h with rfl | ⟨c, -, rfl⟩
    · exact ⟨rfl, rfl⟩
    · exact ⟨by simp, Realm.slotsOf_applyEdit_of_ne hne _⟩

theorem placeOne_of_move {slot : Nat} {source : Stack}
    (hmove : ∀ s c, s.OneMore slot source c → R s (s.set! slot c)) :
    Disciplined r₀ i R (placeOne i slot source) := by
  intro r a r' hr h
  rcases placeOne_cases h with rfl | ⟨c, hc, rfl⟩
  · exact ⟨hr, .refl⟩
  · refine ⟨hr.trans (.of_blocks (by simp)), .single ?_⟩
    rw [Realm.slotsOf_applyEdit_set_self]
    exact hmove _ _ hc

/-- A hopper at `pos` offering to the block it faces: a furnace on `i` is fed through its
input slot from above and its fuel slot otherwise, and any other container is on another
storage. -/
theorem offer_disciplined (hi : r₀.FurnaceOnly i) {h : Hopper} {pos q : Pos} {dest : Block}
    {inv : InventoryId} (hq : pos.side h.facing = .ok q)
    (hdest : dest.holding = (r₀.blockAt q).holding) (hinv : dest.inventory? = some inv)
    (source : Stack) : Disciplined r₀ i (HopperMove r₀ i pos h.facing) (h.offer dest inv source) := by
  unfold offer
  split
  · next f =>
    have hinv : f.inventory = inv := by simpa [Block.inventory?] using hinv
    refine .slotsOf_bind fun s => ?_
    split
    next ok slot hacc =>
    split
    · next hok =>
      by_cases hne : inv = i
      · subst hne
        have hf : r₀.FurnaceAt q inv := by
          rw [Realm.furnaceAt_iff, ← hdest, ← hinv]
          rfl
        refine placeOne_of_move fun s' c hc => ?_
        rcases Furnace.acceptsInsert_slot (hok ▸ hacc) with ⟨hdown, rfl⟩ | ⟨hside, hfuel, rfl⟩
        · exact .feedInput hdown (hdown ▸ hq) hf hc
        · exact .feedFuel hside hq hf hfuel hc
      · exact placeOne_of_ne hne _ _
    · exact .pure _
  · next hnot =>
    have hne : inv ≠ i := by
      rintro rfl
      obtain ⟨f, rfl, -⟩ := hi.furnace_of_holding_eq hdest hinv
      exact hnot f rfl
    exact .bind (.addItem_of_ne hne _) fun _ => .pure _

theorem offerEach_disciplined {h : Hopper} {dest : Block} {inv : InventoryId}
    (hoffer : ∀ source, Disciplined r₀ i R (h.offer dest inv source)) (hh : h.inventory ≠ i) :
    ∀ l, Disciplined r₀ i R (h.offerEach dest inv l)
  | [] => .pure _
  | (slot, source) :: rest => by
    unfold offerEach
    refine .bind (hoffer source) fun ok => ?_
    split
    · exact .bind (.decrement_of_ne hh _) fun _ => .pure _
    · exact offerEach_disciplined hoffer hh rest

theorem insert_disciplined (hi : r₀.FurnaceOnly i) (h : Hopper) (hh : h.inventory ≠ i) (pos : Pos) :
    Disciplined r₀ i (HopperMove r₀ i pos h.facing) (h.insert pos) := by
  unfold insert
  refine .lift_bind fun q hq => .blockAt_bind fun dest hdest => ?_
  split
  · exact .pure _
  · next inv hinv =>
    exact .slotsOf_bind fun _ => offerEach_disciplined (offer_disciplined hi hq hdest hinv) hh _

/-- A hopper pulling a nomination into a storage other than `i`: from `i` itself it pulls only
a nomination of the output slot of the furnace above it. -/
theorem pullOne_disciplined {pos q : Pos} {face : Face} (hq : pos.side .up = .ok q)
    {own inv : InventoryId} (hown : own ≠ i) {nominated : Option (Stack × Nat)}
    (hnom : inv = i → r₀.FurnaceAt q inv ∧
      ∀ stack slot, nominated = some (stack, slot) → slot = outputSlot) :
    Disciplined r₀ i (HopperMove r₀ i pos face) (pullOne own inv nominated) := by
  unfold pullOne
  split
  · exact .pure _
  · next stack slot =>
    split
    · exact .pure _
    · refine .slotsOf_bind fun slots => ?_
      split
      · split
        · exact .pure _
        · refine .bind (.addItem_of_ne hown _) fun res => ?_
          split
          · exact .pure _
          · refine .bind ?_ fun _ => .pure _
            by_cases hne : inv = i
            · obtain ⟨hf, hslot⟩ := hnom hne
              subst hne
              obtain rfl := hslot stack slot rfl
              exact .decrement_take hq hf
            · exact .decrement_of_ne hne _
      · exact .pure _

theorem extract_disciplined (hi : r₀.FurnaceOnly i) (h : Hopper) (hh : h.inventory ≠ i) (pos : Pos) :
    Disciplined r₀ i (HopperMove r₀ i pos h.facing) (h.extract pos) := by
  unfold extract
  refine .lift_bind fun q hq => .blockAt_bind fun origin horigin => ?_
  split
  · exact .pure _
  · next inv hinv =>
    refine .slotsOf_bind fun slots => pullOne_disciplined hq hh fun hne => ?_
    -- a pull from `i` is a pull from the furnace above, which nominates its output slot
    subst hne
    obtain ⟨f, rfl, -⟩ := hi.furnace_of_holding_eq horigin hinv
    refine ⟨?_, fun stack slot hnom => Furnace.nominate_slot hnom⟩
    rw [Realm.furnaceAt_iff, ← horigin]
    simpa [Block.inventory?, Block.holding] using hinv

theorem tick_disciplined (hi : r₀.FurnaceOnly i) {h : Hopper} {pos : Pos}
    (hpos : (r₀.blockAt pos).holding = some (false, h.inventory)) (now : Tick) :
    Disciplined r₀ i (HopperMove r₀ i pos h.facing) (h.tick now pos) := by
  have hh : h.inventory ≠ i := hi.ne_of_holding hpos
  have hset : ∀ h' : Hopper, h'.inventory = h.inventory →
      Disciplined r₀ i (HopperMove r₀ i pos h.facing) (Act.setBlock pos (.hopper h')) := fun h' he =>
    .setBlock (by rw [hpos, ← he]; rfl) nofun
  unfold tick
  refine .lift_bind fun tc _ => .lift_bind fun cc _ => ?_
  dsimp only
  split
  · exact .bind (hset _ rfl) fun _ => .pure _
  · split
    · exact .bind (hset _ rfl) fun _ => .pure _
    · -- the pushing and pulling hopper is this one with new counters, facing the same way
      refine .bind (insert_disciplined hi _ (by exact hh) _) fun _ =>
        .bind (extract_disciplined hi _ (by exact hh) _) fun _ => ?_
      split
      · exact .pure _
      · exact .bind (hset _ rfl) fun _ => .pure _

end Hopper

namespace Furnace
variable {r₀ : Realm} {i : InventoryId} {f : Furnace} {R : Slots → Slots → Prop}

theorem ignite_moves {q : Pos} (hf : r₀.FurnaceAt q f.inventory) {r r' : Realm} {burn : UInt32}
    (h : (f.ignite (smeltTarget (r.slotsOf f.inventory))).run r = .ok (burn, r')) :
    r'.blocks = r.blocks ∧
      Relation.ReflTransGen (FurnaceMove r₀ f.inventory q) (r.slotsOf f.inventory)
        (r'.slotsOf f.inventory) ∧
      smeltTarget (r'.slotsOf f.inventory) = smeltTarget (r.slotsOf f.inventory) := by
  rcases ignite_cases h with ⟨-, rfl, -⟩ | ⟨fuel, -, ht, hslot, hburns, -, rfl⟩
  · exact ⟨rfl, .refl, rfl⟩
  · refine ⟨by simp, .single ?_, smeltTarget_congr ?_ ?_⟩
    · rw [Realm.slotsOf_applyEdit_set_self]
      exact .ignite hf ht hslot hburns
    · exact Realm.slotsOf_applyEdit_set (by decide) _ _
    · exact Realm.slotsOf_applyEdit_set (by decide) _ _

theorem cookStep_moves {q : Pos} (hf : r₀.FurnaceAt q f.inventory) {r r' : Realm} {cook : UInt32}
    (h : (f.cookStep (smeltTarget (r.slotsOf f.inventory))).run r = .ok (cook, r')) :
    r'.blocks = r.blocks ∧
      Relation.ReflTransGen (FurnaceMove r₀ f.inventory q) (r.slotsOf f.inventory)
        (r'.slotsOf f.inventory) := by
  rcases cookStep_run (fun _ _ => rfl) h with ⟨-, ⟨-, rfl⟩ | ⟨input, out, -, hin, ht, rfl⟩⟩
  · exact ⟨rfl, .refl⟩
  · refine ⟨by simp, .single ?_⟩
    rw [slotsOf_afterSmelt_self]
    exact .smelt hf hin ht

theorem ignite_of_ne (hne : f.inventory ≠ i) (target : Option Stack) :
    Disciplined r₀ i R (f.ignite target) :=
  Disciplined.of_frame fun r a r' h => by
    rcases ignite_cases h with ⟨-, rfl, -⟩ | ⟨-, -, -, -, -, -, rfl⟩
    · exact ⟨rfl, rfl⟩
    · exact ⟨by simp, Realm.slotsOf_applyEdit_of_ne hne _⟩

theorem cookStep_of_ne (hne : f.inventory ≠ i) (target : Option Stack) :
    Disciplined r₀ i R (f.cookStep target) := by
  unfold cookStep
  split
  · refine .lift_bind fun cook _ => ?_
    split
    · exact .bind (.decrement_of_ne hne _) fun _ => .bind (.setItem_of_ne hne _ _) fun _ => .pure _
    · exact .pure _
  · exact .pure _

theorem publish_disciplined {pos : Pos} (hpos : (r₀.blockAt pos).holding = some (true, f.inventory))
    (burn cook : UInt32) : Disciplined r₀ i R (f.publish pos burn cook) := by
  unfold publish
  dsimp only
  split
  · exact .bind (.setBlock (by rw [hpos]; rfl) nofun) fun _ => .pure _
  · exact .pure _

/-- A furnace ticking at its own position: on storage `i` it lights and smelts, and on any
other storage it leaves `i` alone. -/
theorem tick_disciplined {pos : Pos} (hpos : (r₀.blockAt pos).holding = some (true, f.inventory)) :
    Disciplined r₀ i (FurnaceMove r₀ i pos) (Furnace.tick f pos) := by
  by_cases hne : f.inventory = i
  · subst hne
    have hf : r₀.FurnaceAt pos f.inventory := Realm.furnaceAt_iff.mpr hpos
    intro r a r' hr h
    unfold Furnace.tick at h
    rw [run_slotsOf_bind] at h
    obtain ⟨burn, r1, hign, h⟩ := bind_run_ok h
    obtain ⟨hb1, hm1, ht1⟩ := ignite_moves hf hign
    have hr1 : r₀.SameLayout r1 := hr.trans (.of_blocks hb1)
    split at h
    · -- lighting leaves the smelt allowed as it was, so the cooking step aims at it
      obtain ⟨cook, r2, hcook, h⟩ := bind_run_ok h
      rw [← ht1] at hcook
      obtain ⟨hb2, hm2⟩ := cookStep_moves hf hcook
      obtain ⟨hr3, hm3⟩ := publish_disciplined hpos _ _ (hr1.trans (.of_blocks hb2)) h
      exact ⟨hr3, hm1.trans (hm2.trans hm3)⟩
    · obtain ⟨hr3, hm3⟩ := publish_disciplined hpos _ _ hr1 h
      exact ⟨hr3, hm1.trans hm3⟩
  · unfold Furnace.tick
    refine .slotsOf_bind fun s => .bind (ignite_of_ne hne _) fun burn => ?_
    split
    · exact .bind (cookStep_of_ne hne _) fun _ => publish_disciplined hpos _ _
    · exact publish_disciplined hpos _ _

end Furnace

namespace World
variable {r₀ : Realm} {i : InventoryId}

theorem turn_disciplined (hi : r₀.FurnaceOnly i) (now : Tick) (pos : Pos) :
    Disciplined r₀ i (Move r₀ i) (turn now pos) := by
  unfold turn
  refine .blockAt_bind fun b hb => ?_
  split
  · exact .bind ((Hopper.tick_disciplined hi hb.symm now).mono fun _ _ => .hopper) fun _ => .pure _
  · exact .bind ((Furnace.tick_disciplined hb.symm).mono fun _ _ => .furnace) fun _ => .pure _
  · exact .pure _

theorem tick_disciplined (hi : r₀.FurnaceOnly i) (now : Tick) :
    Disciplined r₀ i (Move r₀ i) (tick now) := by
  unfold tick turns
  exact .bind (.get_bind fun _ =>
    .mapM (fun pos => .bind (turn_disciplined hi now pos) fun _ => .pure _) _) fun _ => .pure _

end World

/-- The slot actions of hopper traffic around storage `i`: tick passes, and pushes and pulls of
hoppers on other storage. -/
def SlotOp.Traffic (i : InventoryId) : SlotOp → Prop
  | .pass _ => True
  | .insert h _ | .extract h _ => h.inventory ≠ i
  | _ => False

theorem SlotOp.run_disciplined {r₀ : Realm} {i : InventoryId} (hi : r₀.FurnaceOnly i) (op : SlotOp)
    (hop : op.Traffic i) : Disciplined r₀ i (Move r₀ i) op.run := by
  cases op with
  | pass now => exact .bind (World.tick_disciplined hi now) fun _ => .pure _
  | insert h pos =>
    exact .bind ((h.insert_disciplined hi hop pos).mono fun _ _ => .hopper) fun _ => .pure _
  | extract h pos =>
    exact .bind ((h.extract_disciplined hi hop pos).mono fun _ _ => .hopper) fun _ => .pure _
  | _ => exact hop.elim

/-- The slot discipline of furnaces under hopper traffic, for a storage `i` that only furnaces
hold. A hopper pushing, pulling or ticking at `pos` changes the slots of `i` only by moves of a
hopper at `pos` facing its way: it feeds the input slot facing down from directly above a
furnace on `i`, feeds the fuel slot with fuel facing any other way, and takes from the output
slot from directly below. A furnace ticking at `pos` changes them only by its own lighting of
fuel and smelting of input into output. Over any run of tick passes and hopper pushes and
pulls the slots of `i` change by a chain of such moves, so a fuel slot holding fuel and an
output slot holding smelting products stay so. -/
theorem furnace_slot_discipline (r : Realm) (i : InventoryId) (hi : r.FurnaceOnly i) :
    (∀ (h : Hopper) (pos : Pos), h.inventory ≠ i →
      Disciplined r i (HopperMove r i pos h.facing) (h.insert pos) ∧
        Disciplined r i (HopperMove r i pos h.facing) (h.extract pos)) ∧
    (∀ (h h₀ : Hopper) (pos : Pos) (now : Tick), r.blockAt pos = .hopper h₀ →
      h.inventory = h₀.inventory → Disciplined r i (HopperMove r i pos h.facing) (h.tick now pos)) ∧
    (∀ (f : Furnace) (pos : Pos), r.FurnaceAt pos f.inventory →
      Disciplined r i (FurnaceMove r i pos) (Furnace.tick f pos)) ∧
    ∀ (ops : List SlotOp) (r' : Realm), (∀ op ∈ ops, op.Traffic i) →
      (ops.forM SlotOp.run).run r = .ok ((), r') →
      Relation.ReflTransGen (Move r i) (r.slotsOf i) (r'.slotsOf i) ∧
        (Tidy (r.slotsOf i) → Tidy (r'.slotsOf i)) := by
  refine ⟨fun h pos hh => ⟨h.insert_disciplined hi hh pos, h.extract_disciplined hi hh pos⟩,
    fun h h₀ pos now hpos heq => Hopper.tick_disciplined hi (by simp [hpos, heq, Block.holding]) now,
    fun f pos hf => Furnace.tick_disciplined (Realm.furnaceAt_iff.mp hf), fun ops r' hops hrun => ?_⟩
  have hmoves := (Disciplined.forM fun op hop => SlotOp.run_disciplined hi op (hops op hop))
    (Realm.SameLayout.refl r) hrun
  exact ⟨hmoves.2, Moves.tidy hmoves.2⟩

/-- A furnace fed iron ore by a hopper above it and coal by a hopper at its side, then ticked
and drained by a hopper below it, changes by furnace moves and stays tidy. -/
theorem fed_furnace_stays_tidy :
    let furnace : Furnace := ⟨0, 0, ⟨0⟩, ⟨0⟩⟩
    let above : Hopper := ⟨.down, false, "", Tick.zero, 0, 0, ⟨1⟩, ⟨1⟩⟩
    let beside : Hopper := ⟨.west, false, "", Tick.zero, 0, 0, ⟨2⟩, ⟨2⟩⟩
    let below : Hopper := ⟨.down, false, "", Tick.zero, 0, 0, ⟨3⟩, ⟨3⟩⟩
    let r : Realm :=
      { blocks := (((({} : BlockMap).set ⟨0, 64, 0⟩ (.furnace furnace)).set ⟨0, 65, 0⟩ (.hopper above)).set
          ⟨1, 64, 0⟩ (.hopper beside)).set ⟨0, 63, 0⟩ (.hopper below)
        storages := #[
          ⟨#[some (Stack.new .ironOre 2), some (Stack.new .coal 1), some (Stack.new .ironIngot 1)], ⟨0⟩⟩,
          ⟨#[some (Stack.new .ironOre 5), none, none, none, none], ⟨1⟩⟩,
          ⟨#[some (Stack.new .coal 4), none, none, none, none], ⟨2⟩⟩,
          ⟨Slots.empty 5, ⟨3⟩⟩] }
    let ops := [SlotOp.insert above ⟨0, 65, 0⟩, .insert beside ⟨1, 64, 0⟩, .pass ⟨1⟩,
      .extract below ⟨0, 63, 0⟩]
    r.FurnaceOnly ⟨0⟩ ∧ (∀ op ∈ ops, op.Traffic ⟨0⟩) ∧ ∃ r', (ops.forM SlotOp.run).run r = .ok ((), r') ∧
      Relation.ReflTransGen (Move r ⟨0⟩) (r.slotsOf ⟨0⟩) (r'.slotsOf ⟨0⟩) ∧
      (Tidy (r.slotsOf ⟨0⟩) → Tidy (r'.slotsOf ⟨0⟩)) := by
  intro furnace above beside below r ops
  have hi : r.FurnaceOnly ⟨0⟩ := .of_entries (by decide +kernel)
  have hops : ∀ op ∈ ops, op.Traffic ⟨0⟩ := by simp [ops, SlotOp.Traffic, above, beside, below]
  have hok : ((ops.forM SlotOp.run).run r).toBool = true := by decide +kernel
  obtain ⟨⟨⟩, r', hrun⟩ := Act.exists_run_ok hok
  exact ⟨hi, hops, r', hrun, (furnace_slot_discipline r ⟨0⟩ hi).2.2.2 ops r' hops hrun⟩

end ItemFlow
