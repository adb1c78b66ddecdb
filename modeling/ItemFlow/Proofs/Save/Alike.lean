import ItemFlow.Proofs.Tick.Cooldown
/-! Realms that tick alike. Two realms are alike under a renaming `σ` of the storage handles in
use when they store alike blocks at the same positions and the slots of each container in the
first are the slots of its renamed storage in the second. Alike hoppers agree in all a tick
reads or stores except their last tick and collect cooldown, which a tick reads only through
the rest the cooldowns leave. Main statement: from alike realms, a tick pass, and any run of
passes, gives the same summaries or the same trap, and leaves alike realms. -/
namespace ItemFlow
open Act

namespace Hopper

/-- A hopper whose cooldowns stay above the least signed 64-bit word over its rest and the turn
after it, so that counting them down never traps. -/
def Safe (h : Hopper) : Prop :=
  -2 ^ 63 + (h.rest : Int) < h.transferCooldown.toInt ∧
    -2 ^ 63 + (h.rest : Int) < h.collectCooldown.toInt

/-- Hoppers alike under a renaming of handles: they agree in all a tick reads but the collect
cooldown, rest as long, are both safe, and the second holds the renamed storage. -/
structure Alike (σ : InventoryId → InventoryId) (h h' : Hopper) : Prop where
  facing : h'.facing = h.facing
  powered : h'.powered = h.powered
  name : h'.name = h.name
  transferCooldown : h'.transferCooldown = h.transferCooldown
  rest : h'.rest = h.rest
  safe : h.Safe
  safe' : h'.Safe
  inventory : h'.inventory = σ h.inventory

end Hopper

namespace Block

/-- Blocks alike under a renaming of handles: the same kind, alike hoppers, chests of one name
and furnaces with the same counters, each container holding the renamed storage. -/
def Alike (σ : InventoryId → InventoryId) (b b' : Block) : Prop :=
  match b with
  | .air => b' = .air
  | .solid id => b' = .solid id
  | .hopper h => ∃ h', b' = .hopper h' ∧ h.Alike σ h'
  | .chest c => ∃ c', b' = .chest c' ∧ c'.name = c.name ∧ c'.inventory = σ c.inventory
  | .furnace f => ∃ f', b' = .furnace f' ∧ f'.burn = f.burn ∧ f'.cook = f.cook ∧
      f'.inventory = σ f.inventory
  | .enderChest => b' = .enderChest

variable {σ : InventoryId → InventoryId} {b b' : Block}

theorem Alike.inventory? (hb : b.Alike σ b') : b'.inventory? = b.inventory?.map σ := by
  cases b with
  | air | solid | enderChest => subst hb; rfl
  | hopper h =>
    obtain ⟨h', rfl, hh⟩ := hb
    simp [Block.inventory?, hh.inventory]
  | chest c =>
    obtain ⟨c', rfl, -, hc⟩ := hb
    simp [Block.inventory?, hc]
  | furnace f =>
    obtain ⟨f', rfl, -, -, hf⟩ := hb
    simp [Block.inventory?, hf]

theorem Alike.ticks (hb : b.Alike σ b') : World.ticks b' = World.ticks b := by
  cases b with
  | air | solid | enderChest => subst hb; rfl
  | hopper h => obtain ⟨h', rfl, -⟩ := hb; rfl
  | chest c => obtain ⟨c', rfl, -⟩ := hb; rfl
  | furnace f => obtain ⟨f', rfl, -⟩ := hb; rfl

theorem Alike.hopper {h h' : Hopper} (hh : h.Alike σ h') : (Block.hopper h).Alike σ (.hopper h') :=
  ⟨h', rfl, hh⟩

theorem Alike.furnace {f f' : Furnace} (hb : f'.burn = f.burn) (hc : f'.cook = f.cook)
    (hinv : f'.inventory = σ f.inventory) : (Block.furnace f).Alike σ (.furnace f') :=
  ⟨f', rfl, hb, hc, hinv⟩

theorem uses_of_inventory? {U : InventoryId → Prop} {i : InventoryId} (hb : b.inventory? = some i)
    (hi : U i) : ∀ j, b.inventory? = some j → U j := fun j hj => by
  rw [hb, Option.some.injEq] at hj
  exact hj ▸ hi

theorem Alike.ne_air (hb : b.Alike σ b') (hair : b ≠ .air) : b' ≠ .air := by
  cases b with
  | air => exact absurd rfl hair
  | solid | enderChest => subst hb; nofun
  | hopper h => obtain ⟨h', rfl, -⟩ := hb; nofun
  | chest c => obtain ⟨c', rfl, -⟩ := hb; nofun
  | furnace f => obtain ⟨f', rfl, -⟩ := hb; nofun

end Block

/-- Realms alike under a renaming `σ` of the handles `U` in use: alike blocks at the same
positions, each container's handle in use, the renamed storage holding the same slots, and
`σ` one-to-one on the handles in use, which both realms store. -/
structure Realm.Alike (U : InventoryId → Prop) (σ : InventoryId → InventoryId) (r r' : Realm) :
    Prop where
  entries : List.Forall₂ (fun e e' => e'.1 = e.1 ∧ e.2.Alike σ e'.2)
    r.blocks.entries r'.blocks.entries
  used : ∀ e ∈ r.blocks.entries, ∀ i, e.2.inventory? = some i → U i
  slots : ∀ i, U i → r'.slotsOf (σ i) = r.slotsOf i
  injective : ∀ i j, U i → U j → σ i = σ j → i = j
  stored : ∀ i, U i → i.idx < r.storages.size
  stored' : ∀ i, U i → (σ i).idx < r'.storages.size

namespace BlockMap

variable {σ : InventoryId → InventoryId}

abbrev EntriesAlike (σ : InventoryId → InventoryId) : List (Pos × Block) → List (Pos × Block) → Prop :=
  List.Forall₂ fun e e' => e'.1 = e.1 ∧ e.2.Alike σ e'.2

theorem find?_of_entriesAlike {l l' : List (Pos × Block)} (h : EntriesAlike σ l l') (p : Pos) :
    Option.Rel (fun e e' => e.2.Alike σ e'.2) (l.find? (·.1 == p)) (l'.find? (·.1 == p)) := by
  induction h with
  | nil => exact .none
  | @cons e e' l l' he _ ih =>
    obtain ⟨hkey, hb⟩ := he
    by_cases hp : e.1 = p
    · simpa [hp, hkey] using hb
    · simpa [hp, hkey] using ih

theorem insertEntry_entriesAlike {l l' : List (Pos × Block)} (h : EntriesAlike σ l l') (p : Pos)
    {b b' : Block} (hb : b.Alike σ b') : EntriesAlike σ (insertEntry p b l) (insertEntry p b' l') := by
  induction h with
  | nil => exact .cons ⟨rfl, hb⟩ .nil
  | @cons e e' l l' he hrest ih =>
    obtain ⟨q, c⟩ := e
    obtain ⟨q', c'⟩ := e'
    obtain ⟨hkey, hc⟩ := he
    dsimp only at hkey hc
    subst hkey
    simp only [insertEntry]
    cases p.cmp q' with
    | lt => exact .cons ⟨rfl, hb⟩ (.cons ⟨rfl, hc⟩ hrest)
    | eq => exact .cons ⟨rfl, hb⟩ hrest
    | gt => exact .cons ⟨rfl, hc⟩ ih

theorem mem_insertEntry {p : Pos} {b : Block} {e : Pos × Block} :
    ∀ {l : List (Pos × Block)}, e ∈ insertEntry p b l → e = (p, b) ∨ e ∈ l
  | [], h => by simpa [insertEntry] using h
  | (q, c) :: rest, h => by
    unfold insertEntry at h
    split at h
    · simpa using h
    · simp only [List.mem_cons] at h ⊢
      rcases h with h | h
      · exact .inl h
      · exact .inr (.inr h)
    · simp only [List.mem_cons] at h ⊢
      rcases h with h | h
      · exact .inr (.inl h)
      · rcases mem_insertEntry h with h | h
        · exact .inl h
        · exact .inr (.inr h)

theorem tickPositions_of_entriesAlike {l l' : List (Pos × Block)} (h : EntriesAlike σ l l') :
    (l'.filter (World.ticks ·.2)).map (·.1) = (l.filter (World.ticks ·.2)).map (·.1) := by
  induction h with
  | nil => rfl
  | @cons e e' l l' he _ ih =>
    obtain ⟨hkey, hb⟩ := he
    simp only [List.filter_cons, hb.ticks]
    split <;> simp [hkey, ih]

theorem entries_set {m : BlockMap} {p : Pos} {b : Block} (hb : b ≠ .air) :
    (m.set p b).entries = insertEntry p b m.entries := by
  unfold set
  split
  · exact absurd rfl hb
  · rfl

theorem get_eq_of_mem {m : BlockMap} {p : Pos} {b : Block}
    (h : m.get p = b) (hb : b ≠ .air) : (p, b) ∈ m.entries := by
  unfold get at h
  split at h
  · next q c hfind =>
    subst h
    have hq : q = p := by simpa using List.find?_some hfind
    subst hq
    exact List.mem_of_find?_eq_some hfind
  · exact absurd h.symm hb

end BlockMap

namespace Realm.Alike

variable {U : InventoryId → Prop} {σ : InventoryId → InventoryId} {r r' : Realm}

theorem blockAt (hr : r.Alike U σ r') (p : Pos) : (r.blockAt p).Alike σ (r'.blockAt p) := by
  have hfind := BlockMap.find?_of_entriesAlike hr.entries p
  unfold Realm.blockAt BlockMap.get
  revert hfind
  generalize r.blocks.entries.find? (·.1 == p) = x
  generalize r'.blocks.entries.find? (·.1 == p) = x'
  intro hfind
  cases hfind with
  | none => rfl
  | some hb => exact hb

theorem mem_used (hr : r.Alike U σ r') {p : Pos} {i : InventoryId}
    (h : (r.blockAt p).inventory? = some i) : U i := by
  have hair : r.blockAt p ≠ .air := by
    intro hb
    rw [hb] at h
    cases h
  exact hr.used _ (BlockMap.get_eq_of_mem rfl hair) i h

theorem tickPositions (hr : r.Alike U σ r') :
    World.tickPositions r'.blocks = World.tickPositions r.blocks := by
  unfold World.tickPositions
  exact BlockMap.tickPositions_of_entriesAlike hr.entries

theorem applyEdit (hr : r.Alike U σ r') {i : InventoryId} (hi : U i) (e : Edit) :
    (r.applyEdit i e).Alike U σ (r'.applyEdit (σ i) e) where
  entries := by simpa using hr.entries
  used := by simpa using hr.used
  slots j hj := by
    rw [Realm.slotsOf_applyEdit, Realm.slotsOf_applyEdit]
    by_cases hij : i = j
    · subst hij
      simp [hr.stored i hi, hr.stored' i hi]
    · have hσ : σ i ≠ σ j := fun h => hij (hr.injective i j hi hj h)
      simp [hij, hσ, hr.slots j hj]
  injective := hr.injective
  stored j hj := by simpa using hr.stored j hj
  stored' j hj := by simpa using hr.stored' j hj

theorem setBlock (hr : r.Alike U σ r') (p : Pos) {b b' : Block} (hb : b.Alike σ b')
    (hair : b ≠ .air) (hu : ∀ i, b.inventory? = some i → U i) :
    Realm.Alike U σ { r with blocks := r.blocks.set p b } { r' with blocks := r'.blocks.set p b' } where
  entries := by
    rw [BlockMap.entries_set hair, BlockMap.entries_set (hb.ne_air hair)]
    exact BlockMap.insertEntry_entriesAlike hr.entries p hb
  used e he i hi := by
    rw [BlockMap.entries_set hair] at he
    rcases BlockMap.mem_insertEntry he with rfl | he
    · exact hu i hi
    · exact hr.used e he i hi
  slots := hr.slots
  injective := hr.injective
  stored := hr.stored
  stored' := hr.stored'

end Realm.Alike

theorem Overflow.subI64_one {a : Int64} (ha : -2 ^ 63 < a.toInt) :
    ∃ c, Overflow.subI64 a 1 = .ok c ∧ c.toInt = a.toInt - 1 := by
  have hlt := a.toInt_lt
  have hok : Overflow.subI64 a 1 = .ok (Int64.ofInt (a.toInt - 1)) := by
    unfold Overflow.subI64
    rw [if_pos (by simp only [Int64.toInt_one]; omega)]
    simp
  exact ⟨_, hok, by simpa using Overflow.toInt_of_subI64 hok⟩

namespace Hopper

variable {σ : InventoryId → InventoryId} {h h' : Hopper}

theorem Safe.subTransfer (hs : h.Safe) :
    ∃ c, Overflow.subI64 h.transferCooldown 1 = .ok c ∧
      c.toInt = h.transferCooldown.toInt - 1 :=
  Overflow.subI64_one (by have := hs.1; omega)

theorem Safe.subCollect (hs : h.Safe) :
    ∃ c, Overflow.subI64 h.collectCooldown 1 = .ok c ∧
      c.toInt = h.collectCooldown.toInt - 1 :=
  Overflow.subI64_one (by have := hs.2; omega)

theorem rest_pos_iff : 0 < h.rest ↔ 0 < h.transferCooldown.toInt ∨ 0 < h.collectCooldown.toInt := by
  simp only [rest]
  omega

/-- The test a turn makes on the counted-down cooldowns is whether the hopper has rest left. -/
theorem cools_iff_rest {tc cc : Int64} (htc : tc.toInt = h.transferCooldown.toInt - 1)
    (hcc : cc.toInt = h.collectCooldown.toInt - 1) :
    (decide (tc ≥ 0) || decide (cc ≥ 0)) = decide (0 < h.rest) := by
  rw [Bool.eq_iff_iff]
  simp only [Bool.or_eq_true, decide_eq_true_eq, rest_pos_iff, ge_iff_le,
    Int64.le_iff_toInt_le, Int64.toInt_zero, htc, hcc]
  omega

theorem Step.safe {now : Tick} {ph : Phase} {g : Hopper} (hs : Step now h ph g) (hsafe : h.Safe) :
    g.Safe := by
  have hrest := hs.rest_next
  obtain ⟨h1, h2⟩ := hsafe
  cases hs with
  | coolingDown htc hcc hcool =>
    have hpos : 0 < h.rest := rest_pos_iff.mpr (by omega)
    simp only [Phase.isTransferred, Bool.false_eq_true, if_false] at hrest
    refine ⟨?_, ?_⟩ <;> dsimp only <;> omega
  | blocked => simp only [Safe, rest, Int64.toInt_zero]; decide
  | idle => exact ⟨h1, h2⟩
  | transferred => simp only [Safe, rest, cooldownTicks_toInt]; decide

theorem Alike.step (hh : h.Alike σ h') {now : Tick} {ph : Phase} {g g' : Hopper}
    (hs : Step now h ph g) (hs' : Step now h' ph g') : g.Alike σ g' := by
  have hrest : g'.rest = g.rest := by rw [hs.rest_next, hs'.rest_next, hh.rest]
  have hsafe := hs.safe hh.safe
  have hsafe' := hs'.safe hh.safe'
  cases hs with
  | coolingDown htc =>
    cases hs' with
    | coolingDown htc' =>
      refine ⟨hh.facing, hh.powered, hh.name, Int64.toInt_inj.mp ?_, hrest, hsafe, hsafe',
        hh.inventory⟩
      rw [htc', htc, hh.transferCooldown]
  | blocked =>
    cases hs'
    exact ⟨hh.facing, hh.powered, hh.name, rfl, hrest, hsafe, hsafe', hh.inventory⟩
  | idle =>
    cases hs'
    exact hh
  | transferred =>
    cases hs'
    exact ⟨hh.facing, hh.powered, hh.name, rfl, hrest, hsafe, hsafe', hh.inventory⟩

end Hopper

/-- Outcomes of two runs that agree: the same trap, or the same value with alike realms left. -/
def Act.Agree (U : InventoryId → Prop) (σ : InventoryId → InventoryId) {α : Type} :
    Except Overflow (α × Realm) → Except Overflow (α × Realm) → Prop
  | .ok (a, s), .ok (a', s') => a' = a ∧ s.Alike U σ s'
  | .error e, .error e' => e' = e
  | _, _ => False

namespace Act.Agree

variable {U : InventoryId → Prop} {σ : InventoryId → InventoryId} {r r' : Realm} {α β : Type}

theorem pure (hr : r.Alike U σ r') (a : α) :
    Agree U σ ((Pure.pure a : Act α).run r) ((Pure.pure a : Act α).run r') :=
  ⟨rfl, hr⟩

theorem lift (hr : r.Alike U σ r') (x : Except Overflow α) :
    Agree U σ ((Act.lift x).run r) ((Act.lift x).run r') := by
  cases x with
  | ok a => exact ⟨rfl, hr⟩
  | error e => exact rfl

theorem bind {x x' : Act α} {f f' : α → Act β} (hx : Agree U σ (x.run r) (x'.run r'))
    (hf : ∀ a s s', s.Alike U σ s' → Agree U σ ((f a).run s) ((f' a).run s')) :
    Agree U σ ((x >>= f).run r) ((x' >>= f').run r') := by
  rw [StateT.run_bind, StateT.run_bind]
  cases hrun : x.run r with
  | error e =>
    cases hrun' : x'.run r' with
    | error e' =>
      rw [hrun, hrun'] at hx
      exact hx
    | ok v' =>
      rw [hrun, hrun'] at hx
      exact hx.elim
  | ok v =>
    obtain ⟨a, s⟩ := v
    cases hrun' : x'.run r' with
    | error e' =>
      rw [hrun, hrun'] at hx
      exact hx.elim
    | ok v' =>
      obtain ⟨a', s'⟩ := v'
      rw [hrun, hrun'] at hx
      obtain ⟨rfl, hs⟩ := hx
      exact hf _ s s' hs

theorem mapM {γ : Type} {f f' : γ → Act α}
    (hf : ∀ c s s', s.Alike U σ s' → Agree U σ ((f c).run s) ((f' c).run s')) :
    ∀ (l : List γ) {r r' : Realm}, r.Alike U σ r' →
      Agree U σ ((l.mapM f).run r) ((l.mapM f').run r')
  | [], _, _, hr => .pure hr []
  | c :: l, _, _, hr => by
    rw [List.mapM_cons, List.mapM_cons]
    exact (hf c _ _ hr).bind fun b s s' hs =>
      (mapM hf l hs).bind fun bs t t' ht => .pure ht (b :: bs)

theorem setItem (hr : r.Alike U σ r') {i : InventoryId} (hi : U i) (slot : Nat)
    (st : Option Stack) :
    Agree U σ ((Act.setItem i slot st).run r) ((Act.setItem (σ i) slot st).run r') := by
  rw [run_setItem, run_setItem, hr.slots i hi]
  cases (r.slotsOf i).setItem slot st with
  | ok e => exact ⟨rfl, hr.applyEdit hi e⟩
  | error err => exact ⟨rfl, hr⟩

theorem addItem (hr : r.Alike U σ r') {i : InventoryId} (hi : U i) (st : Stack) :
    Agree U σ ((Act.addItem i st).run r) ((Act.addItem (σ i) st).run r') := by
  rw [run_addItem, run_addItem, hr.slots i hi]
  cases (r.slotsOf i).addItem st with
  | ok e => exact ⟨rfl, hr.applyEdit hi e⟩
  | error err => exact ⟨rfl, hr⟩

theorem decrement (hr : r.Alike U σ r') {i : InventoryId} (hi : U i) (slot : Nat) :
    Agree U σ ((Act.decrement i slot).run r) ((Act.decrement (σ i) slot).run r') := by
  rw [run_decrement, run_decrement, hr.slots i hi]
  cases (r.slotsOf i).decrement slot with
  | ok v => exact ⟨rfl, hr.applyEdit hi v.2⟩
  | error err => exact ⟨rfl, hr⟩

theorem setBlock (hr : r.Alike U σ r') (p : Pos) {b b' : Block} (hb : b.Alike σ b')
    (hair : b ≠ .air) (hu : ∀ i, b.inventory? = some i → U i) :
    Agree U σ ((Act.setBlock p b).run r) ((Act.setBlock p b').run r') := by
  rw [run_setBlock, run_setBlock]
  exact ⟨rfl, hr.setBlock p hb hair hu⟩

end Act.Agree

namespace Hopper

variable {U : InventoryId → Prop} {σ : InventoryId → InventoryId} {r r' : Realm}

theorem placeOne_agree (hr : r.Alike U σ r') {i : InventoryId} (hi : U i) (slot : Nat)
    (source : Stack) :
    Agree U σ ((placeOne i slot source).run r) ((placeOne (σ i) slot source).run r') := by
  unfold placeOne
  rw [run_slotsOf_bind, run_slotsOf_bind, hr.slots i hi]
  cases (r.slotsOf i).item slot with
  | error => exact .pure hr false
  | ok c =>
    cases c with
    | none => exact (Agree.setItem hr hi _ _).bind fun _ _ _ hs => .pure hs _
    | some e =>
      dsimp only
      split
      · exact .pure hr false
      · exact (Agree.setItem hr hi _ _).bind fun _ _ _ hs => .pure hs _

theorem offer_agree (hr : r.Alike U σ r') {h h' : Hopper} (hf : h'.facing = h.facing)
    {dest dest' : Block} (hd : dest.Alike σ dest') {i : InventoryId} (hi : U i) (source : Stack) :
    Agree U σ ((h.offer dest i source).run r) ((h'.offer dest' (σ i) source).run r') := by
  have hadd : ∀ {s s' : Realm}, s.Alike U σ s' →
      Agree U σ ((do return (← Act.addItem i source.single).toBool : Act Bool).run s)
        ((do return (← Act.addItem (σ i) source.single).toBool : Act Bool).run s') :=
    fun hs => (Agree.addItem hs hi _).bind fun _ _ _ ht => .pure ht _
  cases dest with
  | furnace f =>
    obtain ⟨f', rfl, -⟩ := hd
    unfold offer
    rw [run_slotsOf_bind, run_slotsOf_bind, hr.slots i hi, hf]
    dsimp only
    split
    · exact placeOne_agree hr hi _ _
    · exact .pure hr false
  | air | solid | enderChest => subst hd; exact hadd hr
  | hopper => obtain ⟨_, rfl, -⟩ := hd; exact hadd hr
  | chest => obtain ⟨_, rfl, -⟩ := hd; exact hadd hr

theorem offerEach_agree {h h' : Hopper} (hf : h'.facing = h.facing) (hu : U h.inventory)
    (hinv : h'.inventory = σ h.inventory) {dest dest' : Block} (hd : dest.Alike σ dest')
    {i : InventoryId} (hi : U i) :
    ∀ (l : List (Nat × Stack)) {r r' : Realm}, r.Alike U σ r' →
      Agree U σ ((h.offerEach dest i l).run r) ((h'.offerEach dest' (σ i) l).run r')
  | [], _, _, hr => .pure hr false
  | (slot, source) :: rest, _, _, hr => by
    unfold offerEach
    refine (offer_agree hr hf hd hi source).bind fun accepted s s' hs => ?_
    cases accepted with
    | true =>
      rw [hinv]
      exact (Agree.decrement hs hu slot).bind fun _ _ _ ht => .pure ht true
    | false => exact offerEach_agree hf hu hinv hd hi rest hs

theorem insert_agree (hr : r.Alike U σ r') {h h' : Hopper} (hf : h'.facing = h.facing)
    (hu : U h.inventory) (hinv : h'.inventory = σ h.inventory) (pos : Pos) :
    Agree U σ ((h.insert pos).run r) ((h'.insert pos).run r') := by
  unfold insert
  rw [hf, run_lift_bind, run_lift_bind]
  cases pos.side h.facing with
  | error e => exact rfl
  | ok q =>
    dsimp only
    rw [run_blockAt_bind, run_blockAt_bind]
    have hd := hr.blockAt q
    rw [hd.inventory?]
    cases hq : (r.blockAt q).inventory? with
    | none => exact .pure hr false
    | some j =>
      rw [Option.map_some]
      rw [run_slotsOf_bind, run_slotsOf_bind, hinv, hr.slots _ hu]
      exact offerEach_agree hf hu hinv hd (hr.mem_used hq) _ hr

/-- Alike blocks nominate the same stack of the same slots: the nomination depends only on
whether the block is a furnace. -/
theorem nomination_alike {b b' : Block} (hb : b.Alike σ b') (s : Slots) :
    nomination b' s = nomination b s := by
  cases b <;> cases b' <;> simp only [Block.Alike, reduceCtorEq, false_and, exists_false] at hb <;>
    rfl

theorem pullOne_agree (hr : r.Alike U σ r') {own inv : InventoryId} (hown : U own) (hinv : U inv)
    (nominated : Option (Stack × Nat)) :
    Agree U σ ((pullOne own inv nominated).run r) ((pullOne (σ own) (σ inv) nominated).run r') := by
  unfold pullOne
  split
  · exact .pure hr false
  · split
    · exact .pure hr false
    · rw [run_slotsOf_bind, run_slotsOf_bind, hr.slots _ hinv]
      split
      · split
        · exact .pure hr false
        · refine (Agree.addItem hr hown _).bind fun added s s' hs => ?_
          cases added with
          | error => exact .pure hs false
          | ok => exact (Agree.decrement hs hinv _).bind fun _ _ _ ht => .pure ht _
      · exact .pure hr false

theorem extract_agree (hr : r.Alike U σ r') {h h' : Hopper} (hu : U h.inventory)
    (hinv : h'.inventory = σ h.inventory) (pos : Pos) :
    Agree U σ ((h.extract pos).run r) ((h'.extract pos).run r') := by
  unfold extract
  rw [run_lift_bind, run_lift_bind]
  cases pos.side .up with
  | error e => exact rfl
  | ok q =>
    dsimp only
    rw [run_blockAt_bind, run_blockAt_bind]
    have hd := hr.blockAt q
    rw [hd.inventory?]
    cases hq : (r.blockAt q).inventory? with
    | none => exact .pure hr false
    | some j =>
      rw [Option.map_some, run_slotsOf_bind, run_slotsOf_bind, hr.slots _ (hr.mem_used hq),
        nomination_alike hd, hinv]
      exact pullOne_agree hr hu (hr.mem_used hq) _

theorem tick_agree (hr : r.Alike U σ r') {h h' : Hopper} (hh : h.Alike σ h') (hu : U h.inventory)
    (now : Tick) (pos : Pos) :
    Agree U σ ((h.tick now pos).run r) ((h'.tick now pos).run r') := by
  -- both cooldowns count down without a trap on either side, as both hoppers are safe
  obtain ⟨tc, htc, htcv⟩ := hh.safe.subTransfer
  obtain ⟨cc, hcc, hccv⟩ := hh.safe.subCollect
  obtain ⟨cc', hcc', hccv'⟩ := hh.safe'.subCollect
  have htcv' : tc.toInt = h'.transferCooldown.toInt - 1 := by rw [hh.transferCooldown]; exact htcv
  unfold tick
  rw [hh.transferCooldown, run_lift_bind, run_lift_bind, htc]
  dsimp only
  rw [run_lift_bind, run_lift_bind, hcc, hcc']
  dsimp only
  rw [cools_iff_rest htcv hccv, cools_iff_rest htcv' hccv', hh.rest]
  by_cases hpos : 0 < h.rest
  · have hcool : 0 ≤ tc.toInt ∨ 0 ≤ cc.toInt := by have := rest_pos_iff.mp hpos; omega
    have hcool' : 0 ≤ tc.toInt ∨ 0 ≤ cc'.toInt := by
      have := rest_pos_iff.mp (hh.rest ▸ hpos); omega
    rw [if_pos (decide_eq_true hpos), if_pos (decide_eq_true hpos)]
    have hb := hh.step (.coolingDown htcv hccv hcool : Step now h _ _) (.coolingDown htcv' hccv' hcool')
    exact (Agree.setBlock hr pos (.hopper hb) nofun (Block.uses_of_inventory? rfl hu)).bind
      fun _ _ _ hs => .pure hs _
  have hdue : h.transferCooldown.toInt ≤ 0 ∧ h.collectCooldown.toInt ≤ 0 := by
    rw [rest_pos_iff] at hpos; omega
  have hdue' : h'.transferCooldown.toInt ≤ 0 ∧ h'.collectCooldown.toInt ≤ 0 := by
    rw [← hh.rest, rest_pos_iff] at hpos; omega
  have hnot : ¬decide (0 < h.rest) = true := by simpa using hpos
  rw [if_neg hnot, if_neg hnot]
  by_cases hp : h.powered = true
  · rw [if_pos hp, if_pos (hh.powered.trans hp)]
    have hb := hh.step (.blocked hdue hp : Step now h _ _) (.blocked hdue' (hh.powered ▸ hp))
    exact (Agree.setBlock hr pos (.hopper hb) nofun (Block.uses_of_inventory? rfl hu)).bind
      fun _ _ _ hs => .pure hs _
  · rw [if_neg hp, if_neg (hh.powered ▸ hp)]
    rw [Bool.not_eq_true] at hp
    refine (insert_agree hr ?hf ?hu ?hinv pos).bind fun ins s s' hs => ?_
    case hf => exact hh.facing
    case hu => exact hu
    case hinv => exact hh.inventory
    refine (extract_agree hs ?hu ?hinv pos).bind fun ext t t' ht => ?_
    case hu => exact hu
    case hinv => exact hh.inventory
    split
    · exact .pure ht _
    · next hm =>
      have hmoved : (ins || ext) = true := by
        revert hm
        cases ins <;> cases ext <;> decide
      have hb := hh.step (.transferred hdue hp hmoved : Step now h _ _)
        (.transferred hdue' (hh.powered ▸ hp) hmoved)
      exact (Agree.setBlock ht pos (.hopper hb) nofun (Block.uses_of_inventory? rfl hu)).bind
        fun _ _ _ hs => .pure hs _

end Hopper

namespace Furnace

variable {U : InventoryId → Prop} {σ : InventoryId → InventoryId} {r r' : Realm}
variable {f f' : Furnace}

theorem ignite_agree (hr : r.Alike U σ r') (hb : f'.burn = f.burn) (hu : U f.inventory)
    (hinv : f'.inventory = σ f.inventory) (target : Option Stack) :
    Agree U σ ((f.ignite target).run r) ((f'.ignite target).run r') := by
  unfold ignite
  rw [hb]
  split
  · rw [run_slotsOf_bind, run_slotsOf_bind, hinv, hr.slots _ hu]
    split
    · split
      · exact (Agree.decrement hr hu _).bind fun _ _ _ hs => .pure hs _
      · exact .pure hr _
    · exact .pure hr _
  · exact .pure hr _

theorem cookStep_agree (hr : r.Alike U σ r') (hc : f'.cook = f.cook) (hu : U f.inventory)
    (hinv : f'.inventory = σ f.inventory) (target : Option Stack) :
    Agree U σ ((f.cookStep target).run r) ((f'.cookStep target).run r') := by
  unfold cookStep
  rw [hc]
  cases target with
  | none => exact .pure hr 0
  | some out =>
    dsimp only
    rw [run_lift_bind, run_lift_bind]
    cases Overflow.addU32 f.cook 1 with
    | error e => exact rfl
    | ok cook =>
      dsimp only
      split
      · rw [hinv]
        exact (Agree.decrement hr hu _).bind fun _ _ _ hs =>
          (Agree.setItem hs hu _ _).bind fun _ _ _ ht => .pure ht 0
      · exact .pure hr cook

theorem publish_agree (hr : r.Alike U σ r') (hb : f'.burn = f.burn) (hc : f'.cook = f.cook)
    (hu : U f.inventory) (hinv : f'.inventory = σ f.inventory) (pos : Pos) (burn cook : UInt32) :
    Agree U σ ((f.publish pos burn cook).run r) ((f'.publish pos burn cook).run r') := by
  unfold publish
  rw [hb, hc]
  dsimp only
  split
  · have hfb : (Block.furnace { f with burn, cook }).Alike σ (.furnace { f' with burn, cook }) :=
      .furnace rfl rfl hinv
    exact (Agree.setBlock hr pos hfb nofun (Block.uses_of_inventory? rfl hu)).bind
      fun _ _ _ hs => .pure hs _
  · exact .pure hr _

theorem tick_agree (hr : r.Alike U σ r') (hb : f'.burn = f.burn) (hc : f'.cook = f.cook)
    (hu : U f.inventory) (hinv : f'.inventory = σ f.inventory) (pos : Pos) :
    Agree U σ ((f.tick pos).run r) ((f'.tick pos).run r') := by
  unfold tick
  rw [run_slotsOf_bind, run_slotsOf_bind, hinv, hr.slots _ hu]
  dsimp only
  refine (ignite_agree hr hb hu hinv _).bind fun burn s s' hs => ?_
  split
  · exact (cookStep_agree hs hc hu hinv _).bind fun _ t t' ht => publish_agree ht hb hc hu hinv pos _ _
  · exact publish_agree hs hb hc hu hinv pos _ _

end Furnace

namespace World

variable {U : InventoryId → Prop} {σ : InventoryId → InventoryId} {r r' : Realm}

theorem turn_agree (hr : r.Alike U σ r') (now : Tick) (pos : Pos) :
    Agree U σ ((turn now pos).run r) ((turn now pos).run r') := by
  unfold turn
  rw [run_blockAt_bind, run_blockAt_bind]
  have hb := hr.blockAt pos
  have hu : ∀ i, (r.blockAt pos).inventory? = some i → U i := fun _ hi => hr.mem_used hi
  generalize r.blockAt pos = B at hb hu ⊢
  generalize r'.blockAt pos = B' at hb ⊢
  cases B with
  | hopper h =>
    obtain ⟨h', rfl, hh⟩ := hb
    exact (Hopper.tick_agree hr hh (hu _ rfl) now pos).bind fun _ _ _ hs => .pure hs _
  | furnace f =>
    obtain ⟨f', rfl, hbn, hc, hinv⟩ := hb
    exact (Furnace.tick_agree hr hbn hc (hu _ rfl) hinv pos).bind fun _ _ _ hs => .pure hs _
  | air | solid | enderChest => subst hb; exact .pure hr _
  | chest c => obtain ⟨c', rfl, -⟩ := hb; exact .pure hr _

theorem turns_agree (hr : r.Alike U σ r') (now : Tick) :
    Agree U σ ((turns now).run r) ((turns now).run r') := by
  unfold turns
  rw [run_get_bind, run_get_bind, hr.tickPositions]
  exact Agree.mapM (fun pos s s' hs => (turn_agree hs now pos).bind fun t _ _ ht => .pure ht (pos, t))
    _ hr

theorem tick_agree (hr : r.Alike U σ r') (now : Tick) :
    Agree U σ ((tick now).run r) ((tick now).run r') :=
  (turns_agree hr now).bind fun _ _ _ hs => .pure hs _

/-- From alike realms, every run of tick passes gives the same summaries, or traps alike, and
leaves alike realms. -/
theorem ticks_agree (hr : r.Alike U σ r') (ts : List Tick) :
    Agree U σ ((ts.mapM tick).run r) ((ts.mapM tick).run r') :=
  Agree.mapM (fun t _ _ hs => tick_agree hs t) ts hr

end World

end ItemFlow
