import ItemFlow.Proofs.Tick.Transfer
/-! The contract of one hopper tick. Counted down, the cooldowns decide the phase: a hopper with
rest left cools down, a due hopper that is powered is blocked, and a due unpowered hopper pushes
and then pulls, transferring when one of them moved a unit and idling otherwise. Cooling down and
being blocked store the hopper again and write no slot; idling changes nothing at all. Per
storage, a tick moves at most one unit out of the hopper, into the faced container, and at most
one unit into it, out of the container above; no other storage changes. The tick traps only when
a cooldown sits at the least signed 64-bit word or a neighbour it looks up leaves the coordinate
range. -/
namespace ItemFlow
open Act

def Phase.pushed : Phase → Bool
  | .transferred inserted _ => inserted
  | _ => false

def Phase.pulled : Phase → Bool
  | .transferred _ extracted => extracted
  | _ => false

namespace Slots

variable (w : Identity → Nat) {s : Slots}

theorem weigh_setItem {i : Nat} {st : Option Stack} {e : Edit} {c : Option Stack}
    (hc : s[i]? = some c) (h : s.setItem i st = .ok e) :
    e.slots.weigh w + Stack.weight w c = s.weigh w + Stack.weight w (st.bind Stack.stored) := by
  unfold setItem at h
  split at h
  · next hlt =>
    cases h
    rw [Array.getElem?_eq_getElem hlt] at hc
    rw [← Option.some.inj hc]
    exact weigh_set w hlt (st.bind Stack.stored)
  · cases h

theorem weigh_set_shrink {k : Nat} {st : Stack} (hst : s[k]? = some (some st)) (h0 : st.count ≠ 0) :
    Slots.weigh w (s.set! k st.shrink) + w st.identity = s.weigh w := by
  have hlt := (Array.getElem?_eq_some_iff.mp hst).1
  have hset := weigh_set w hlt st.shrink
  have hshrink := Stack.weight_shrink w h0
  rw [Array.getElem?_eq_getElem hlt] at hst
  rw [Option.some.inj hst] at hset
  omega

theorem size_intake {face : Face} {dest : Block} {source : Stack} {e : Edit}
    (he : Hopper.intake face dest s source = some e) : e.slots.size = s.size := by
  unfold Hopper.intake at he
  split at he
  · split at he
    · split at he
      · exact size_setItem (Except.ok_of_toOption he)
      · split at he
        · exact size_setItem (Except.ok_of_toOption he)
        · cases he
      · cases he
    · cases he
  · exact size_addItem (Except.ok_of_toOption he)

theorem weigh_intake {face : Face} {dest : Block} {source : Stack} {e : Edit}
    (he : Hopper.intake face dest s source = some e) : e.slots.weigh w = s.weigh w + w source.identity := by
  unfold Hopper.intake at he
  split at he
  · split at he
    · split at he
      · next slot _ hnone =>
        have hset := weigh_setItem w (getElem?_of_item hnone) (Except.ok_of_toOption he)
        rw [Option.bind_some, Stack.stored_of_fits (Stack.fits_single source), Stack.weight_single]
          at hset
        simpa [Stack.weight] using hset
      · next slot _ held hheld =>
        split at he
        · next hok =>
          simp only [Bool.and_eq_true, Bool.not_eq_true'] at hok
          have hid : held.identity = source.identity := by simpa [Stack.comparable] using hok.1
          have hroom : ¬held.isFull = true := by simp [hok.2]
          have hset := weigh_setItem w (getElem?_of_item hheld) (Except.ok_of_toOption he)
          rw [Option.bind_some, Stack.stored_of_fits (Stack.grow_one hroom).2,
            Stack.weight_grow_one w hroom, hid] at hset
          omega
        · cases he
      · cases he
    · cases he
  · have := weigh_addItem w (Except.ok_of_toOption he)
    simpa [Stack.single] using this

end Slots

namespace Realm

def unitsIn (r : Realm) (j : InventoryId) : Nat := (r.slotsOf j).weigh fun _ => 1

theorem slotsOf_applyEdit_self {r : Realm} {i : InventoryId} {e : Edit}
    (hsize : e.slots.size = (r.slotsOf i).size) : (r.applyEdit i e).slotsOf i = e.slots := by
  rw [slotsOf_applyEdit]
  split
  · rfl
  · next h =>
    -- a storage that does not exist reads as no slots, and an edit of no slots has none
    have hs : r.storages.size ≤ i.idx := by simpa using h
    have hnone : r.slotsOf i = #[] := by simp [slotsOf, Array.getElem?_eq_none hs]
    rw [hnone] at hsize ⊢
    exact (Array.eq_empty_of_size_eq_zero hsize).symm

theorem slotsOf_takeOne_of_ne {r : Realm} {i j : InventoryId} (hij : i ≠ j) (slot : Nat) :
    (r.takeOne i slot).slotsOf j = r.slotsOf j := by
  unfold takeOne
  split
  · exact slotsOf_applyEdit_of_ne hij _
  · rfl

@[simp] theorem blocks_takeOne (r : Realm) (i : InventoryId) (slot : Nat) :
    (r.takeOne i slot).blocks = r.blocks := by
  unfold takeOne
  split <;> simp

/-! A transfer between two storages is a gain at the destination `dst` by an edit `e`, then the
take of one unit from slot `k` of the source `src`. -/

section GainTake
variable {r : Realm} {src dst : InventoryId} {e : Edit} {k : Nat}

theorem slotsOf_gain_take_src {st : Stack} (hsd : src ≠ dst)
    (hst : (r.slotsOf src)[k]? = some (some st)) :
    ((r.applyEdit dst e).takeOne src k).slotsOf src = (r.slotsOf src).set! k st.shrink := by
  have hsrc : (r.applyEdit dst e).slotsOf src = r.slotsOf src := slotsOf_applyEdit_of_ne hsd.symm e
  rw [takeOne_of_filled (by rw [hsrc]; exact hst), slotsOf_applyEdit_set_self, hsrc]

theorem slotsOf_gain_take_dst (hsd : src ≠ dst) (hsize : e.slots.size = (r.slotsOf dst).size) :
    ((r.applyEdit dst e).takeOne src k).slotsOf dst = e.slots := by
  rw [slotsOf_takeOne_of_ne hsd, slotsOf_applyEdit_self hsize]

theorem slotsOf_gain_take_of_ne {j : InventoryId} (hjs : j ≠ src) (hjd : j ≠ dst) :
    ((r.applyEdit dst e).takeOne src k).slotsOf j = r.slotsOf j := by
  rw [slotsOf_takeOne_of_ne (Ne.symm hjs), slotsOf_applyEdit_of_ne (Ne.symm hjd)]

end GainTake

/-- `r'` is `r` with one unit of item `x` moved out of storage `src` into storage `dst`: every
weighing of `src` loses the unit's weight, `dst` gains it, and no other storage changes a slot. -/
structure MovesUnit (r r' : Realm) (x : Identity) (src dst : InventoryId) : Prop where
  weigh : ∀ (w : Identity → Nat) (j : InventoryId),
    (r'.slotsOf j).weigh w + (if j = src then w x else 0) =
      (r.slotsOf j).weigh w + (if j = dst then w x else 0)
  frame : ∀ j, j ≠ src → j ≠ dst → r'.slotsOf j = r.slotsOf j

/-- What an attempt to move a unit from storage `src` to storage `dst` left, given its answer:
one unit of one item moved between the two when it answered true, and nothing changed at all
when it answered false. -/
def Attempt (r r' : Realm) (src dst : Option InventoryId) : Bool → Prop
  | true => ∃ i j x, src = some i ∧ dst = some j ∧ r.MovesUnit r' x i j
  | false => r' = r

namespace MovesUnit
variable {r : Realm}

/-- Both transfers of a hopper are a gain at the destination followed by the take of one unit
from a filled source slot; between two storages this moves exactly that unit. -/
theorem of_gain_take {src dst : InventoryId} {e : Edit} {k : Nat} {st : Stack} (hsd : src ≠ dst)
    (hsize : e.slots.size = (r.slotsOf dst).size)
    (hgain : ∀ w, e.slots.weigh w = (r.slotsOf dst).weigh w + w st.identity)
    (hst : (r.slotsOf src)[k]? = some (some st)) (h0 : st.count ≠ 0) :
    r.MovesUnit ((r.applyEdit dst e).takeOne src k) st.identity src dst := by
  constructor
  · intro w j
    by_cases hjs : j = src
    · subst hjs
      rw [slotsOf_gain_take_src hsd hst, if_pos rfl, if_neg hsd, Nat.add_zero]
      exact Slots.weigh_set_shrink w hst h0
    · rw [if_neg hjs]
      by_cases hjd : j = dst
      · subst hjd
        rw [slotsOf_gain_take_dst hsd hsize, hgain, if_pos rfl, Nat.add_zero]
      · rw [slotsOf_gain_take_of_ne hjs hjd, if_neg hjd]
  · intro j hjs hjd
    exact slotsOf_gain_take_of_ne hjs hjd

theorem push {F H : InventoryId} {face : Face} {dest : Block} {i : Nat} {e : Edit} (hFH : F ≠ H)
    (hne : r.NoEmptyStack) (hfi : Hopper.firstIntake face dest (r.slotsOf F) (r.slotsOf H) = some (i, e)) :
    ∃ x, r.MovesUnit ((r.applyEdit F e).takeOne H i) x H F := by
  obtain ⟨pre, source, post, hl, he, -⟩ := Hopper.firstIntake_eq_some_iff.mp hfi
  have hst : (r.slotsOf H)[i]? = some (some source) := Slots.getElem?_of_mem_filled (by rw [hl]; simp)
  exact ⟨_, of_gain_take hFH.symm (Slots.size_intake he) (fun w => Slots.weigh_intake w he) hst
    (hne.count_ne_zero hst)⟩

theorem pull {U H : InventoryId} {nominated : Option (Stack × Nat)} {slot : Nat} {e : Edit}
    (hUH : U ≠ H) (hne : r.NoEmptyStack)
    (hp : Hopper.pullable (r.slotsOf H) (r.slotsOf U) nominated = some (slot, e)) :
    ∃ x, r.MovesUnit ((r.applyEdit H e).takeOne U slot) x U H := by
  obtain ⟨stack, held, -, -, hheld, hcomp, hadd⟩ := Hopper.pullable_eq_some_iff.mp hp
  have hid : held.identity = stack.identity := by simpa [Stack.comparable] using hcomp
  refine ⟨_, of_gain_take hUH (Slots.size_addItem hadd) (fun w => ?_) hheld (hne.count_ne_zero hheld)⟩
  rw [Slots.weigh_addItem w hadd, hid]
  simp [Stack.single]

end MovesUnit

end Realm

namespace Hopper
variable {h : Hopper} {r r₁ : Realm} {pos q : Pos}

theorem insert_attempt {ins : Bool} (hrun : (h.insert pos).run r = .ok (ins, r₁))
    (hq : pos.side h.facing = .ok q) (hown : (r.blockAt q).inventory? ≠ some h.inventory)
    (hne : r.NoEmptyStack) :
    r.Attempt r₁ (some h.inventory) (r.blockAt q).inventory? ins := by
  rw [insert_run hq] at hrun
  split at hrun
  · cases hrun
    rfl
  · next F hinv =>
    split at hrun
    · next i e hfi =>
      cases hrun
      obtain ⟨x, hm⟩ := Realm.MovesUnit.push (fun hFH => hown (hFH ▸ hinv : _ = some h.inventory)) hne hfi
      exact ⟨h.inventory, F, x, rfl, hinv, hm⟩
    · cases hrun
      rfl

theorem extract_attempt {ext : Bool} (hrun : (h.extract pos).run r = .ok (ext, r₁))
    (hq : pos.side .up = .ok q) (hown : (r.blockAt q).inventory? ≠ some h.inventory)
    (hne : r.NoEmptyStack) :
    r.Attempt r₁ (r.blockAt q).inventory? (some h.inventory) ext := by
  rw [extract_run hq] at hrun
  split at hrun
  · cases hrun
    rfl
  · next U hinv =>
    rw [pullOne_run] at hrun
    split at hrun
    · next slot e hp =>
      cases hrun
      obtain ⟨x, hm⟩ := Realm.MovesUnit.pull (fun hUH => hown (hUH ▸ hinv : _ = some h.inventory)) hne hp
      exact ⟨U, h.inventory, x, hinv, rfl, hm⟩
    · cases hrun
      rfl

/-- A push followed by a pull, each between the hopper's storage and a neighbour that does not
share it: the pull sees the neighbour above as it was, since the push writes slots only. -/
theorem push_pull_attempts {qf qu : Pos} {ins ext : Bool} {r₂ : Realm}
    (hins : (h.insert pos).run r = .ok (ins, r₁)) (hext : (h.extract pos).run r₁ = .ok (ext, r₂))
    (hqf : pos.side h.facing = .ok qf) (hqu : pos.side .up = .ok qu)
    (hf : (r.blockAt qf).inventory? ≠ some h.inventory) (hu : (r.blockAt qu).inventory? ≠ some h.inventory)
    (hne : r.NoEmptyStack) :
    r.Attempt r₁ (some h.inventory) (r.blockAt qf).inventory? ins ∧
      r₁.Attempt r₂ (r.blockAt qu).inventory? (some h.inventory) ext := by
  have hb1 : r₁.blockAt qu = r.blockAt qu := insert_preserves (slotStable_blockAt qu _) _ pos rfl hins
  have hne1 : r₁.NoEmptyStack := insert_preserves Realm.slotStable_noEmptyStack _ pos hne hins
  refine ⟨insert_attempt hins hqf hf hne, ?_⟩
  rw [← hb1]
  exact extract_attempt hext hqu (hb1 ▸ hu) hne1

/-- The transfers of a tick: a push out of the hopper answering the phase's push flag, then a pull
into it answering its pull flag; a tick that cools down or is blocked attempts neither, and an idle
tick changes nothing. -/
theorem tick_attempts {now : Tick} {ph : Phase} {r' : Realm} {qf qu : Pos}
    (hqf : pos.side h.facing = .ok qf) (hqu : pos.side .up = .ok qu)
    (hf : (r.blockAt qf).inventory? ≠ some h.inventory) (hu : (r.blockAt qu).inventory? ≠ some h.inventory)
    (hne : r.NoEmptyStack) (hrun : (h.tick now pos).run r = .ok (ph, r')) :
    ∃ r₁ r₂, r.Attempt r₁ (some h.inventory) (r.blockAt qf).inventory? ph.pushed ∧
      r₁.Attempt r₂ (r.blockAt qu).inventory? (some h.inventory) ph.pulled ∧
      r'.storages = r₂.storages ∧ (ph = .idle → r' = r) := by
  cases TickRun.of_run hrun with
  | coolingDown _ _ _ | blocked _ _ => exact ⟨r, r, rfl, rfl, rfl, nofun⟩
  | idle _ _ hins hext =>
    obtain ⟨hpush, hpull⟩ := push_pull_attempts hins hext hqf hqu hf hu hne
    exact ⟨_, _, hpush, hpull, rfl, fun _ => (hpull : r' = _).trans hpush⟩
  | transferred _ _ hins hext _ =>
    obtain ⟨hpush, hpull⟩ := push_pull_attempts hins hext hqf hqu hf hu hne
    exact ⟨_, _, hpush, hpull, rfl, nofun⟩

end Hopper

/-- One tick of a hopper `h` at `pos` whose cooldowns stand above the least 64-bit word, whose
faced and upper neighbours `qf` and `qu` are in range and do not share its storage, in a realm
whose slots hold no stack of zero units. It always answers, and it runs the cooldown machine:
the phase is cooling down exactly while rest is left, with both cooldowns one less; past that,
blocked exactly when `h` is powered, with the cooldowns zero; otherwise transferred, with the
cooldowns eight, when a unit moved, and idle, with `h` as it was. It stores no block elsewhere,
and an idle tick changes nothing. Its slot writes are a push then a pull: the push moves one unit
of one item out of `h` into the faced storage exactly when the phase says it pushed, and leaves
everything as it was otherwise; the pull likewise moves one unit from the storage above into
`h`. No other storage changes a slot. -/
theorem hopper_tick_contract {r : Realm} {pos qf qu : Pos} {h : Hopper} (now : Tick)
    (hpos : r.blockAt pos = .hopper h) (htc : -2 ^ 63 < h.transferCooldown.toInt)
    (hcc : -2 ^ 63 < h.collectCooldown.toInt) (hqf : pos.side h.facing = .ok qf)
    (hqu : pos.side .up = .ok qu) (hf : (r.blockAt qf).inventory? ≠ some h.inventory)
    (hu : (r.blockAt qu).inventory? ≠ some h.inventory) (hne : r.NoEmptyStack) :
    ∃ ph r', (h.tick now pos).run r = .ok (ph, r') ∧
      (∃ h', r'.blockAt pos = .hopper h' ∧ Hopper.Step now h ph h') ∧
      (ph = .coolingDown ↔ 0 < h.rest) ∧
      (ph = .blocked ↔ h.rest = 0 ∧ h.powered = true) ∧
      (∀ p, p ≠ pos → r'.blockAt p = r.blockAt p) ∧
      (ph = .idle → r' = r) ∧
      ∃ r₁ r₂, r.Attempt r₁ (some h.inventory) (r.blockAt qf).inventory? ph.pushed ∧
        r₁.Attempt r₂ (r.blockAt qu).inventory? (some h.inventory) ph.pulled ∧
        r'.storages = r₂.storages := by
  obtain ⟨⟨ph, r'⟩, hrun⟩ := Hopper.tick_noTrap htc hcc hqf hqu now r
  obtain ⟨h', hat, hs⟩ := Hopper.tick_step hpos hrun
  obtain ⟨r₁, r₂, hpush, hpull, hst, hidle⟩ := Hopper.tick_attempts hqf hqu hf hu hne hrun
  exact ⟨ph, r', hrun, ⟨h', hat, hs⟩, hs.cooling_iff, hs.blocked_iff,
    fun _ hp => Hopper.tick_keeps_blockAt hp hrun, hidle, r₁, r₂, hpush, hpull, hst⟩

/-- A due hopper over a chest transfers on its tick: it pushes one unit down into the chest and,
with nothing above it, pulls none. -/
theorem hopper_over_chest_tick_pushes_one :
    let h : Hopper := ⟨.down, false, "", Tick.zero, 0, 0, ⟨0⟩, ⟨0⟩⟩
    let r : Realm :=
      { blocks := (({} : BlockMap).set ⟨0, 64, 0⟩ (.hopper h)).set ⟨0, 63, 0⟩ (.chest ⟨"", ⟨1⟩, ⟨1⟩⟩)
        storages := #[⟨#[none, some (Stack.new .stone 3), none, none, none], ⟨0⟩⟩, ⟨Slots.empty 27, ⟨1⟩⟩]
        registries := #[{}, {}] }
    ∃ r' r₁ r₂, (h.tick ⟨1⟩ ⟨0, 64, 0⟩).run r = .ok (.transferred true false, r') ∧
      r.Attempt r₁ (some ⟨0⟩) (some ⟨1⟩) true ∧ r₁.Attempt r₂ none (some ⟨0⟩) false ∧
      r'.storages = r₂.storages := by
  intro h r
  have hF : (r.blockAt ⟨0, 63, 0⟩).inventory? = some ⟨1⟩ := by decide +kernel
  have hU : (r.blockAt ⟨0, 65, 0⟩).inventory? = none := by decide +kernel
  obtain ⟨ph, r', hrun, -, -, -, -, -, r₁, r₂, hpush, hpull, hst⟩ :=
    hopper_tick_contract ⟨1⟩ (show r.blockAt ⟨0, 64, 0⟩ = .hopper h by decide +kernel) (by decide)
      (by decide) (show (⟨0, 64, 0⟩ : Pos).side .down = .ok ⟨0, 63, 0⟩ by decide)
      (show (⟨0, 64, 0⟩ : Pos).side .up = .ok ⟨0, 65, 0⟩ by decide) (by rw [hF]; decide)
      (by rw [hU]; decide) (by decide +kernel)
  have hph : ((h.tick ⟨1⟩ ⟨0, 64, 0⟩).run r).map Prod.fst = .ok (.transferred true false) := by
    decide +kernel
  rw [hrun] at hph
  cases hph
  rw [hF] at hpush
  rw [hU] at hpull
  exact ⟨r', r₁, r₂, hrun, hpush, hpull, hst⟩

/-- A tick traps where the contract's bounds fail: a hopper whose transfer cooldown is the least
64-bit word cannot count it down, and a due hopper on the top edge of the coordinate range has
no neighbour above to pull from. -/
theorem hopper_tick_traps_at_bounds :
    let h : Hopper := ⟨.down, false, "", Tick.zero, -9223372036854775808, 0, ⟨0⟩, ⟨0⟩⟩
    let g : Hopper := ⟨.down, false, "", Tick.zero, 0, 0, ⟨0⟩, ⟨0⟩⟩
    (h.tick ⟨1⟩ ⟨0, 64, 0⟩).run
        { blocks := ({} : BlockMap).set ⟨0, 64, 0⟩ (.hopper h)
          storages := #[⟨Slots.empty 5, ⟨0⟩⟩]
          registries := #[{}] } = .error .sub ∧
      (g.tick ⟨1⟩ ⟨0, 2147483647, 0⟩).run
        { blocks := ({} : BlockMap).set ⟨0, 2147483647, 0⟩ (.hopper g)
          storages := #[⟨Slots.empty 5, ⟨0⟩⟩]
          registries := #[{}] } = .error .add := by
  intro h g
  exact ⟨rfl, rfl⟩

end ItemFlow
