import ItemFlow.Proofs.Tick.NoTrap
/-! The transfer protocol of a hopper. A push offers the filled slots of the hopper in slot order
to the faced block; the first unit the faced block takes goes in, and that slot gives one unit
up. A pull takes one unit of the stack a container nominates, once the nomination is checked
against the nominated slot. Each is stated as the slot edits it makes: a refused transfer makes
none, and a transfer that goes through edits the storage that takes the unit and the slot that
gives it, nothing else. Both look up a neighbour first, and trap when the hopper sits on the edge
of the coordinate range in that direction. -/
namespace ItemFlow
open Act

namespace Realm

/-- The realm after one unit is taken from slot `slot` of storage `i`, the change delivered; as
it was when there is no such slot. -/
def takeOne (r : Realm) (i : InventoryId) (slot : Nat) : Realm :=
  match (r.slotsOf i).decrement slot with
  | .ok (_, e) => r.applyEdit i e
  | .error _ => r

theorem takeOne_of_filled {r : Realm} {i : InventoryId} {slot : Nat} {held : Stack}
    (h : (r.slotsOf i)[slot]? = some (some held)) :
    r.takeOne i slot = r.applyEdit i ⟨(r.slotsOf i).set! slot held.shrink, [⟨slot, held.shrink⟩]⟩ := by
  rw [takeOne, Slots.decrement_of_filled h]

theorem size_slotsOf_applyEdit_of_addItem {r : Realm} {i j : InventoryId} {st : Stack} {e : Edit}
    (hadd : (r.slotsOf i).addItem st = .ok e) : ((r.applyEdit i e).slotsOf j).size = (r.slotsOf j).size := by
  rw [slotsOf_applyEdit]
  split
  · next hij =>
    obtain ⟨rfl, -⟩ := hij
    exact Slots.size_addItem hadd
  · rfl

end Realm

namespace Act
variable {r : Realm}

theorem run_decrement_takeOne (i : InventoryId) (slot : Nat) :
    ∃ c, (decrement i slot).run r = .ok (c, r.takeOne i slot) := by
  rw [run_decrement]
  unfold Realm.takeOne
  cases (r.slotsOf i).decrement slot with
  | ok v => exact ⟨_, rfl⟩
  | error err => exact ⟨_, rfl⟩

theorem run_decrement_toBool {i : InventoryId} {slot : Nat} (hlt : slot < (r.slotsOf i).size) :
    (do return (← decrement i slot).toBool : Act Bool).run r = .ok (true, r.takeOne i slot) := by
  rw [run_bind_ok (run_decrement i slot)]
  unfold Realm.takeOne Slots.decrement
  rw [Array.getElem?_eq_getElem hlt]
  cases (r.slotsOf i)[slot] <;> rfl

theorem run_setItem_toBool (i : InventoryId) (slot : Nat) (st : Option Stack) :
    (do return (← setItem i slot st).toBool : Act Bool).run r =
      .ok (match ((r.slotsOf i).setItem slot st).toOption with
        | some e => (true, r.applyEdit i e)
        | none => (false, r)) := by
  rw [run_bind_ok (run_setItem i slot st)]
  cases (r.slotsOf i).setItem slot st <;> rfl

theorem run_addItem_toBool (i : InventoryId) (st : Stack) :
    (do return (← addItem i st).toBool : Act Bool).run r =
      .ok (match ((r.slotsOf i).addItem st).toOption with
        | some e => (true, r.applyEdit i e)
        | none => (false, r)) := by
  rw [run_bind_ok (run_addItem i st)]
  cases (r.slotsOf i).addItem st <;> rfl

end Act

namespace Hopper

/-- The edit of the faced block's slots `s` when it takes one unit of `source` from a hopper
facing `face`, or none when it refuses. A furnace takes the unit into the slot its insert rule
picks, which must exist and be empty or hold a comparable stack that is not full; any other
container takes it as an added stack. -/
def intake (face : Face) (dest : Block) (s : Slots) (source : Stack) : Option Edit :=
  match dest with
  | .furnace _ =>
    match Furnace.acceptsInsert s source.single face with
    | (true, slot) =>
      match s.item slot with
      | .ok none => (s.setItem slot (some source.single)).toOption
      | .ok (some e) =>
        if e.comparable source && !e.isFull then
          (s.setItem slot (some (e.withCount (e.count + 1)))).toOption
        else none
      | .error _ => none
    | (false, _) => none
  | _ => (s.addItem source.single).toOption

/-- The lowest filled slot of a hopper's slots `own` whose unit the faced block takes, with the
edit of the faced block's slots `s` that takes it. -/
def firstIntake (face : Face) (dest : Block) (s own : Slots) : Option (Nat × Edit) :=
  own.filled.findSome? fun x => (intake face dest s x.2).map (x.1, ·)

/-- What a pull of the nomination takes: the nominated slot of the origin's slots `origin`, when
the nominated stack holds units, the slot holds a comparable stack and the hopper's slots `own`
add one unit of it; with the edit of that add. -/
def pullable (own origin : Slots) : Option (Stack × Nat) → Option (Nat × Edit)
  | some (stack, slot) =>
    match origin.item slot with
    | .ok (some held) =>
      if !stack.isEmpty && held.comparable stack then
        ((own.addItem stack.single).toOption).map (slot, ·)
      else none
    | _ => none
  | none => none

theorem firstIntake_eq_some_iff {face : Face} {dest : Block} {s own : Slots} {i : Nat} {e : Edit} :
    firstIntake face dest s own = some (i, e) ↔
      ∃ pre source post, own.filled = pre ++ (i, source) :: post ∧
        intake face dest s source = some e ∧ ∀ x ∈ pre, intake face dest s x.2 = none := by
  unfold firstIntake
  rw [List.findSome?_eq_some_iff]
  constructor
  · rintro ⟨pre, ⟨j, source⟩, post, hl, ha, hpre⟩
    obtain ⟨e', he', hje⟩ := Option.map_eq_some_iff.mp ha
    obtain ⟨rfl, rfl⟩ := Prod.mk.inj hje
    exact ⟨pre, source, post, hl, he', fun x hx => Option.map_eq_none_iff.mp (hpre x hx)⟩
  · rintro ⟨pre, source, post, hl, ha, hpre⟩
    exact ⟨pre, (i, source), post, hl, by simp [ha], fun x hx => by simp [hpre x hx]⟩

theorem firstIntake_isSome_iff {face : Face} {dest : Block} {s own : Slots} :
    (firstIntake face dest s own).isSome ↔ ∃ x ∈ own.filled, (intake face dest s x.2).isSome := by
  unfold firstIntake
  simp [List.findSome?_isSome_iff]

theorem pullable_eq_some_iff {own origin : Slots} {nominated : Option (Stack × Nat)} {slot : Nat}
    {e : Edit} :
    pullable own origin nominated = some (slot, e) ↔
      ∃ stack held, nominated = some (stack, slot) ∧ stack.isEmpty = false ∧
        origin[slot]? = some (some held) ∧ held.comparable stack = true ∧
        own.addItem stack.single = .ok e := by
  rcases nominated with _ | ⟨stack, j⟩
  · simp [pullable]
  constructor
  · intro hp
    dsimp only [pullable] at hp
    split at hp
    · next held hheld =>
      split at hp
      · next hcond =>
        obtain ⟨e', he', hje⟩ := Option.map_eq_some_iff.mp hp
        obtain ⟨rfl, rfl⟩ := Prod.mk.inj hje
        simp only [Bool.and_eq_true, Bool.not_eq_true'] at hcond
        refine ⟨stack, held, rfl, hcond.1, Slots.getElem?_of_item hheld, hcond.2, ?_⟩
        exact Except.ok_of_toOption he'
      · cases hp
    · cases hp
  · rintro ⟨stack', held, hnom, hempty, hheld, hcomp, hadd⟩
    obtain ⟨rfl, rfl⟩ := Prod.mk.inj (Option.some.inj hnom)
    have hitem : origin.item j = .ok (some held) := by
      unfold Slots.item
      rw [hheld]
    simp [pullable, hitem, hempty, hcomp, hadd, Except.toOption]

/-- Bogus nominations move nothing: a slot out of range, an empty slot, a stack of another item;
the honest one is taken. -/
example :
    let origin : Slots := #[some (Stack.new .stone 3), none]
    [(Stack.new .stone 3, 5), (Stack.new .stone 3, 1), (Stack.new (.item 263) 3, 0)].all
        (fun n => (pullable (Slots.empty 5) origin (some n)).isNone) ∧
      (pullable (Slots.empty 5) origin (some (Stack.new .stone 3, 0))).isSome := by
  decide

variable {h : Hopper} {r : Realm}

theorem placeOne_run (inv : InventoryId) (slot : Nat) (source : Stack) :
    (placeOne inv slot source).run r =
      .ok (match (match (r.slotsOf inv).item slot with
          | .ok none => ((r.slotsOf inv).setItem slot (some source.single)).toOption
          | .ok (some e) =>
            if e.comparable source && !e.isFull then
              ((r.slotsOf inv).setItem slot (some (e.withCount (e.count + 1)))).toOption
            else none
          | .error _ => none) with
        | some e => (true, r.applyEdit inv e)
        | none => (false, r)) := by
  unfold placeOne
  rw [run_slotsOf_bind]
  cases (r.slotsOf inv).item slot with
  | error => rfl
  | ok c =>
    cases c with
    | none => exact run_setItem_toBool _ _ _
    | some e =>
      cases hc : e.comparable source <;> cases hf : e.isFull <;> simp only [hc, hf]
      · rfl
      · rfl
      · exact run_setItem_toBool _ _ _
      · rfl

theorem offer_run (dest : Block) (inv : InventoryId) (source : Stack) :
    (h.offer dest inv source).run r =
      .ok (match intake h.facing dest (r.slotsOf inv) source with
        | some e => (true, r.applyEdit inv e)
        | none => (false, r)) := by
  unfold offer intake
  cases dest with
  | furnace f =>
    rw [run_slotsOf_bind]
    dsimp only
    cases Furnace.acceptsInsert (r.slotsOf inv) source.single h.facing with
    | mk ok slot =>
      cases ok with
      | true => exact placeOne_run _ _ _
      | false => rfl
  | air | solid | hopper | chest | enderChest => exact run_addItem_toBool _ _

theorem intake_putsOne {dest : Block} {inv : InventoryId} {source : Stack} {e : Edit}
    (he : intake h.facing dest (r.slotsOf inv) source = some e) :
    (∀ w, (r.applyEdit inv e).weigh w = r.weigh w + w source.identity) ∧
      r.Keeps (r.applyEdit inv e) := by
  have hrun := offer_run (h := h) (r := r) dest inv source
  rw [he] at hrun
  exact (offer_putsOne h dest inv source hrun).1 rfl

theorem offerEach_run (dest : Block) (inv : InventoryId) :
    ∀ (l : List (Nat × Stack)) (r : Realm),
      (h.offerEach dest inv l).run r =
        .ok (match l.findSome? (fun x => (intake h.facing dest (r.slotsOf inv) x.2).map (x.1, ·)) with
          | some (i, e) => (true, (r.applyEdit inv e).takeOne h.inventory i)
          | none => (false, r))
  | [], _ => rfl
  | (slot, source) :: rest, r => by
    unfold offerEach
    rw [run_bind_ok (offer_run dest inv source), List.findSome?_cons]
    cases intake h.facing dest (r.slotsOf inv) source with
    | some e =>
      obtain ⟨c, hdec⟩ := run_decrement_takeOne (r := r.applyEdit inv e) h.inventory slot
      dsimp only
      rw [if_pos rfl, run_bind_ok hdec]
      rfl
    | none => exact offerEach_run dest inv rest r

/-- A push with the faced neighbour in range: a block without slot storage takes nothing, and a
container takes a unit of the lowest filled slot it accepts, which gives the unit up. -/
theorem insert_run {pos q : Pos} (hq : pos.side h.facing = .ok q) (r : Realm) :
    (h.insert pos).run r =
      .ok (match (r.blockAt q).inventory? with
        | none => (false, r)
        | some inv =>
          match firstIntake h.facing (r.blockAt q) (r.slotsOf inv) (r.slotsOf h.inventory) with
          | some (i, e) => (true, (r.applyEdit inv e).takeOne h.inventory i)
          | none => (false, r)) := by
  unfold insert
  rw [run_lift_bind, hq]
  dsimp only
  rw [run_blockAt_bind]
  cases (r.blockAt q).inventory? with
  | none => rfl
  | some inv =>
    rw [run_slotsOf_bind]
    exact offerEach_run _ _ _ r

theorem pullOne_run (own inv : InventoryId) (nominated : Option (Stack × Nat)) :
    (pullOne own inv nominated).run r =
      .ok (match pullable (r.slotsOf own) (r.slotsOf inv) nominated with
        | some (slot, e) => (true, (r.applyEdit own e).takeOne inv slot)
        | none => (false, r)) := by
  unfold pullOne pullable
  rcases nominated with _ | ⟨stack, slot⟩
  · rfl
  · dsimp only
    cases hempty : stack.isEmpty with
    | true =>
      -- a nomination without units is refused before the slot is read
      cases (r.slotsOf inv).item slot with
      | ok c => cases c <;> rfl
      | error => rfl
    | false =>
      rw [if_neg Bool.false_ne_true, run_slotsOf_bind]
      cases hheld : (r.slotsOf inv).item slot with
      | error => rfl
      | ok c =>
        cases c with
        | none => rfl
        | some held =>
          dsimp only
          cases hcomp : held.comparable stack with
          | false => rfl
          | true =>
            simp only [Bool.not_true, Bool.not_false, Bool.and_self, Bool.false_eq_true, ↓reduceIte]
            rw [run_bind_ok (run_addItem own stack.single)]
            cases hadd : (r.slotsOf own).addItem stack.single with
            | error => rfl
            | ok e =>
              -- the add keeps every size, so the nominated slot is still there to give a unit
              have hlt := (Array.getElem?_eq_some_iff.mp (Slots.getElem?_of_item hheld)).1
              exact run_decrement_toBool (by rw [Realm.size_slotsOf_applyEdit_of_addItem hadd]; exact hlt)

/-- A pull with the neighbour above in range: a block without slot storage gives nothing, and a
container gives what a pull of its own nomination takes. -/
theorem extract_run {pos q : Pos} (hq : pos.side .up = .ok q) (r : Realm) :
    (h.extract pos).run r =
      match (r.blockAt q).inventory? with
      | none => .ok (false, r)
      | some inv => (pullOne h.inventory inv (nomination (r.blockAt q) (r.slotsOf inv))).run r := by
  unfold extract
  rw [run_lift_bind, hq]
  dsimp only
  rw [run_blockAt_bind]
  cases (r.blockAt q).inventory? with
  | none => rfl
  | some inv => rw [run_slotsOf_bind]

theorem insert_traps {pos : Pos} {e : Overflow} (hq : pos.side h.facing = .error e) (r : Realm) :
    (h.insert pos).run r = .error e := by
  unfold insert
  rw [run_lift_bind, hq]

theorem extract_traps {pos : Pos} {e : Overflow} (hq : pos.side .up = .error e) (r : Realm) :
    (h.extract pos).run r = .error e := by
  unfold extract
  rw [run_lift_bind, hq]

end Hopper

/-- The transfer protocol of a hopper `h` at `pos`. A push, with the faced neighbour `q` in range,
changes nothing when the block at `q` has no slot storage or takes no unit of any filled slot of
`h`; otherwise the block takes one unit of the lowest filled slot it accepts, through its intake
edit, and that slot gives one unit up. The intake is the furnace's insert rule into the slot it
picks, still empty or holding a comparable stack that is not full, and an added stack for any
other container; it takes exactly one unit of the offered item. A pull, with the neighbour above
in range, pulls what the block there nominates: a furnace its output, any other container its
first filled slot. For every nomination, a pull changes nothing unless the nominated stack holds
units, the nominated slot holds a comparable stack and `h` adds one unit of it; then `h` makes that
add and the nominated slot gives one unit up. A hopper on the edge of the coordinate range traps
on the neighbour it looks up. -/
theorem hopper_transfer_protocol :
    (∀ (h : Hopper) (pos q : Pos) (r : Realm), pos.side h.facing = .ok q →
      (h.insert pos).run r =
        .ok (match (r.blockAt q).inventory? with
          | none => (false, r)
          | some inv =>
            match Hopper.firstIntake h.facing (r.blockAt q) (r.slotsOf inv) (r.slotsOf h.inventory) with
            | some (i, e) => (true, (r.applyEdit inv e).takeOne h.inventory i)
            | none => (false, r))) ∧
    (∀ (face : Face) (dest : Block) (s own : Slots) (i : Nat) (e : Edit),
      Hopper.firstIntake face dest s own = some (i, e) ↔
        ∃ pre source post, own.filled = pre ++ (i, source) :: post ∧
          Hopper.intake face dest s source = some e ∧ ∀ x ∈ pre, Hopper.intake face dest s x.2 = none) ∧
    (∀ (face : Face) (dest : Block) (s own : Slots),
      (Hopper.firstIntake face dest s own).isSome ↔
        ∃ x ∈ own.filled, (Hopper.intake face dest s x.2).isSome) ∧
    (∀ (h : Hopper) (dest : Block) (inv : InventoryId) (source : Stack) (e : Edit) (r : Realm),
      Hopper.intake h.facing dest (r.slotsOf inv) source = some e →
        (∀ w, (r.applyEdit inv e).weigh w = r.weigh w + w source.identity) ∧
          r.Keeps (r.applyEdit inv e)) ∧
    (∀ (h : Hopper) (pos q : Pos) (r : Realm), pos.side .up = .ok q →
      (h.extract pos).run r =
        match (r.blockAt q).inventory? with
        | none => .ok (false, r)
        | some inv =>
          (Hopper.pullOne h.inventory inv (Hopper.nomination (r.blockAt q) (r.slotsOf inv))).run r) ∧
    (∀ (own inv : InventoryId) (nominated : Option (Stack × Nat)) (r : Realm),
      (Hopper.pullOne own inv nominated).run r =
        .ok (match Hopper.pullable (r.slotsOf own) (r.slotsOf inv) nominated with
          | some (slot, e) => (true, (r.applyEdit own e).takeOne inv slot)
          | none => (false, r))) ∧
    (∀ (own origin : Slots) (nominated : Option (Stack × Nat)) (slot : Nat) (e : Edit),
      Hopper.pullable own origin nominated = some (slot, e) ↔
        ∃ stack held, nominated = some (stack, slot) ∧ stack.isEmpty = false ∧
          origin[slot]? = some (some held) ∧ held.comparable stack = true ∧
          own.addItem stack.single = .ok e) ∧
    (∀ (r : Realm) (i : InventoryId) (slot : Nat) (held : Stack),
      (r.slotsOf i)[slot]? = some (some held) →
        r.takeOne i slot = r.applyEdit i ⟨(r.slotsOf i).set! slot held.shrink, [⟨slot, held.shrink⟩]⟩) ∧
    (∀ (h : Hopper) (pos : Pos) (r : Realm) (e : Overflow),
      pos.side h.facing = .error e → (h.insert pos).run r = .error e) ∧
    (∀ (h : Hopper) (pos : Pos) (r : Realm) (e : Overflow),
      pos.side .up = .error e → (h.extract pos).run r = .error e) :=
  ⟨fun _ _ _ r hq => Hopper.insert_run hq r, fun _ _ _ _ _ _ => Hopper.firstIntake_eq_some_iff,
    fun _ _ _ _ => Hopper.firstIntake_isSome_iff, fun _ _ _ _ _ _ he => Hopper.intake_putsOne he,
    fun _ _ _ r hq => Hopper.extract_run hq r, fun own inv nominated _ => Hopper.pullOne_run own inv nominated,
    fun _ _ _ _ _ => Hopper.pullable_eq_some_iff, fun _ _ _ _ hheld => Realm.takeOne_of_filled hheld,
    fun _ _ r _ hq => Hopper.insert_traps hq r, fun _ _ r _ hq => Hopper.extract_traps hq r⟩

/-- A hopper over a chest pushes a unit of its lowest filled slot down into the chest. -/
theorem hopper_over_chest_pushes_lowest_stack :
    let h : Hopper := ⟨.down, false, "", Tick.zero, 0, 0, ⟨0⟩, ⟨0⟩⟩
    let r : Realm :=
      { blocks := (({} : BlockMap).set ⟨0, 64, 0⟩ (.hopper h)).set ⟨0, 63, 0⟩ (.chest ⟨"", ⟨1⟩, ⟨1⟩⟩)
        storages := #[⟨#[none, some (Stack.new .stone 3), none, none, none], ⟨0⟩⟩, ⟨Slots.empty 27, ⟨1⟩⟩]
        registries := #[{}, {}] }
    (⟨0, 64, 0⟩ : Pos).side .down = .ok ⟨0, 63, 0⟩ ∧
      ((h.insert ⟨0, 64, 0⟩).run r).map (fun x => (x.1, x.2.slotsOf ⟨0⟩, x.2.slotsOf ⟨1⟩)) =
        .ok (true, #[none, some (Stack.new .stone 2), none, none, none],
          (Slots.empty 27).set! 0 (some (Stack.new .stone 1))) := by
  intro h r
  have hq : (⟨0, 64, 0⟩ : Pos).side .down = .ok ⟨0, 63, 0⟩ := by decide
  refine ⟨hq, ?_⟩
  rw [hopper_transfer_protocol.1 h _ _ r hq]
  decide +kernel

/-- A hopper at the greatest x coordinate, facing east, has no faced neighbour: its push traps
instead of answering. -/
theorem edge_hopper_push_traps :
    let h : Hopper := ⟨.east, false, "", Tick.zero, 0, 0, ⟨0⟩, ⟨0⟩⟩
    let r : Realm :=
      { blocks := ({} : BlockMap).set ⟨2147483647, 64, 0⟩ (.hopper h)
        storages := #[⟨#[some (Stack.new .stone 1), none, none, none, none], ⟨0⟩⟩]
        registries := #[{}] }
    (h.insert ⟨2147483647, 64, 0⟩).run r = .error .add := by
  intro h r
  exact Hopper.insert_traps (by decide) r

end ItemFlow
