import ItemFlow.Proofs.Act
/-! Invariants of the tick actions. An invariant that survives every inventory write and every
block store survives a hopper tick, a furnace tick and a whole tick pass; one that survives
the inventory writes alone survives a hopper's insert and extract. -/
namespace ItemFlow
open Act
variable {P : Realm → Prop}

theorem Hopper.placeOne_preserves (hP : SlotStable P) (inv : InventoryId) (slot : Nat) (source : Stack) :
    Preserves P (Hopper.placeOne inv slot source) := by
  unfold Hopper.placeOne
  refine .bind (.slotsOf _) fun s => ?_
  split
  · exact .pure _
  · exact .bind (.setItem hP _ _ _) fun _ => .pure _
  · split
    · exact .pure _
    · exact .bind (.setItem hP _ _ _) fun _ => .pure _

theorem Hopper.offer_preserves (hP : SlotStable P) (h : Hopper) (dest : Block) (inv : InventoryId) (source : Stack) :
    Preserves P (h.offer dest inv source) := by
  unfold Hopper.offer
  split
  · refine .bind (.slotsOf _) fun s => ?_
    split
    split
    · exact Hopper.placeOne_preserves hP _ _ _
    · exact .pure _
  · exact .bind (.addItem hP _ _) fun _ => .pure _

theorem Hopper.offerEach_preserves (hP : SlotStable P) (h : Hopper) (dest : Block) (inv : InventoryId) :
    ∀ l, Preserves P (h.offerEach dest inv l)
  | [] => .pure _
  | (slot, source) :: rest => by
    unfold Hopper.offerEach
    refine .bind (h.offer_preserves hP _ _ _) fun ok => ?_
    split
    · exact .bind (.decrement hP _ _) fun _ => .pure _
    · exact Hopper.offerEach_preserves hP h dest inv rest

theorem Hopper.insert_preserves (hP : SlotStable P) (h : Hopper) (pos : Pos) :
    Preserves P (h.insert pos) := by
  unfold Hopper.insert
  refine .bind (.lift _) fun _ => .bind (.blockAt _) fun dest => ?_
  split
  · exact .pure _
  · exact .bind (.slotsOf _) fun _ => h.offerEach_preserves hP _ _ _

theorem Hopper.pullOne_preserves (hP : SlotStable P) (own inv : InventoryId)
    (nominated : Option (Stack × Nat)) : Preserves P (Hopper.pullOne own inv nominated) := by
  unfold Hopper.pullOne
  split
  · exact .pure _
  · split
    · exact .pure _
    · refine .bind (.slotsOf _) fun slots => ?_
      split
      · split
        · exact .pure _
        · refine .bind (.addItem hP _ _) fun res => ?_
          split
          · exact .pure _
          · exact .bind (.decrement hP _ _) fun _ => .pure _
      · exact .pure _

theorem Hopper.extract_preserves (hP : SlotStable P) (h : Hopper) (pos : Pos) :
    Preserves P (h.extract pos) := by
  unfold Hopper.extract
  refine .bind (.lift _) fun _ => .bind (.blockAt _) fun origin => ?_
  split
  · exact .pure _
  · exact .bind (.slotsOf _) fun _ => Hopper.pullOne_preserves hP _ _ _

theorem Hopper.tick_preserves {pos : Pos} (hP : SlotStable P) (hB : BlockStableAt P pos) (h : Hopper) (now : Tick) :
    Preserves P (h.tick now pos) := by
  unfold Hopper.tick
  refine .bind (.lift _) fun tc => .bind (.lift _) fun cc => ?_
  dsimp only
  split
  · exact .bind (.setBlock hB _) fun _ => .pure _
  · split
    · exact .bind (.setBlock hB _) fun _ => .pure _
    · refine .bind (Hopper.insert_preserves hP _ _) fun _ => .bind (Hopper.extract_preserves hP _ _) fun _ => ?_
      split
      · exact .pure _
      · exact .bind (.setBlock hB _) fun _ => .pure _

theorem Furnace.ignite_preserves (hP : SlotStable P) (f : Furnace) (target : Option Stack) :
    Preserves P (f.ignite target) := by
  unfold Furnace.ignite
  split
  · refine .bind (.slotsOf _) fun s => ?_
    split
    · split
      · exact .bind (.decrement hP _ _) fun _ => .pure _
      · exact .pure _
    · exact .pure _
  · exact .pure _

theorem Furnace.cookStep_preserves (hP : SlotStable P) (f : Furnace) (target : Option Stack) :
    Preserves P (f.cookStep target) := by
  unfold Furnace.cookStep
  split
  · refine .bind (.lift _) fun cook => ?_
    split
    · exact .bind (.decrement hP _ _) fun _ => .bind (.setItem hP _ _ _) fun _ => .pure _
    · exact .pure _
  · exact .pure _

theorem Furnace.publish_preserves {pos : Pos} (hB : BlockStableAt P pos) (f : Furnace) (burn cook : UInt32) :
    Preserves P (f.publish pos burn cook) := by
  unfold Furnace.publish
  dsimp only
  split
  · exact .bind (.setBlock hB _) fun _ => .pure _
  · exact .pure _

theorem Furnace.tick_preserves {pos : Pos} (hP : SlotStable P) (hB : BlockStableAt P pos) (f : Furnace) :
    Preserves P (Furnace.tick f pos) := by
  unfold Furnace.tick
  refine .bind (.slotsOf _) fun s => .bind (f.ignite_preserves hP _) fun burn => ?_
  split
  · exact .bind (f.cookStep_preserves hP _) fun _ => f.publish_preserves hB _ _
  · exact f.publish_preserves hB _ _

theorem World.turn_preserves {pos : Pos} (hP : SlotStable P) (hB : BlockStableAt P pos) (now : Tick) :
    Preserves P (World.turn now pos) := by
  unfold World.turn
  refine .bind (.blockAt _) fun b => ?_
  split
  · exact .bind (Hopper.tick_preserves hP hB _ _) fun _ => .pure _
  · exact .bind (Furnace.tick_preserves hP hB _) fun _ => .pure _
  · exact .pure _

theorem World.turns_preserves (hP : SlotStable P) (hB : BlockStable P) (now : Tick) :
    Preserves P (World.turns now) := by
  unfold World.turns
  exact .bind .get fun r => Preserves.mapM (fun pos => .bind (World.turn_preserves hP (hB.at pos) now) fun _ => .pure _) _

theorem World.tick_preserves (hP : SlotStable P) (hB : BlockStable P) (now : Tick) :
    Preserves P (World.tick now) :=
  .bind (World.turns_preserves hP hB now) fun _ => .pure _

end ItemFlow
