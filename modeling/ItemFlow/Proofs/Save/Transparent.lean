import ItemFlow.Proofs.Save.Restore
/-! Saving is transparent to ticking. Restoring the records of a realm places each container on
fresh storage holding its slots as they read back. When every stored stack persists, every
hopper's cooldowns and every furnace's counters survive their 32-bit fields, and no two
containers share storage, the restored realm is alike to the original under the renaming of each
container's storage to its fresh one: every run of tick passes then gives the same summaries
from both, or the same trap, and leaves alike realms. -/
namespace ItemFlow

namespace Hopper

/-- A hopper whose record reloads to a hopper that ticks alike: its transfer cooldown fits a
signed 32-bit word, its collect cooldown leaves it no more rest, and lies far enough above the
least signed 64-bit word that counting it down never traps. -/
structure Reloadable (h : Hopper) : Prop where
  fits : -2 ^ 31 ≤ h.transferCooldown.toInt ∧ h.transferCooldown.toInt ≤ 2 ^ 31 - 1
  collect_le : h.collectCooldown.toInt ≤ max h.transferCooldown.toInt 0
  collect_gt : -2 ^ 63 + max h.transferCooldown.toInt 0 < h.collectCooldown.toInt

instance (h : Hopper) : Decidable h.Reloadable :=
  decidable_of_iff ((-2 ^ 31 ≤ h.transferCooldown.toInt ∧ h.transferCooldown.toInt ≤ 2 ^ 31 - 1) ∧
      h.collectCooldown.toInt ≤ max h.transferCooldown.toInt 0 ∧
      -2 ^ 63 + max h.transferCooldown.toInt 0 < h.collectCooldown.toInt)
    ⟨fun ⟨a, b, c⟩ => ⟨a, b, c⟩, fun ⟨a, b, c⟩ => ⟨a, b, c⟩⟩

variable {h : Hopper}

theorem Reloadable.rest (hh : h.Reloadable) : (h.rest : Int) = max h.transferCooldown.toInt 0 := by
  have := hh.collect_le
  simp only [Hopper.rest]
  omega

theorem Reloadable.safe (hh : h.Reloadable) : h.Safe := by
  have := hh.fits
  have := hh.collect_gt
  simp only [Hopper.Safe, hh.rest]
  omega

end Hopper

namespace Block

def Apart (b b' : Block) : Prop :=
  ∀ i j, b.inventory? = some i → b'.inventory? = some j → i ≠ j

/-- A stored block whose record reloads to a block that ticks alike: not air, holding storage of
its kind's size whose stacks all persist, a hopper's cooldowns reloadable and a furnace's
counters within the signed 32-bit range. -/
structure Reloadable (r : Realm) (b : Block) : Prop where
  ne_air : b ≠ .air
  size : ∀ i, b.inventory? = some i → (r.slotsOf i).size = b.slotCount
  persists : ∀ i, b.inventory? = some i → ∀ st, some st ∈ r.slotsOf i → st.Persists
  hopper : ∀ h, b = .hopper h → h.Reloadable
  furnace : ∀ f, b = .furnace f → f.burn.toNat ≤ 2 ^ 31 - 1 ∧ f.cook.toNat ≤ 2 ^ 31 - 1

instance (b b' : Block) : Decidable (b.Apart b') :=
  decidable_of_iff (∀ i ∈ b.inventory?, ∀ j ∈ b'.inventory?, i ≠ j) <| by
    simp only [Option.mem_def, Apart]
    exact ⟨fun h i j hi hj => h i hi j hj, fun h i hi j hj => h i j hi hj⟩

-- one case per kind: what is asked of the block's storage, and of its own counters
instance (r : Realm) : (b : Block) → Decidable (b.Reloadable r)
  | .air => isFalse fun hb => hb.ne_air rfl
  | .solid _ => isTrue ⟨(by intro h; cases h), (by intro i hi; cases hi), (by intro i hi; cases hi),
      (by intro h hh; cases hh), (by intro f hf; cases hf)⟩
  | .enderChest => isTrue ⟨(by intro h; cases h), (by intro i hi; cases hi), (by intro i hi; cases hi),
      (by intro h hh; cases hh), (by intro f hf; cases hf)⟩
  | .hopper h => decidable_of_iff ((r.slotsOf h.inventory).size = Hopper.slotCount ∧
      (∀ st, some st ∈ r.slotsOf h.inventory → st.Persists) ∧ h.Reloadable) <| by
    constructor
    · rintro ⟨hs, hp, hh⟩
      exact ⟨(by intro h; cases h), fun i hi => (by cases hi; exact hs), fun i hi => (by cases hi; exact hp),
        fun h' hh' => (by cases hh'; exact hh), fun f hf => (by cases hf)⟩
    · intro hb
      exact ⟨hb.size _ rfl, hb.persists _ rfl, hb.hopper h rfl⟩
  | .chest c => decidable_of_iff ((r.slotsOf c.inventory).size = Chest.slotCount ∧
      ∀ st, some st ∈ r.slotsOf c.inventory → st.Persists) <| by
    constructor
    · rintro ⟨hs, hp⟩
      exact ⟨(by intro h; cases h), fun i hi => (by cases hi; exact hs), fun i hi => (by cases hi; exact hp),
        fun h' hh' => (by cases hh'), fun f hf => (by cases hf)⟩
    · intro hb
      exact ⟨hb.size _ rfl, hb.persists _ rfl⟩
  | .furnace f => decidable_of_iff ((r.slotsOf f.inventory).size = Furnace.slotCount ∧
      (∀ st, some st ∈ r.slotsOf f.inventory → st.Persists) ∧
      f.burn.toNat ≤ 2 ^ 31 - 1 ∧ f.cook.toNat ≤ 2 ^ 31 - 1) <| by
    constructor
    · rintro ⟨hs, hp, hf⟩
      exact ⟨(by intro h; cases h), fun i hi => (by cases hi; exact hs), fun i hi => (by cases hi; exact hp),
        fun h' hh' => (by cases hh'), fun f' hf' => (by cases hf'; exact hf)⟩
    · intro hb
      exact ⟨hb.size _ rfl, hb.persists _ rfl, hb.furnace f rfl⟩

end Block

/-- A realm whose records reload to a realm that ticks alike: every stored block reloadable, and
no two containers on one storage. -/
structure Realm.Reloadable (r : Realm) : Prop where
  blocks : ∀ e ∈ r.blocks.entries, e.2.Reloadable r
  apart : r.blocks.entries.Pairwise fun e e' => e.2.Apart e'.2

instance (r : Realm) : Decidable r.Reloadable :=
  decidable_of_iff ((∀ e ∈ r.blocks.entries, e.2.Reloadable r) ∧
      r.blocks.entries.Pairwise fun e e' => e.2.Apart e'.2)
    ⟨fun ⟨a, b⟩ => ⟨a, b⟩, fun ⟨a, b⟩ => ⟨a, b⟩⟩

theorem Slots.map_reread {s : Slots} (hs : ∀ st, some st ∈ s → st.Persists) :
    s.map (Option.map Stack.reread) = s := by
  conv_rhs => rw [← Array.map_id s]
  apply Array.map_congr_left
  intro c hc
  cases c with
  | none => rfl
  | some st => simp [(hs st hc).reread_eq]

namespace Block

variable {r t : Realm} {b b' : Block}

theorem Reloaded.reloads (h : b.Reloaded r t b') {i : InventoryId} (hi : b.inventory? = some i) :
    ∃ i', b'.inventory? = some i' ∧ r.Reloads t i i' := by
  cases b with
  | air => exact h.elim
  | solid | enderChest => cases hi
  | hopper h₀ =>
    obtain ⟨h', rfl, -, -, -, -, -, -, hs⟩ := h
    cases hi
    exact ⟨_, rfl, hs⟩
  | chest c =>
    obtain ⟨c', rfl, -, hs⟩ := h
    cases hi
    exact ⟨_, rfl, hs⟩
  | furnace f =>
    obtain ⟨f', rfl, -, -, hs⟩ := h
    cases hi
    exact ⟨_, rfl, hs⟩

/-- A reloadable block is alike to the block it reloads to, under a renaming that takes its
storage to the fresh one. -/
theorem Reloaded.alike (h : b.Reloaded r t b') (hb : b.Reloadable r) {σ : InventoryId → InventoryId}
    (hσ : ∀ i, b.inventory? = some i → b'.inventory? = some (σ i)) : b.Alike σ b' := by
  cases b with
  | air => exact h.elim
  | solid | enderChest => exact h
  | hopper h₀ =>
    obtain ⟨h', rfl, hf, hp, hn, -, htc, hcc, -⟩ := h
    have hh := hb.hopper h₀ rfl
    have hfits := hh.fits
    have hrest₀ := hh.rest
    have htc' : h'.transferCooldown = h₀.transferCooldown := by
      apply Int64.toInt_inj.mp
      rw [htc]
      omega
    have hcc' : h'.collectCooldown.toInt = 0 := by rw [hcc]; rfl
    have hrest : h'.rest = h₀.rest := by
      simp only [Hopper.rest, hcc', htc'] at hrest₀ ⊢
      omega
    have hsafe' : h'.Safe := by
      simp only [Hopper.Safe, hrest, htc', hcc']
      omega
    have hinv : h'.inventory = σ h₀.inventory := by
      simpa [Block.inventory?] using hσ _ rfl
    exact ⟨h', rfl, ⟨hf, hp, hn, htc', hrest, hh.safe, hsafe', hinv⟩⟩
  | chest c =>
    obtain ⟨c', rfl, hn, -⟩ := h
    have hinv : c'.inventory = σ c.inventory := by
      simpa [Block.inventory?] using hσ _ rfl
    exact ⟨c', rfl, hn, hinv⟩
  | furnace f =>
    obtain ⟨f', rfl, hb', hc', -⟩ := h
    obtain ⟨hbf, hcf⟩ := hb.furnace f rfl
    have hinv : f'.inventory = σ f.inventory := by
      simpa [Block.inventory?] using hσ _ rfl
    exact ⟨f', rfl, by rw [hb', if_pos hbf], by rw [hc', if_pos hcf], hinv⟩

end Block

namespace World

/-- The renaming a reload makes: the storage of each container of `l` to the storage of the
block in the same place of `l'`. -/
def reloadRenaming : List (Pos × Block) → List (Pos × Block) → InventoryId → InventoryId
  | e :: l, e' :: l', i => if e.2.inventory? = some i then e'.2.inventory?.getD i else reloadRenaming l l' i
  | _, _, i => i

theorem reloadRenaming_of_mem_zip :
    ∀ {l l' : List (Pos × Block)}, l.Pairwise (fun e e' => e.2.Apart e'.2) →
      ∀ {e e' : Pos × Block} {i i' : InventoryId}, (e, e') ∈ l.zip l' →
        e.2.inventory? = some i → e'.2.inventory? = some i' → reloadRenaming l l' i = i'
  | [], _, _, _, _, _, _, hmem, _, _ => by simp at hmem
  | _ :: _, [], _, _, _, _, _, hmem, _, _ => by simp at hmem
  | a :: l, a' :: l', hap, e, e', i, i', hmem, hi, hi' => by
    rw [List.zip_cons_cons, List.mem_cons] at hmem
    rcases hmem with heq | hmem
    · obtain ⟨rfl, rfl⟩ := Prod.mk.inj heq
      simp [reloadRenaming, hi, hi']
    · have hne : a.2.inventory? ≠ some i := fun ha =>
        (List.pairwise_cons.mp hap).1 e (List.of_mem_zip hmem).1 i i ha hi rfl
      rw [reloadRenaming, if_neg hne]
      exact reloadRenaming_of_mem_zip (List.pairwise_cons.mp hap).2 hmem hi hi'

end World

private theorem exists_mem_zip_of_forall₂ {α β : Type} {R : α → β → Prop} :
    ∀ {l : List α} {l' : List β}, List.Forall₂ R l l' → ∀ {a}, a ∈ l → ∃ b, (a, b) ∈ l.zip l'
  | _, _, .nil, _, ha => by simp at ha
  | _ :: _, b :: _, .cons _ hrest, a, ha => by
    rcases List.mem_cons.mp ha with rfl | ha
    · exact ⟨b, by simp⟩
    · obtain ⟨b', hb'⟩ := exists_mem_zip_of_forall₂ hrest ha
      exact ⟨b', by simp [hb']⟩

private theorem mem_zip_swap {α β : Type} {l : List α} {l' : List β} {a : α} {b : β}
    (h : (a, b) ∈ l.zip l') : (b, a) ∈ l'.zip l := by
  rw [← List.zip_swap]
  exact List.mem_map.mpr ⟨_, h, rfl⟩

theorem Block.slotCount_pos {b : Block} {i : InventoryId} (hi : b.inventory? = some i) :
    0 < b.slotCount := by
  cases b <;> cases hi <;> simp [Block.slotCount, Hopper.slotCount, Chest.slotCount, Furnace.slotCount]

theorem Realm.lt_size_of_slotsOf {r : Realm} {i : InventoryId} (h : (r.slotsOf i).size ≠ 0) :
    i.idx < r.storages.size := by
  by_contra hge
  have hnone : r.storages[i.idx]? = none := Array.getElem?_eq_none (by omega)
  simp [Realm.slotsOf, hnone] at h

namespace Realm.Reloadable

variable {r t : Realm}

theorem shaped (hr : r.Reloadable) : r.Shaped := fun e he i hi =>
  ⟨fun st hst => ((hr.blocks e he).persists i hi st hst).fits, (hr.blocks e he).size i hi⟩

/-- A reloadable realm is alike to every realm storing, position by position, the blocks its
blocks reload to, later blocks on later storage, under the renaming of the reload. -/
theorem alike (hr : r.Reloadable)
    (hall : List.Forall₂ (fun e e' => e'.1 = e.1 ∧ e.2.Reloaded r t e'.2) r.blocks.entries
      t.blocks.entries)
    (hinc : World.HandlesIncrease t.blocks.entries) :
    r.Alike (fun i => ∃ e ∈ r.blocks.entries, e.2.inventory? = some i)
      (World.reloadRenaming r.blocks.entries t.blocks.entries) t := by
  -- each container's storage is renamed to its partner's, which reloads it
  have hσ : ∀ {e e'}, (e, e') ∈ r.blocks.entries.zip t.blocks.entries → ∀ i, e.2.inventory? = some i →
      ∃ i', e'.2.inventory? = some i' ∧ World.reloadRenaming r.blocks.entries t.blocks.entries i = i' ∧
        r.Reloads t i i' := by
    intro e e' hmem i hi
    obtain ⟨i', hi', hre⟩ := (List.forall₂_zip hall hmem).2.reloads hi
    exact ⟨i', hi', World.reloadRenaming_of_mem_zip hr.apart hmem hi hi', hre⟩
  -- later blocks of `t` lie on later storage, so they are apart too
  have hapart : t.blocks.entries.Pairwise fun e e' => e.2.Apart e'.2 :=
    hinc.imp fun hlt i j hi hj hij => by
      have := hlt i j hi hj
      subst hij
      omega
  refine ⟨?_, fun e he i hi => ⟨e, he, hi⟩, ?_, ?_, ?_, ?_⟩
  · refine List.forall₂_iff_zip.mpr ⟨hall.length_eq, fun hmem => ?_⟩
    obtain ⟨hpos, hre⟩ := List.forall₂_zip hall hmem
    refine ⟨hpos, hre.alike (hr.blocks _ (List.of_mem_zip hmem).1) fun i hi => ?_⟩
    obtain ⟨i', hi', hσi, -⟩ := hσ hmem i hi
    rw [hi', hσi]
  · rintro i ⟨e, he, hi⟩
    obtain ⟨e', hmem⟩ := exists_mem_zip_of_forall₂ hall he
    obtain ⟨i', -, hσi, hre⟩ := hσ hmem i hi
    rw [hσi, hre.2, Slots.map_reread ((hr.blocks e he).persists i hi)]
  · -- renaming back, from the storage of `t` to that of `r`, undoes the renaming
    rintro i j ⟨e, he, hi⟩ ⟨d, hd, hj⟩ hij
    obtain ⟨e', hme⟩ := exists_mem_zip_of_forall₂ hall he
    obtain ⟨d', hmd⟩ := exists_mem_zip_of_forall₂ hall hd
    obtain ⟨i', hi', hσi, -⟩ := hσ hme i hi
    obtain ⟨j', hj', hσj, -⟩ := hσ hmd j hj
    have hback_i := World.reloadRenaming_of_mem_zip hapart (mem_zip_swap hme) hi' hi
    have hback_j := World.reloadRenaming_of_mem_zip hapart (mem_zip_swap hmd) hj' hj
    rw [← hback_i, ← hback_j, ← hσi, ← hσj, hij]
  · rintro i ⟨e, he, hi⟩
    apply Realm.lt_size_of_slotsOf
    rw [(hr.blocks e he).size i hi]
    exact (Block.slotCount_pos hi).ne'
  · rintro i ⟨e, he, hi⟩
    obtain ⟨e', hmem⟩ := exists_mem_zip_of_forall₂ hall he
    obtain ⟨i', -, hσi, hre⟩ := hσ hmem i hi
    rw [hσi]
    exact hre.1

end Realm.Reloadable

namespace World

/-- Saving is transparent to ticking: the realm restored from the records of a reloadable realm
is alike to it, so from the two every run of tick passes gives the same summaries, or the same
trap, and leaves alike realms. -/
theorem restore_ticks_alike (r : Realm) (hr : r.Reloadable) :
    ∃ r' U σ, (restore (capture r)).run r = .ok ((), r') ∧
      ∀ ts : List Tick, Act.Agree U σ ((ts.mapM tick).run r) ((ts.mapM tick).run r') := by
  obtain ⟨r', hrun, -, hall, -, hinc⟩ := run_restore_capture r hr.shaped
  have hfilter : r.blocks.entries.filter (·.2 ≠ .air) = r.blocks.entries :=
    List.filter_eq_self.mpr fun e he => by simpa using (hr.blocks e he).ne_air
  rw [hfilter] at hall
  exact ⟨r', _, _, hrun, ticks_agree (hr.alike hall hinc)⟩

/-- A realm restored from another ticks as a reloadable twin does, when the restored blocks
reload the twin's blocks too: restoring reads only what the twin shares with the original. -/
theorem tick_run_of_twin {r₀ r' : Realm} (hr₀ : r₀.Reloadable)
    (hall : List.Forall₂ (fun e e' => e'.1 = e.1 ∧ e.2.Reloaded r₀ r' e'.2) r₀.blocks.entries
      r'.blocks.entries)
    (hinc : HandlesIncrease r'.blocks.entries) {t : Tick} {s : Summary} {r₁ : Realm}
    (h : (tick t).run r₀ = .ok (s, r₁)) : ∃ r₁', (tick t).run r' = .ok (s, r₁') := by
  have hagree := tick_agree (hr₀.alike hall hinc) t
  rw [h] at hagree
  cases hrun' : (tick t).run r' with
  | error e =>
    rw [hrun'] at hagree
    exact hagree.elim
  | ok v =>
    obtain ⟨s', r₁'⟩ := v
    rw [hrun'] at hagree
    obtain ⟨rfl, -⟩ := hagree
    exact ⟨r₁', rfl⟩

/-- A hopper holding a worn iron pickaxe, with a transfer cooldown of three and a collect
cooldown of one, ticks alike after a restore. -/
theorem restored_cooling_hopper_ticks_alike :
    let h : Hopper := ⟨.down, false, "", Tick.zero, 3, 1, ⟨0⟩, ⟨0⟩⟩
    let r : Realm :=
      { blocks := ({} : BlockMap).set ⟨0, 64, 0⟩ (.hopper h)
        storages := #[⟨#[some ⟨.tool .pickaxe .iron, 1, some 17, none⟩, none, none, none, none], ⟨0⟩⟩] }
    r.Reloadable ∧ ∃ r' U σ, (restore (capture r)).run r = .ok ((), r') ∧
      ∀ ts : List Tick, Act.Agree U σ ((ts.mapM tick).run r) ((ts.mapM tick).run r') := by
  intro h r
  have hr : r.Reloadable := by decide +kernel
  exact ⟨hr, restore_ticks_alike r hr⟩

/-- A resting hopper whose collect cooldown is the least signed 64-bit word traps on its next
tick, counting that cooldown down; restored, its collect cooldown is zero and the tick passes. -/
theorem restore_clears_trapping_collect_cooldown :
    let h : Hopper := ⟨.down, false, "", Tick.zero, 0, Int64.minValue, ⟨0⟩, ⟨0⟩⟩
    let r : Realm :=
      { blocks := ({} : BlockMap).set ⟨0, 64, 0⟩ (.hopper h)
        storages := #[⟨#[none, none, none, none, none], ⟨0⟩⟩] }
    (∃ e, (tick ⟨1⟩).run r = .error e) ∧
      ∃ r' v, (restore (capture r)).run r = .ok ((), r') ∧ (tick ⟨1⟩).run r' = .ok v := by
  intro h r
  let h₀ : Hopper := { h with collectCooldown := 0 }
  let r₀ : Realm := { r with blocks := ({} : BlockMap).set ⟨0, 64, 0⟩ (.hopper h₀) }
  have hr₀ : r₀.Reloadable := by decide +kernel
  obtain ⟨r', hrun, -, hall, -, hinc⟩ := run_restore_capture r (by decide +kernel)
  rw [show r.blocks.entries.filter (·.2 ≠ .air) = [(⟨0, 64, 0⟩, .hopper h)] from rfl] at hall
  obtain ⟨⟨p', b'⟩, l', ⟨hp, hre⟩, hnil, he'⟩ := List.forall₂_cons_left_iff.mp hall
  rw [List.forall₂_nil_left_iff] at hnil
  -- restoring reads neither collect cooldown, so `r₀` reloads to the same realm
  have hall₀ : List.Forall₂ (fun e e' => e'.1 = e.1 ∧ e.2.Reloaded r₀ r' e'.2) r₀.blocks.entries
      r'.blocks.entries := by
    rw [he', hnil]
    obtain ⟨h', rfl, hf, hpw, hn, hl, htc, hcc, hs⟩ := hre
    exact .cons ⟨hp, h', rfl, hf, hpw, hn, hl, htc, hcc, hs⟩ .nil
  have htrap : ((tick ⟨1⟩).run r).toBool = false := by decide
  have hok₀ : ((tick ⟨1⟩).run r₀).toBool = true := by decide
  obtain ⟨s, r₁, hrun₀⟩ := Act.exists_run_ok hok₀
  obtain ⟨r₁', hrun'⟩ := tick_run_of_twin hr₀ hall₀ hinc hrun₀
  exact ⟨Act.exists_run_error htrap, r', _, hrun, hrun'⟩

/-- Two hoppers sharing one inventory that holds a single stone, each over a chest of its own,
push that stone once between them; restored, each holds a stone of its own and both push. -/
theorem restore_splits_shared_inventory :
    let h : Hopper := ⟨.down, false, "", Tick.zero, 0, 0, ⟨0⟩, ⟨0⟩⟩
    let r : Realm :=
      { blocks := (((({} : BlockMap).set ⟨0, 63, 0⟩ (.chest ⟨"", ⟨1⟩, ⟨1⟩⟩)).set ⟨0, 64, 0⟩ (.hopper h)).set
          ⟨2, 63, 0⟩ (.chest ⟨"", ⟨2⟩, ⟨2⟩⟩)).set ⟨2, 64, 0⟩ (.hopper h)
        storages := #[⟨#[some (Stack.new .stone 1), none, none, none, none], ⟨0⟩⟩, ⟨Slots.empty 27, ⟨1⟩⟩,
          ⟨Slots.empty 27, ⟨2⟩⟩]
        registries := #[{}, {}, {}] }
    (∃ r₁, (tick ⟨1⟩).run r = .ok ({ hoppers := 2, transfers := 1 }, r₁)) ∧
      ∃ r' r₁', (restore (capture r)).run r = .ok ((), r') ∧
        (tick ⟨1⟩).run r' = .ok ({ hoppers := 2, transfers := 2 }, r₁') := by
  intro h r
  -- the same layout with the second hopper on storage of its own, holding the same stone
  let h₃ : Hopper := { h with inventory := ⟨3⟩ }
  let r₀ : Realm :=
    { r with
      blocks := r.blocks.set ⟨2, 64, 0⟩ (.hopper h₃)
      storages := r.storages.push ⟨#[some (Stack.new .stone 1), none, none, none, none], ⟨0⟩⟩ }
  have hr₀ : r₀.Reloadable := by decide +kernel
  obtain ⟨r', hrun, -, hall, -, hinc⟩ := run_restore_capture r (by decide +kernel)
  -- restoring reads each container's slots only, so the blocks of `r₀` reload to those of `r'`
  have hall₀ : List.Forall₂ (fun e e' => e'.1 = e.1 ∧ e.2.Reloaded r₀ r' e'.2) r₀.blocks.entries
      r'.blocks.entries := by
    obtain ⟨e₁, l₁, hre₁, hall₁, heq⟩ := List.forall₂_cons_left_iff.mp hall
    obtain ⟨e₂, l₂, hre₂, hall₂, rfl⟩ := List.forall₂_cons_left_iff.mp hall₁
    obtain ⟨e₃, l₃, hre₃, hall₃, rfl⟩ := List.forall₂_cons_left_iff.mp hall₂
    obtain ⟨e₄, l₄, ⟨hp₄, h', he₄, hf, hpw, hn, hl, htc, hcc, hs⟩, hnil, rfl⟩ :=
      List.forall₂_cons_left_iff.mp hall₃
    rw [List.forall₂_nil_left_iff.mp hnil] at heq
    rw [heq]
    exact .cons hre₁ (.cons hre₂ (.cons hre₃ (.cons ⟨hp₄, h', he₄, hf, hpw, hn, hl, htc, hcc, hs⟩ .nil)))
  have hshared : ((tick ⟨1⟩).run r).toOption.map Prod.fst = some { hoppers := 2, transfers := 1 } := by
    decide +kernel
  have hsplit : ((tick ⟨1⟩).run r₀).toOption.map Prod.fst = some { hoppers := 2, transfers := 2 } := by
    decide +kernel
  obtain ⟨r₁₀, hrun₀⟩ := Act.exists_run_of_result hsplit
  obtain ⟨r₁', hrun'⟩ := tick_run_of_twin hr₀ hall₀ hinc hrun₀
  exact ⟨Act.exists_run_of_result hshared, r', r₁', hrun, hrun'⟩

end World

end ItemFlow
