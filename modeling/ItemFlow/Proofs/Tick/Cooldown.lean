import ItemFlow.Proofs.Tick.Conservation
/-! The hopper cooldown machine over whole runs. A hopper turn counts both cooldowns down and
cools down while one of them has not run out; otherwise it clears them, and then it is blocked
when powered, idles untouched when nothing moves, or transfers and rests for eight ticks. No
other turn of a pass touches the hopper's position, so over consecutive passes the hopper at a
position follows this machine turn after turn. -/
namespace ItemFlow
open Act

def Phase.isTransferred : Phase → Bool
  | .transferred _ _ => true
  | _ => false

namespace Hopper

/-- How many more turns the hopper cools down for: the larger of its cooldowns, none when both
are below one. -/
def rest (h : Hopper) : Nat := (max (max h.transferCooldown.toInt h.collectCooldown.toInt) 0).toNat

/-- One turn of a hopper's cooldown machine at tick `now`: the phase, and the hopper stored at
its position after the turn. -/
inductive Step (now : Tick) (h : Hopper) : Phase → Hopper → Prop
  | coolingDown {tc cc : Int64} (htc : tc.toInt = h.transferCooldown.toInt - 1)
      (hcc : cc.toInt = h.collectCooldown.toInt - 1) (hcool : 0 ≤ tc.toInt ∨ 0 ≤ cc.toInt) :
      Step now h .coolingDown { h with transferCooldown := tc, collectCooldown := cc, lastTick := now }
  | blocked (hdue : h.transferCooldown.toInt ≤ 0 ∧ h.collectCooldown.toInt ≤ 0)
      (hpow : h.powered = true) :
      Step now h .blocked { h with transferCooldown := 0, collectCooldown := 0, lastTick := now }
  | idle (hdue : h.transferCooldown.toInt ≤ 0 ∧ h.collectCooldown.toInt ≤ 0)
      (hpow : h.powered = false) : Step now h .idle h
  | transferred {inserted extracted : Bool}
      (hdue : h.transferCooldown.toInt ≤ 0 ∧ h.collectCooldown.toInt ≤ 0)
      (hpow : h.powered = false) (hmoved : (inserted || extracted) = true) :
      Step now h (.transferred inserted extracted)
        { h with transferCooldown := cooldownTicks, collectCooldown := cooldownTicks, lastTick := now }

/-- Hopper turns in order from `h`: each leads on from the hopper the previous one stored. -/
def Steps : Hopper → List (Phase × Hopper) → Prop
  | _, [] => True
  | h, (ph, h') :: tr => (∃ now, Step now h ph h') ∧ Steps h' tr

end Hopper

theorem Overflow.toInt_of_subI64 {a b c : Int64} (h : Overflow.subI64 a b = .ok c) :
    c.toInt = a.toInt - b.toInt := by
  unfold Overflow.subI64 at h
  dsimp only at h
  split at h
  · next hr =>
    cases h
    rw [Int64.toInt_ofInt]
    exact Int.bmod_eq_of_le (by simp [Int64.size]; omega) (by simp [Int64.size]; omega)
  · cases h

theorem slotStable_blockAt (p : Pos) (b : Block) : SlotStable fun r => r.blockAt p = b where
  setItem _ _ _ _ _ h _ := by simpa [Realm.blockAt] using h
  addItem _ _ _ _ h _ := by simpa [Realm.blockAt] using h
  decrement _ _ _ _ _ h _ := by simpa [Realm.blockAt] using h

theorem blockStableAt_blockAt {p q : Pos} (hpq : q ≠ p) (b : Block) :
    BlockStableAt (fun r => r.blockAt p = b) q := by
  intro r b' h
  simpa [Realm.blockAt, BlockMap.get_set_ne _ _ (Ne.symm hpq)] using h

@[simp] theorem Realm.blockAt_setBlock_self (r : Realm) (p : Pos) {b : Block} (hb : b ≠ .air) :
    Realm.blockAt { r with blocks := r.blocks.set p b } p = b :=
  BlockMap.get_set_self _ _ hb

namespace Hopper

/-- A push reads only the hopper's facing and storage: a hopper that agrees on both pushes alike. -/
theorem insert_run_congr {g h : Hopper} {pos : Pos} {r : Realm} {v : Except Overflow (Bool × Realm)}
    (hrun : (g.insert pos).run r = v) (hf : g.facing = h.facing) (hi : g.inventory = h.inventory) :
    (h.insert pos).run r = v := by
  have hoffer : ∀ dest inv source, g.offer dest inv source = h.offer dest inv source := by
    intro dest inv source
    simp only [offer, hf]
  -- the offers run along the snapshot of filled slots, which is the same for both
  have heach : ∀ dest inv l, g.offerEach dest inv l = h.offerEach dest inv l := by
    intro dest inv l
    induction l with
    | nil => rfl
    | cons x l ih =>
      obtain ⟨slot, source⟩ := x
      simp only [offerEach, hoffer, hi, ih]
  rw [← hrun]
  simp only [insert, hf, hi, heach]

/-- One hopper tick from realm `r`, one constructor per branch of the code: with rest left the
hopper stores itself counted down; past it, a powered hopper stores itself cleared, and an
unpowered one pushes, then pulls, and idles when neither moved or stores itself rested when one
did. -/
inductive TickRun (now : Tick) (h : Hopper) (pos : Pos) (r : Realm) : Phase → Realm → Prop
  | coolingDown {tc cc : Int64} (htc : tc.toInt = h.transferCooldown.toInt - 1)
      (hcc : cc.toInt = h.collectCooldown.toInt - 1) (hcool : 0 ≤ tc.toInt ∨ 0 ≤ cc.toInt) :
      TickRun now h pos r .coolingDown { r with blocks := (r.blocks.set pos
        (.hopper { h with transferCooldown := tc, collectCooldown := cc, lastTick := now })) }
  | blocked (hdue : h.transferCooldown.toInt ≤ 0 ∧ h.collectCooldown.toInt ≤ 0)
      (hpow : h.powered = true) :
      TickRun now h pos r .blocked { r with blocks := (r.blocks.set pos
        (.hopper { h with transferCooldown := 0, collectCooldown := 0, lastTick := now })) }
  | idle (hdue : h.transferCooldown.toInt ≤ 0 ∧ h.collectCooldown.toInt ≤ 0)
      (hpow : h.powered = false) {r₁ r₂ : Realm} (hins : (h.insert pos).run r = .ok (false, r₁))
      (hext : (h.extract pos).run r₁ = .ok (false, r₂)) :
      TickRun now h pos r .idle r₂
  | transferred (hdue : h.transferCooldown.toInt ≤ 0 ∧ h.collectCooldown.toInt ≤ 0)
      (hpow : h.powered = false) {inserted extracted : Bool} {r₁ r₂ : Realm}
      (hins : (h.insert pos).run r = .ok (inserted, r₁))
      (hext : (h.extract pos).run r₁ = .ok (extracted, r₂)) (hmoved : (inserted || extracted) = true) :
      TickRun now h pos r (.transferred inserted extracted) { r₂ with blocks := (r₂.blocks.set pos
        (.hopper { h with transferCooldown := cooldownTicks, collectCooldown := cooldownTicks, lastTick := now })) }

theorem TickRun.of_run {h : Hopper} {now : Tick} {pos : Pos} {r r' : Realm} {ph : Phase}
    (hrun : (h.tick now pos).run r = .ok (ph, r')) : TickRun now h pos r ph r' := by
  unfold tick at hrun
  rw [run_lift_bind] at hrun
  split at hrun
  · next tc htc =>
    rw [run_lift_bind] at hrun
    split at hrun
    · next cc hcc =>
      have htc := Overflow.toInt_of_subI64 htc
      have hcc := Overflow.toInt_of_subI64 hcc
      simp only [Int64.toInt_one] at htc hcc
      dsimp only at hrun
      split at hrun
      · next hcool =>
        rw [run_bind_ok (run_setBlock _ _)] at hrun
        obtain ⟨rfl, rfl⟩ := pure_run_ok hrun
        exact .coolingDown htc hcc (by simpa [Int64.le_iff_toInt_le] using hcool)
      · next hcool =>
        have hdue : h.transferCooldown.toInt ≤ 0 ∧ h.collectCooldown.toInt ≤ 0 := by
          simp only [Bool.or_eq_true, decide_eq_true_eq, not_or, Int64.le_iff_toInt_le,
            Int64.toInt_zero, Int.not_le] at hcool
          omega
        split at hrun
        · next hpow =>
          rw [run_bind_ok (run_setBlock _ _)] at hrun
          obtain ⟨rfl, rfl⟩ := pure_run_ok hrun
          exact .blocked hdue hpow
        · next hpow =>
          simp only [Bool.not_eq_true] at hpow
          obtain ⟨inserted, r1, hins, hrun⟩ := bind_run_ok hrun
          obtain ⟨extracted, r2, hext, hrun⟩ := bind_run_ok hrun
          -- the transfers run on the cleared copy, which keeps the facing and the storage
          replace hins := insert_run_congr (h := h) hins rfl rfl
          split at hrun
          · next hidle =>
            obtain ⟨rfl, rfl⟩ := pure_run_ok hrun
            obtain ⟨rfl, rfl⟩ : inserted = false ∧ extracted = false := by
              revert hidle
              cases inserted <;> cases extracted <;> simp
            exact .idle hdue hpow hins hext
          · next hmoved =>
            rw [run_bind_ok (run_setBlock _ _)] at hrun
            obtain ⟨rfl, rfl⟩ := pure_run_ok hrun
            refine .transferred hdue hpow hins hext ?_
            revert hmoved
            cases inserted <;> cases extracted <;> simp
    · cases hrun
  · cases hrun

theorem tick_step {h : Hopper} {now : Tick} {pos : Pos} {r r' : Realm} {ph : Phase}
    (hpos : r.blockAt pos = .hopper h) (hrun : (h.tick now pos).run r = .ok (ph, r')) :
    ∃ h', r'.blockAt pos = .hopper h' ∧ Step now h ph h' := by
  cases TickRun.of_run hrun with
  | coolingDown htc hcc hcool => exact ⟨_, Realm.blockAt_setBlock_self _ _ nofun, .coolingDown htc hcc hcool⟩
  | blocked hdue hpow => exact ⟨_, Realm.blockAt_setBlock_self _ _ nofun, .blocked hdue hpow⟩
  | idle hdue hpow hins hext =>
    -- pushing and pulling write slots only, so the hopper is still stored as it was
    have hpos1 := insert_preserves (slotStable_blockAt pos _) _ pos hpos hins
    exact ⟨h, extract_preserves (slotStable_blockAt pos _) _ pos hpos1 hext, .idle hdue hpow⟩
  | transferred hdue hpow _ _ hmoved =>
    exact ⟨_, Realm.blockAt_setBlock_self _ _ nofun, .transferred hdue hpow hmoved⟩

theorem tick_keeps_blockAt {h : Hopper} {now : Tick} {pos p : Pos} {r r' : Realm} {ph : Phase}
    (hp : p ≠ pos) (hrun : (h.tick now pos).run r = .ok (ph, r')) : r'.blockAt p = r.blockAt p :=
  tick_preserves (slotStable_blockAt p _) (blockStableAt_blockAt (Ne.symm hp) _) h now rfl hrun

end Hopper

namespace World

theorem mem_tickPositions {m : BlockMap} {p : Pos} {h : Hopper} (hp : m.get p = .hopper h) :
    p ∈ tickPositions m := by
  unfold BlockMap.get at hp
  split at hp
  · next q b hfind =>
    subst hp
    have hq : q = p := by simpa using List.find?_some hfind
    subst hq
    exact List.mem_map.mpr ⟨(q, .hopper h), List.mem_filter.mpr ⟨List.mem_of_find?_eq_some hfind, rfl⟩, rfl⟩
  · cases hp

/-- A pass visits each position once: the block map's positions strictly increase. -/
theorem nodup_tickPositions (m : BlockMap) : (tickPositions m).Nodup :=
  (m.ascending.filter _).imp Pos.ne_of_cmp_lt

theorem turn_hopper {now : Tick} {p : Pos} {h : Hopper} {r r' : Realm} {t : Turn}
    (hp : r.blockAt p = .hopper h) (hrun : (turn now p).run r = .ok (t, r')) :
    ∃ ph h', t = .hopper ph ∧ r'.blockAt p = .hopper h' ∧ Hopper.Step now h ph h' := by
  unfold turn at hrun
  rw [run_blockAt_bind, hp] at hrun
  obtain ⟨ph, r1, htick, hrun⟩ := bind_run_ok hrun
  obtain ⟨rfl, rfl⟩ := pure_run_ok hrun
  obtain ⟨h', hb, hstep⟩ := Hopper.tick_step hp htick
  exact ⟨ph, h', rfl, hb, hstep⟩

theorem turn_keeps_blockAt {now : Tick} {p q : Pos} (hpq : q ≠ p) {r r' : Realm} {t : Turn}
    (hrun : (turn now q).run r = .ok (t, r')) : r'.blockAt p = r.blockAt p :=
  turn_preserves (slotStable_blockAt p _) (blockStableAt_blockAt hpq _) now rfl hrun

theorem turnsAlong_keeps_blockAt {now : Tick} {p : Pos} :
    ∀ (ps : List Pos) {r r' : Realm} {js : List (Pos × Turn)}, p ∉ ps →
      (ps.mapM fun pos => return (pos, ← turn now pos)).run r = .ok (js, r') →
      r'.blockAt p = r.blockAt p ∧ js.lookup p = none
  | [], _, _, _, _, h => by
    obtain ⟨rfl, rfl⟩ := run_turnsAlong_nil h
    exact ⟨rfl, rfl⟩
  | q :: ps, r, r', js, hp, h => by
    obtain ⟨t, r1, rest, ht, hrest, rfl⟩ := run_turnsAlong_cons h
    have hqp : q ≠ p := fun e => hp (e ▸ List.mem_cons_self)
    obtain ⟨hb, hl⟩ := turnsAlong_keeps_blockAt ps (fun hm => hp (List.mem_cons_of_mem _ hm)) hrest
    refine ⟨hb.trans (turn_keeps_blockAt hqp ht), ?_⟩
    simp [List.lookup, beq_eq_false_iff_ne.mpr (Ne.symm hqp), hl]

theorem turnsAlong_hopper {now : Tick} {p : Pos} {h : Hopper} :
    ∀ (ps : List Pos) {r r' : Realm} {js : List (Pos × Turn)}, ps.Nodup → p ∈ ps →
      r.blockAt p = .hopper h →
      (ps.mapM fun pos => return (pos, ← turn now pos)).run r = .ok (js, r') →
      ∃ ph h', js.lookup p = some (.hopper ph) ∧ r'.blockAt p = .hopper h' ∧ Hopper.Step now h ph h'
  | [], _, _, _, _, hmem, _, _ => absurd hmem List.not_mem_nil
  | q :: ps, r, r', js, hnd, hmem, hp, hrun => by
    obtain ⟨t, r1, rest, ht, hrest, rfl⟩ := run_turnsAlong_cons hrun
    obtain ⟨hq, hnd⟩ := List.nodup_cons.mp hnd
    by_cases hqp : q = p
    · subst hqp
      obtain ⟨ph, h', rfl, hb, hstep⟩ := turn_hopper hp ht
      obtain ⟨hb', -⟩ := turnsAlong_keeps_blockAt ps hq hrest
      exact ⟨ph, h', by simp [List.lookup], hb'.trans hb, hstep⟩
    · have hp1 : r1.blockAt p = .hopper h := (turn_keeps_blockAt hqp ht).trans hp
      obtain ⟨ph, h', hl, hb, hstep⟩ :=
        turnsAlong_hopper ps hnd (List.mem_of_ne_of_mem (Ne.symm hqp) hmem) hp1 hrest
      exact ⟨ph, h', by simp [List.lookup, beq_eq_false_iff_ne.mpr (Ne.symm hqp), hl], hb, hstep⟩

theorem turns_hopper {now : Tick} {p : Pos} {h : Hopper} {r r' : Realm} {js : List (Pos × Turn)}
    (hp : r.blockAt p = .hopper h) (hrun : (turns now).run r = .ok (js, r')) :
    ∃ ph h', js.lookup p = some (.hopper ph) ∧ r'.blockAt p = .hopper h' ∧ Hopper.Step now h ph h' := by
  unfold turns at hrun
  rw [run_get_bind] at hrun
  exact turnsAlong_hopper _ (nodup_tickPositions _) (mem_tickPositions hp) hp hrun

def phaseAt (js : List (Pos × Turn)) (p : Pos) : Option Phase :=
  match js.lookup p with
  | some (.hopper ph) => some ph
  | _ => none

/-- The passes at ticks `ts` from `r`, each with its journal and the realm it leaves, up to the
first pass that traps. -/
def passes : List Tick → Realm → List (List (Pos × Turn) × Realm)
  | [], _ => []
  | t :: ts, r =>
    match (turns t).run r with
    | .ok (js, r') => (js, r') :: passes ts r'
    | .error _ => []

/-- The turns at `p` over the passes at ticks `ts` from `r`: each pass's phase at `p`, with the
block stored at `p` after it. -/
def turnsAt (p : Pos) (ts : List Tick) (r : Realm) : List (Option Phase × Block) :=
  (passes ts r).map fun pass => (phaseAt pass.1 p, pass.2.blockAt p)

theorem turnsAt_cons_ok {p : Pos} {t : Tick} {ts : List Tick} {r r' : Realm}
    {js : List (Pos × Turn)} (hrun : (turns t).run r = .ok (js, r')) :
    turnsAt p (t :: ts) r = (phaseAt js p, r'.blockAt p) :: turnsAt p ts r' := by
  simp only [turnsAt, passes, hrun, List.map_cons]

/-- Over consecutive passes, the hopper at `p` follows its machine turn after turn. -/
theorem turnsAt_hopper {p : Pos} :
    ∀ (ts : List Tick) {r : Realm} {h : Hopper}, r.blockAt p = .hopper h →
      ∃ tr : List (Phase × Hopper),
        turnsAt p ts r = tr.map (fun x => (some x.1, .hopper x.2)) ∧ Hopper.Steps h tr
  | [], _, _, _ => ⟨[], rfl, trivial⟩
  | t :: ts, r, h, hp => by
    cases hrun : (turns t).run r with
    | error e => exact ⟨[], by simp [turnsAt, passes, hrun], trivial⟩
    | ok v =>
      obtain ⟨js, r'⟩ := v
      obtain ⟨ph, h', hl, hb, hstep⟩ := turns_hopper hp hrun
      obtain ⟨tr, htr, hsteps⟩ := turnsAt_hopper ts hb
      refine ⟨(ph, h') :: tr, ?_, ⟨t, hstep⟩, hsteps⟩
      rw [turnsAt_cons_ok hrun, htr, hb, phaseAt, hl, List.map_cons]

end World

namespace Hopper

theorem cooldownTicks_toInt : cooldownTicks.toInt = 8 := by decide

/-- Both cooldowns equal and within one full rest, as for a new hopper. -/
def Level (h : Hopper) : Prop :=
  h.transferCooldown = h.collectCooldown ∧ 0 ≤ h.transferCooldown.toInt ∧
    h.transferCooldown.toInt ≤ 8

/-- How a turn may change one stored cooldown: count it down while cooling, clear it when
blocked, set it to the full rest on a transfer, or leave it on an idle turn. -/
def CooldownMove (ph : Phase) (c c' : Int64) : Prop :=
  (ph = .coolingDown ∧ c'.toInt = c.toInt - 1) ∨ (ph = .blocked ∧ c' = 0) ∨
    (ph.isTransferred ∧ c' = cooldownTicks) ∨ (ph = .idle ∧ c' = c)

section Step

variable {now : Tick} {h h' : Hopper} {ph : Phase}

theorem Step.cooling_iff (hs : Step now h ph h') : ph = .coolingDown ↔ 0 < h.rest := by
  cases hs with
  | coolingDown htc hcc hcool => simp only [rest, true_iff]; omega
  | blocked hdue _ => simp only [rest, reduceCtorEq, false_iff]; omega
  | idle hdue _ => simp only [rest, reduceCtorEq, false_iff]; omega
  | transferred hdue _ _ => simp only [rest, reduceCtorEq, false_iff]; omega

theorem Step.blocked_iff (hs : Step now h ph h') : ph = .blocked ↔ h.rest = 0 ∧ h.powered = true := by
  cases hs with
  | coolingDown htc hcc hcool => simp only [reduceCtorEq, false_iff, rest]; omega
  | blocked hdue hpow => simp only [rest, hpow, true_iff, and_true]; omega
  | idle _ hpow | transferred _ hpow _ => simp [hpow]

theorem Step.rest_next (hs : Step now h ph h') :
    h'.rest = if ph.isTransferred then 8 else h.rest - 1 := by
  cases hs with
  | coolingDown htc hcc hcool =>
    simp only [Phase.isTransferred, Bool.false_eq_true, if_false, rest]
    omega
  | blocked hdue _ | idle hdue _ =>
    simp only [Phase.isTransferred, Bool.false_eq_true, if_false, rest, Int64.toInt_zero]
    omega
  | transferred => simp only [Phase.isTransferred, if_true, rest, cooldownTicks_toInt]; decide

theorem Step.of_rest_pos (hs : Step now h ph h') (hpos : 0 < h.rest) :
    ph = .coolingDown ∧ h'.transferCooldown.toInt = h.transferCooldown.toInt - 1 ∧
      h'.collectCooldown.toInt = h.collectCooldown.toInt - 1 := by
  cases hs with
  | coolingDown htc hcc => exact ⟨rfl, htc, hcc⟩
  | blocked hdue _ | idle hdue _ | transferred hdue _ _ => simp only [rest] at hpos; omega

theorem Step.unpowered_of_transferred (hs : Step now h ph h') (ht : ph.isTransferred) :
    h.powered = false := by
  cases hs with
  | transferred _ hpow => exact hpow
  | coolingDown | blocked | idle => simp [Phase.isTransferred] at ht

theorem Step.powered_eq (hs : Step now h ph h') : h'.powered = h.powered := by
  cases hs <;> rfl

theorem Step.moves (hs : Step now h ph h') :
    CooldownMove ph h.transferCooldown h'.transferCooldown ∧
      CooldownMove ph h.collectCooldown h'.collectCooldown := by
  cases hs with
  | coolingDown htc hcc => exact ⟨.inl ⟨rfl, htc⟩, .inl ⟨rfl, hcc⟩⟩
  | blocked => exact ⟨.inr (.inl ⟨rfl, rfl⟩), .inr (.inl ⟨rfl, rfl⟩)⟩
  | idle => exact ⟨.inr (.inr (.inr ⟨rfl, rfl⟩)), .inr (.inr (.inr ⟨rfl, rfl⟩))⟩
  | transferred => exact ⟨.inr (.inr (.inl ⟨rfl, rfl⟩)), .inr (.inr (.inl ⟨rfl, rfl⟩))⟩

theorem Step.idle_eq (hs : Step now h .idle h') : h' = h := by
  cases hs
  rfl

theorem Step.level (hs : Step now h ph h') (hl : h.Level) : h'.Level := by
  obtain ⟨heq, hlo, hhi⟩ := hl
  cases hs with
  | @coolingDown tc cc htc hcc hcool =>
    have hsame : h.collectCooldown.toInt = h.transferCooldown.toInt := by rw [heq]
    refine ⟨Int64.toInt_inj.mp (show tc.toInt = cc.toInt by omega), ?_, ?_⟩ <;> dsimp only <;> omega
  | blocked => refine ⟨rfl, ?_, ?_⟩ <;> dsimp only <;> decide
  | idle => exact ⟨heq, hlo, hhi⟩
  | transferred => refine ⟨rfl, ?_, ?_⟩ <;> dsimp only <;> decide

end Step

section Steps

theorem Steps.step_at : ∀ {h : Hopper} {tr : List (Phase × Hopper)}, Steps h tr →
    ∀ {k : Nat} {x : Phase × Hopper}, tr[k]? = some x →
      ∃ prev, (h :: tr.map Prod.snd)[k]? = some prev ∧ ∃ now, Step now prev x.1 x.2
  | _, [], _, _, _, hk => by simp at hk
  | h, _ :: _, ⟨⟨now, hs⟩, _⟩, 0, _, hk => by
    simp only [List.getElem?_cons_zero, Option.some.injEq] at hk
    subst hk
    exact ⟨h, rfl, now, hs⟩
  | _, _ :: _, ⟨_, hrest⟩, _ + 1, _, hk => by
    rw [List.getElem?_cons_succ] at hk
    simpa using hrest.step_at hk

theorem Steps.drop : ∀ {h : Hopper} {tr : List (Phase × Hopper)}, Steps h tr →
    ∀ {j : Nat} {x : Phase × Hopper}, tr[j]? = some x → Steps x.2 (tr.drop (j + 1))
  | _, [], _, _, _, hk => by simp at hk
  | _, _ :: _, ⟨_, hrest⟩, 0, _, hk => by
    simp only [List.getElem?_cons_zero, Option.some.injEq] at hk
    subst hk
    exact hrest
  | _, _ :: _, ⟨_, hrest⟩, _ + 1, _, hk => by
    rw [List.getElem?_cons_succ] at hk
    exact hrest.drop hk

theorem Steps.invariant {P : Hopper → Prop} (hP : ∀ {now h ph h'}, Step now h ph h' → P h → P h') :
    ∀ {h : Hopper} {tr : List (Phase × Hopper)}, Steps h tr → P h →
      ∀ {k : Nat} {x : Phase × Hopper}, tr[k]? = some x → P x.2
  | _, [], _, _, _, _, hk => by simp at hk
  | _, _ :: _, ⟨⟨_, hs⟩, _⟩, hh, 0, _, hk => by
    simp only [List.getElem?_cons_zero, Option.some.injEq] at hk
    subst hk
    exact hP hs hh
  | _, _ :: _, ⟨⟨_, hs⟩, hrest⟩, hh, _ + 1, _, hk => by
    rw [List.getElem?_cons_succ] at hk
    exact hrest.invariant hP (hP hs hh) hk

theorem Steps.cooling_iff_lt : ∀ {h : Hopper} {tr : List (Phase × Hopper)}, Steps h tr →
    ∀ {k : Nat} {x : Phase × Hopper}, tr[k]? = some x → k ≤ h.rest →
      (x.1 = .coolingDown ↔ k < h.rest)
  | _, [], _, _, _, hk, _ => by simp at hk
  | _, _ :: _, ⟨⟨_, hs⟩, _⟩, 0, _, hk, _ => by
    simp only [List.getElem?_cons_zero, Option.some.injEq] at hk
    subst hk
    exact hs.cooling_iff
  | _, (ph, _) :: _, ⟨⟨_, hs⟩, hrest⟩, k + 1, _, hk, hle => by
    rw [List.getElem?_cons_succ] at hk
    have hcool : ph = .coolingDown := hs.cooling_iff.mpr (by omega)
    have hnext := hs.rest_next
    simp only [hcool, Phase.isTransferred, Bool.false_eq_true, if_false] at hnext
    rw [hrest.cooling_iff_lt hk (by omega)]
    omega

theorem Steps.countdown : ∀ {h : Hopper} {tr : List (Phase × Hopper)}, Steps h tr →
    ∀ {k : Nat} {x : Phase × Hopper}, tr[k]? = some x → k < h.rest →
      x.2.transferCooldown.toInt = h.transferCooldown.toInt - (k + 1) ∧
        x.2.collectCooldown.toInt = h.collectCooldown.toInt - (k + 1)
  | _, [], _, _, _, hk, _ => by simp at hk
  | _, _ :: _, ⟨⟨_, hs⟩, _⟩, 0, _, hk, hlt => by
    simp only [List.getElem?_cons_zero, Option.some.injEq] at hk
    subst hk
    obtain ⟨-, htc, hcc⟩ := hs.of_rest_pos hlt
    exact ⟨by omega, by omega⟩
  | _, (ph, _) :: _, ⟨⟨_, hs⟩, hrest⟩, k + 1, _, hk, hlt => by
    rw [List.getElem?_cons_succ] at hk
    obtain ⟨hcool, htc, hcc⟩ := hs.of_rest_pos (by omega)
    have hnext := hs.rest_next
    simp only [hcool, Phase.isTransferred, Bool.false_eq_true, if_false] at hnext
    obtain ⟨htc', hcc'⟩ := hrest.countdown hk (by omega)
    exact ⟨by omega, by omega⟩

theorem Steps.rests_after_transfer {h : Hopper} {tr : List (Phase × Hopper)} (hst : Steps h tr)
    {j : Nat} {x : Phase × Hopper} (hj : tr[j]? = some x) (ht : x.1.isTransferred) :
    (∀ {i : Nat} {y : Phase × Hopper}, 1 ≤ i → i ≤ 8 → tr[j + i]? = some y →
      y.1 = .coolingDown) ∧
      ∀ {y : Phase × Hopper}, tr[j + 9]? = some y → y.1 ≠ .coolingDown := by
  obtain ⟨_, -, _, hs⟩ := hst.step_at hj
  have hfull : x.2.rest = 8 := by simpa [ht] using hs.rest_next
  -- count the turns after the transfer from the chain that starts at it
  have hafter : ∀ {i : Nat} {y : Phase × Hopper}, tr[j + 1 + i]? = some y → i ≤ 8 →
      (y.1 = .coolingDown ↔ i < 8) := fun hy hi => by
    rw [← hfull]
    exact (hst.drop hj).cooling_iff_lt (by rwa [List.getElem?_drop]) (by omega)
  refine ⟨fun {i y} h1 h8 hy => ?_, fun hy => ?_⟩
  · obtain ⟨i, rfl⟩ := Nat.exists_eq_add_of_le' h1
    have hy' : tr[j + 1 + i]? = some y := by rw [show j + 1 + i = j + (i + 1) by omega]; exact hy
    exact (hafter hy' (by omega)).mpr (by omega)
  · exact fun hc => absurd ((hafter hy (Nat.le_refl 8)).mp hc) (Nat.lt_irrefl 8)

theorem Steps.transfers_apart {h : Hopper} {tr : List (Phase × Hopper)} (hst : Steps h tr)
    {j j' : Nat} {x y : Phase × Hopper} (hlt : j < j') (hj : tr[j]? = some x)
    (hj' : tr[j']? = some y) (hx : x.1.isTransferred) (hy : y.1.isTransferred) : j + 9 ≤ j' := by
  by_contra hnear
  have hj'' : tr[j + (j' - j)]? = some y := by rw [Nat.add_sub_cancel' (Nat.le_of_lt hlt)]; exact hj'
  have hcool := (hst.rests_after_transfer hj hx).1 (by omega) (by omega) hj''
  simp [hcool, Phase.isTransferred] at hy

theorem Steps.powered_blocked : ∀ {h : Hopper} {tr : List (Phase × Hopper)}, Steps h tr →
    h.powered = true → ∀ {k : Nat} {x : Phase × Hopper}, tr[k]? = some x → h.rest ≤ k →
      x.1 = .blocked
  | _, [], _, _, _, _, hk, _ => by simp at hk
  | _, (_, _) :: _, ⟨⟨_, hs⟩, _⟩, hpow, 0, _, hk, hle => by
    simp only [List.getElem?_cons_zero, Option.some.injEq] at hk
    subst hk
    cases hs with
    | blocked => rfl
    | coolingDown htc hcc hcool => simp only [rest] at hle; omega
    | idle _ hoff | transferred _ hoff _ => simp [hpow] at hoff
  | _, (ph, _) :: _, ⟨⟨_, hs⟩, hrest⟩, hpow, k + 1, _, hk, hle => by
    rw [List.getElem?_cons_succ] at hk
    have hmoved : ph.isTransferred = false := by
      cases hph : ph.isTransferred
      · rfl
      · simp [hs.unpowered_of_transferred hph] at hpow
    have hnext := hs.rest_next
    simp only [hmoved, Bool.false_eq_true, if_false] at hnext
    exact hrest.powered_blocked (hs.powered_eq.trans hpow) hk (by omega)

/-- What the cooldown machine guarantees of the turns `tr` of a hopper that starts as `h`:
the turns are indexed from zero, and the hopper before turn `k` is entry `k` of
`h :: tr.map Prod.snd`. -/
structure CooldownLaw (h : Hopper) (tr : List (Phase × Hopper)) : Prop where
  /-- It cools down in exactly the first `h.rest` turns. -/
  coolsFirst : ∀ {k : Nat} {x : Phase × Hopper}, tr[k]? = some x → k ≤ h.rest →
    (x.1 = .coolingDown ↔ k < h.rest)
  /-- Meanwhile both cooldowns count down by one a turn. -/
  countsDown : ∀ {k : Nat} {x : Phase × Hopper}, tr[k]? = some x → k < h.rest →
    x.2.transferCooldown.toInt = h.transferCooldown.toInt - (k + 1) ∧
      x.2.collectCooldown.toInt = h.collectCooldown.toInt - (k + 1)
  /-- After a transfer it cools down for exactly the next eight turns. -/
  restsAfterTransfer : ∀ {j : Nat} {x : Phase × Hopper}, tr[j]? = some x → x.1.isTransferred →
    (∀ {i : Nat} {y : Phase × Hopper}, 1 ≤ i → i ≤ 8 → tr[j + i]? = some y →
      y.1 = .coolingDown) ∧
      ∀ {y : Phase × Hopper}, tr[j + 9]? = some y → y.1 ≠ .coolingDown
  /-- Two transfers are at least nine turns apart. -/
  transfersApart : ∀ {j j' : Nat} {x y : Phase × Hopper}, j < j' → tr[j]? = some x →
    tr[j']? = some y → x.1.isTransferred → y.1.isTransferred → j + 9 ≤ j'
  /-- Each turn changes a stored cooldown only as its phase allows. -/
  moves : ∀ {k : Nat} {prev : Hopper} {x : Phase × Hopper},
    (h :: tr.map Prod.snd)[k]? = some prev → tr[k]? = some x →
      CooldownMove x.1 prev.transferCooldown x.2.transferCooldown ∧
        CooldownMove x.1 prev.collectCooldown x.2.collectCooldown
  /-- An idle turn stores the hopper unchanged. -/
  idleKeeps : ∀ {k : Nat} {prev : Hopper} {x : Phase × Hopper},
    (h :: tr.map Prod.snd)[k]? = some prev → tr[k]? = some x → x.1 = .idle → x.2 = prev
  /-- A powered hopper is blocked in every turn after its rest. -/
  poweredBlocks : h.powered = true → ∀ {k : Nat} {x : Phase × Hopper}, tr[k]? = some x →
    h.rest ≤ k → x.1 = .blocked
  /-- Level cooldowns, such as a new hopper's, stay level. -/
  staysLevel : h.Level → ∀ {k : Nat} {x : Phase × Hopper}, tr[k]? = some x → x.2.Level

theorem Steps.cooldownLaw {h : Hopper} {tr : List (Phase × Hopper)} (hst : Steps h tr) :
    CooldownLaw h tr where
  coolsFirst := hst.cooling_iff_lt
  countsDown := hst.countdown
  restsAfterTransfer := hst.rests_after_transfer
  transfersApart := hst.transfers_apart
  moves hprev hk := by
    obtain ⟨prev, hprev', _, hs⟩ := hst.step_at hk
    obtain rfl := Option.some.inj (hprev.symm.trans hprev')
    exact hs.moves
  idleKeeps hprev hk hidle := by
    obtain ⟨prev, hprev', _, hs⟩ := hst.step_at hk
    obtain rfl := Option.some.inj (hprev.symm.trans hprev')
    rw [hidle] at hs
    exact hs.idle_eq
  poweredBlocks hpow := hst.powered_blocked hpow
  staysLevel hl := hst.invariant Step.level hl

end Steps

end Hopper

/-- Over any run of tick passes, the hopper at `p` obeys the cooldown law: the turns at `p` are
those of a chain of the machine from the hopper stored there at the start. -/
theorem hopper_obeys_cooldown_law {r : Realm} {p : Pos} {h : Hopper} (ts : List Tick)
    (hp : r.blockAt p = .hopper h) :
    ∃ tr : List (Phase × Hopper),
      World.turnsAt p ts r = tr.map (fun x => (some x.1, .hopper x.2)) ∧ Hopper.CooldownLaw h tr := by
  obtain ⟨tr, htr, hst⟩ := World.turnsAt_hopper ts hp
  exact ⟨tr, htr, hst.cooldownLaw⟩

theorem resting_hopper_obeys_cooldown_law :
    let h : Hopper := ⟨.down, false, "", Tick.zero, 2, 0, ⟨0⟩, ⟨0⟩⟩
    let r : Realm :=
      { blocks := ({} : BlockMap).set ⟨0, 0, 0⟩ (.hopper h)
        storages := #[⟨#[none, none, none, none, none], ⟨0⟩⟩] }
    r.blockAt ⟨0, 0, 0⟩ = .hopper h ∧
      ∃ tr : List (Phase × Hopper), World.turnsAt ⟨0, 0, 0⟩ [⟨1⟩, ⟨2⟩, ⟨3⟩] r =
        tr.map (fun x => (some x.1, .hopper x.2)) ∧ Hopper.CooldownLaw h tr :=
  ⟨by decide, hopper_obeys_cooldown_law _ (by decide)⟩

end ItemFlow
