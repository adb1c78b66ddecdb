import ItemFlow.Proofs.Layout.ChestTicks
import ItemFlow.Proofs.Save.Framing
/-! A run of the demo chest layout. Building it fills the source chest with stacks of 64 stone,
which fails exactly when the units exceed a chest's 27 stacks; ticking it then follows the closed
form of `ChestTicks`, and the run adds only an event log and a save, which can fail but never
change the report. Saving makes directories and writes the save file only, so a log kept
elsewhere survives it; and a log that opens can be written.

Main statement: `chest_layout_closed_form`, the report and event log of the layout for every
count of source units and ticks. -/
namespace ItemFlow

open Act

namespace Layout

theorem chest_room {s : Slots} {st : Stack} (hsize : s.size = Chest.slotCount)
    (hid : st.identity = stone) : s.size * st.maxStack.toNat = 1728 := by
  rw [hsize, maxStack_of_stone hid]
  rfl

theorem count_new_stone {m : Nat} (hm : m ≤ 64) : (Stack.new .stone m.toUInt32).count.toNat = m := by
  simp [Stack.new]
  omega

theorem run_fill_succ {inv : InventoryId} {R n : Nat} (hn : n ≠ 0) (r : Realm) :
    (fill inv .stone (R + 1) n).run r =
      match (r.slotsOf inv).addItem (Stack.new .stone (min n 64).toUInt32) with
      | .ok e => (fill inv .stone R (n - min n 64)).run (r.applyEdit inv e)
      | .error err => .ok (.error err, r) := by
  have hmax : ItemKind.stone.maxStack.toNat = 64 := rfl
  simp only [fill, if_neg hn, hmax]
  rw [StateT.run_bind, run_addItem]
  cases (r.slotsOf inv).addItem (Stack.new .stone (min n 64).toUInt32) <;> rfl

theorem fill_ok {inv : InventoryId} :
    ∀ (R n : Nat) (r : Realm) {u : Nat}, (r.slotsOf inv).Stock stone u →
      (r.slotsOf inv).size = Chest.slotCount → n ≤ R * 64 → u + n ≤ 1728 →
      ∃ r', (fill inv .stone R n).run r = .ok (.ok (), r') ∧ (r'.slotsOf inv).Stock stone (u + n) ∧
        (r'.slotsOf inv).size = Chest.slotCount ∧ r'.blocks = r.blocks ∧
        r'.storages.size = r.storages.size
  | 0, n, r, u, hs, hsize, hR, _ => by
    have hn : n = 0 := by omega
    subst hn
    exact ⟨r, rfl, hs, hsize, rfl, rfl⟩
  | R + 1, n, r, u, hs, hsize, hR, hu => by
    by_cases hn : n = 0
    · subst hn
      exact ⟨r, by simp [fill], hs, hsize, rfl, rfl⟩
    have hcount := count_new_stone (Nat.min_le_right n 64)
    obtain ⟨e, he⟩ := hs.addItem_ok (identity_new_stone _)
      (by rw [chest_room hsize (identity_new_stone _), hcount]; omega)
    have hsize' : e.slots.size = (r.slotsOf inv).size := Slots.size_addItem he
    obtain ⟨r', hrun, hs', hsize'', hb, hst⟩ := fill_ok R (n - min n 64) (r.applyEdit inv e)
      (by rw [Realm.slotsOf_applyEdit_self hsize']; exact hs.addItem (identity_new_stone _) he)
      (by rw [Realm.slotsOf_applyEdit_self hsize', hsize', hsize]) (by omega)
      (by rw [hcount]; omega)
    refine ⟨r', by rw [run_fill_succ hn, he]; exact hrun, ?_, hsize'',
      by rw [hb, Realm.blocks_applyEdit], by rw [hst, Realm.size_storages_applyEdit]⟩
    have hsum : u + (Stack.new .stone (min n 64).toUInt32).count.toNat + (n - min n 64) = u + n := by
      rw [hcount]
      omega
    rwa [hsum] at hs'

theorem fill_full {inv : InventoryId} :
    ∀ (R n : Nat) (r : Realm) {u : Nat}, (r.slotsOf inv).Stock stone u →
      (r.slotsOf inv).size = Chest.slotCount → 1728 < u + n → 1728 < u + R * 64 →
      ∃ r', (fill inv .stone R n).run r = .ok (.error .full, r')
  | 0, n, r, u, hs, hsize, _, hR => by
    have hle := hs.le_size_mul (identity_new_stone 1)
    rw [chest_room hsize (identity_new_stone 1)] at hle
    omega
  | R + 1, n, r, u, hs, hsize, hover, hR => by
    have hle := hs.le_size_mul (identity_new_stone 1)
    rw [chest_room hsize (identity_new_stone 1)] at hle
    have hn : n ≠ 0 := by omega
    have hcount := count_new_stone (Nat.min_le_right n 64)
    have hroom := chest_room hsize (identity_new_stone (min n 64).toUInt32)
    by_cases hfit : u + min n 64 ≤ 1728
    · obtain ⟨e, he⟩ := hs.addItem_ok (identity_new_stone _) (by rw [hroom, hcount]; omega)
      have hsize' : e.slots.size = (r.slotsOf inv).size := Slots.size_addItem he
      obtain ⟨r', hrun⟩ := fill_full R (n - min n 64) (r.applyEdit inv e)
        (by rw [Realm.slotsOf_applyEdit_self hsize']; exact hs.addItem (identity_new_stone _) he)
        (by rw [Realm.slotsOf_applyEdit_self hsize', hsize', hsize]) (by rw [hcount]; omega)
        (by rw [hcount]; omega)
      exact ⟨r', by rw [run_fill_succ hn, he]; exact hrun⟩
    · have hfull := hs.addItem_full (identity_new_stone _) (by rw [hroom, hcount]; omega)
      exact ⟨r, by rw [run_fill_succ hn, hfull]⟩

theorem slotsOf_push_push (r : Realm) (A B : Storage) (m : BlockMap) (g : Array Registry)
    (al : List Viewer) (lg : Array Delivery) (i : InventoryId) :
    Realm.slotsOf ⟨m, (r.storages.push A).push B, g, al, lg⟩ i =
      if i.idx = r.storages.size + 1 then B.slots
      else if i.idx = r.storages.size then A.slots else r.slotsOf i := by
  unfold Realm.slotsOf
  rw [Array.getElem?_push, Array.size_push, Array.getElem?_push]
  by_cases h2 : i.idx = r.storages.size + 1
  · simp [h2]
  · by_cases h1 : i.idx = r.storages.size
    · simp [h1]
    · simp [h1, h2]

theorem build_chest {s : Settings} (hdest : s.destination = .chest) (hn : s.sourceItems.toNat ≤ 1728) :
    ∃ src snk H r, (build s).run {} = .ok (.ok (), r) ∧ ChestAt.After src snk H r s.sourceItems.toNat 0 := by
  let r₀ : Realm := { registries := #[{}], storages := #[⟨Slots.empty Chest.slotCount, ⟨0⟩⟩] }
  have h₀ : newChest.run {} = .ok (⟨"", ⟨0⟩, ⟨0⟩⟩, r₀) := rfl
  obtain ⟨r₁, hrun, hs, hsize, hb, hst⟩ := @fill_ok ⟨0⟩ (Chest.slotCount + 1) s.sourceItems.toNat r₀ 0
    (Slots.Stock.empty stone _) rfl (by simp [Chest.slotCount]; omega) (by omega)
  unfold build
  rw [run_bind_ok h₀]
  simp only [hdest, sourceItem]
  rw [run_bind_ok hrun]
  have h1 : r₁.storages.size = 1 := hst
  refine ⟨⟨"", ⟨0⟩, ⟨0⟩⟩, ⟨"", ⟨2⟩, ⟨r₁.registries.size + 1⟩⟩, ⟨1⟩, _, rfl, ?_⟩
  have hclosed : pulledBy s.sourceItems.toNat 0 = 0 ∧ pushedBy s.sourceItems.toNat 0 = 0 ∧
      restAfter s.sourceItems.toNat 0 = 0 := by
    simp [pulledBy, pushedBy, restAfter]
  unfold ChestAt.After
  rw [hclosed.1, hclosed.2.1, hclosed.2.2, Nat.sub_zero, Nat.sub_zero]
  simp only [Array.size_push, h1]
  refine ⟨⟨_, by rw [hb]; rfl, ⟨rfl, rfl, rfl, by simp, by simp⟩⟩, ?_⟩
  refine ⟨?_, ?_, ?_, ?_, ?_, by simp, by simp, by simp⟩ <;> simp only [slotsOf_push_push, h1]
  · simpa using hs
  · exact Slots.Stock.empty stone _
  · exact Slots.Stock.empty stone _
  · simp [Slots.empty]
  · simp [Slots.empty]

theorem build_chest_full {s : Settings} (hdest : s.destination = .chest)
    (hn : 1728 < s.sourceItems.toNat) :
    ∃ r, (build s).run {} = .ok (.error ⟨"source chest cannot hold the configured items",
      ["inventory is full"]⟩, r) := by
  let r₀ : Realm := { registries := #[{}], storages := #[⟨Slots.empty Chest.slotCount, ⟨0⟩⟩] }
  have h₀ : newChest.run {} = .ok (⟨"", ⟨0⟩, ⟨0⟩⟩, r₀) := rfl
  obtain ⟨r₁, hrun⟩ := @fill_full ⟨0⟩ (Chest.slotCount + 1) s.sourceItems.toNat r₀ 0
    (Slots.Stock.empty stone _) rfl (by omega) (by simp [Chest.slotCount])
  refine ⟨r₁, ?_⟩
  unfold build
  rw [run_bind_ok h₀]
  simp only [hdest, sourceItem]
  rw [run_bind_ok hrun]
  rfl

theorem ChestAt.unitsAt {src snk : Chest} {H : InventoryId} {r : Realm} {a b c k : Nat}
    (hr : ChestAt src snk H r a b c k) : unitsAt r sourcePos = a ∧ unitsAt r (sinkPos .chest) = c := by
  obtain ⟨h, hb, -⟩ := hr.hopper
  simp only [Layout.unitsAt, Realm.blockAt, hb, get_chestMap_source, get_chestMap_sink, Block.inventory?]
  exact ⟨hr.stocked.source.total, hr.stocked.sink.total⟩

/-- The report of the chest layout after `t` ticks from a source of `n` units. -/
def chestReport (ticks : UInt64) (n t : Nat) : RunReport :=
  { ticks, transfers := transfersBy n t, blocked := 0, sourceLeft := n - pulledBy n t,
    delivered := pushedBy n t }

theorem simulate_chest {s : Settings} (hdest : s.destination = .chest) (hn : s.sourceItems.toNat ≤ 1728)
    {src snk : Chest} {H : InventoryId} {r : Realm} (hr : ChestAt.After src snk H r s.sourceItems.toNat 0) :
    ∃ r' log, simulate s r = .ok (r', chestReport s.ticks s.sourceItems.toNat s.ticks.toNat, log) ∧
      log.toList = eventLines s.sourceItems.toNat s.ticks.toNat := by
  have h0 : transfersBy s.sourceItems.toNat 0 = 0 := by simp [transfersBy]
  obtain ⟨r', log, hrun, hlog, hr'⟩ := ticks_after hn s.ticks.toNat 0 r { ticks := s.ticks } #[] hr
    h0.symm rfl (by simp [eventLines, h0])
  simp only [Nat.zero_add] at hrun hlog hr'
  obtain ⟨hsrc, hsnk⟩ := hr'.unitsAt
  refine ⟨r', log, ?_, hlog⟩
  unfold simulate
  rw [hrun]
  simp only [hdest, hsrc, hsnk]
  rfl

section Run

variable {m : Type → Type} [Monad m] [FileSystem m]

theorem run_chest_full {s : Settings} (hdest : s.destination = .chest)
    (hn : 1728 < s.sourceItems.toNat) :
    (run s : m _) = pure (.error (.failed ⟨"source chest cannot hold the configured items",
      ["inventory is full"]⟩)) := by
  obtain ⟨r, hb⟩ := build_chest_full hdest hn
  unfold run
  rw [hb]

theorem run_chest_quiet {s : Settings} (hdest : s.destination = .chest)
    (hn : s.sourceItems.toNat ≤ 1728) (hev : s.eventsPath = none) (hsave : s.saveDir = none) :
    (run s : m _) = pure (.ok (chestReport s.ticks s.sourceItems.toNat s.ticks.toNat)) := by
  obtain ⟨src, snk, H, r, hb, hr⟩ := build_chest hdest hn
  obtain ⟨r', log, hsim, -⟩ := simulate_chest hdest hn hr
  unfold run
  rw [hb]
  dsimp only
  rw [hsim]
  simp only [hev, hsave]

end Run

/-- A file action whose every report is `rep`: a run from any tree that answers with a report
answers with `rep`. -/
def ReportsOnly (x : OnTree (Except RunError RunReport)) (rep : RunReport) : Prop :=
  ∀ t rep' t', x.run t = (.ok rep', t') → rep' = rep

namespace ReportsOnly

variable {rep : RunReport}

theorem pure_ok : ReportsOnly (pure (.ok rep)) rep := by
  intro t rep' t' h
  cases h
  rfl

theorem pure_error (e : RunError) : ReportsOnly (pure (.error e)) rep := by
  intro t rep' t' h
  cases h

theorem bind {α : Type} {x : OnTree α} {f : α → OnTree (Except RunError RunReport)}
    (hf : ∀ a, ReportsOnly (f a) rep) : ReportsOnly (x >>= f) rep := by
  intro t rep' t' h
  exact hf (x.run t).1 (x.run t).2 rep' t' h

end ReportsOnly

/-- Whatever the files, a run of the chest layout that reports, reports its closed form: the
event log and the save only add ways to fail. -/
theorem run_chest_reports {s : Settings} (hdest : s.destination = .chest)
    (hn : s.sourceItems.toNat ≤ 1728) :
    ReportsOnly (run s) (chestReport s.ticks s.sourceItems.toNat s.ticks.toNat) := by
  obtain ⟨src, snk, H, r, hb, hr⟩ := build_chest hdest hn
  obtain ⟨r', log, hsim, -⟩ := simulate_chest hdest hn hr
  unfold run
  rw [hb]
  dsimp only
  rw [hsim]
  dsimp only
  -- opening the log, writing it and saving each fail, or let the report through
  cases s.eventsPath with
  | none =>
    cases s.saveDir with
    | none => exact .pure_ok
    | some dir =>
      refine .bind fun l => ?_
      split
      · exact .pure_error _
      · exact .pure_ok
  | some path =>
    dsimp only
    refine .bind fun l => ?_
    split
    · exact .pure_error _
    · refine .bind fun l => ?_
      split
      · exact .pure_error _
      · cases s.saveDir with
        | none => exact .pure_ok
        | some dir =>
          refine .bind fun l => ?_
          split
          · exact .pure_error _
          · exact .pure_ok

/-- Saving the layout and reading it back keeps every directory, and any file other than the
save file. -/
theorem keepsAt_saveAndVerify (r : Realm) (dir name : String) {cs : List String}
    (hcs : Path.components (Path.join dir (name ++ ".hlbe")) ≠ cs) :
    KeepsAt cs (saveAndVerify r dir name : OnTree _) := by
  unfold saveAndVerify SaveStore.create
  simp only [bind_assoc, pure_bind]
  refine .bind (.createDirAll dir) fun x => ?_
  cases x with
  | error e => exact .pure _
  | ok u =>
    simp only [Failure.explain, Except.map]
    -- only the save writes, and it writes the save file
    refine .bind (.bind (.writeFile _ hcs) fun _ => .pure _) fun x => ?_
    split
    · exact .pure _
    · refine .bind (.bind (.readFile _) fun _ => ?_) fun y => ?_
      · split <;> (try split) <;> exact .pure _
      · split
        · exact .pure _
        · split <;> (try split) <;> exact .pure _

theorem writeAt_of_openLog {p : String} {t t₁ : FileTree}
    (h : (openLog p : OnTree _).run t = (.ok (), t₁)) (data : ByteArray) :
    ∃ t₂, t₁.writeAt p data = .ok t₂ := by
  obtain ⟨t₀, hw⟩ : ∃ t₀,
      (FileSystem.writeFile p ByteArray.empty : OnTree _).run t₀ = (.ok (), t₁) := by
    unfold openLog at h
    dsimp only at h
    split at h
    · rw [StateT.run_bind] at h
      generalize (FileSystem.createDirAll _ : OnTree _).run t = o at h
      obtain ⟨res, t₀⟩ := o
      cases res with
      | error e => cases h
      | ok u => exact ⟨t₀, h⟩
    · exact ⟨t, h⟩
  rw [run_writeFile_onTree] at hw
  cases hwa : t₀.writeAt p .empty with
  | ok t₂ =>
    rw [hwa] at hw
    cases hw
    exact ⟨_, FileTree.writeAt_writeAt hwa data⟩
  | error e =>
    rw [hwa] at hw
    cases hw

/-- A run of the chest layout that reports leaves its event log holding one line for each tick
that moved a unit, unless its save file is the log. -/
theorem run_chest_log {s : Settings} (hdest : s.destination = .chest)
    (hn : s.sourceItems.toNat ≤ 1728) {p : String} (hev : s.eventsPath = some p)
    (hsave : ∀ dir, s.saveDir = some dir →
      Path.components (Path.join dir (s.saveName ++ ".hlbe")) ≠ Path.components p)
    {t t' : FileTree} {rep : RunReport}
    (hrun : (run s : OnTree _).run t = (.ok rep, t')) :
    t'.readAt p = .ok (String.join ((eventLines s.sourceItems.toNat s.ticks.toNat).map (· ++ "\n"))).toUTF8 := by
  obtain ⟨src, snk, H, r, hb, hr⟩ := build_chest hdest hn
  obtain ⟨r', log, hsim, hlog⟩ := simulate_chest hdest hn hr
  unfold run at hrun
  rw [hb] at hrun
  dsimp only at hrun
  rw [hsim] at hrun
  simp only [hev] at hrun
  rw [StateT.run_bind] at hrun
  generalize (openLog p : OnTree _).run t = o at hrun
  obtain ⟨res, t₁⟩ := o
  cases res with
  | error e => cases hrun
  | ok u =>
    change (StateT.run (_ >>= _) t₁) = _ at hrun
    rw [StateT.run_bind, run_writeFile_onTree] at hrun
    cases hw : t₁.writeAt p (String.join (List.map (fun x => x ++ "\n") log.toList)).toUTF8 with
    | error e =>
      rw [hw] at hrun
      cases hrun
    | ok t₂ =>
      rw [hw] at hrun
      have hread := FileTree.readAt_writeAt hw
      rw [hlog] at hread
      cases hsd : s.saveDir with
      | none =>
        simp only [hsd] at hrun
        cases hrun
        exact hread
      | some dir =>
        simp only [hsd] at hrun
        change (StateT.run (saveAndVerify r' dir s.saveName >>= _) t₂) = _ at hrun
        rw [StateT.run_bind] at hrun
        have hk := keepsAt_saveAndVerify r' dir s.saveName (hsave dir hsd) t₂
        generalize (saveAndVerify r' dir s.saveName : OnTree _).run t₂ = o at hrun hk
        obtain ⟨res, t₃⟩ := o
        cases res with
        | error f => cases hrun
        | ok v =>
          cases hrun
          exact hk.readAt hread

/-- With an event log and no save, a run of the chest layout whose log opens reports its closed
form: the opened log can always be written. -/
theorem run_chest_logged {s : Settings} (hdest : s.destination = .chest)
    (hn : s.sourceItems.toNat ≤ 1728) {p : String} (hev : s.eventsPath = some p)
    (hsave : s.saveDir = none) {t t₁ : FileTree}
    (hopen : (openLog p : OnTree _).run t = (.ok (), t₁)) :
    ∃ t', (run s : OnTree _).run t =
      (.ok (chestReport s.ticks s.sourceItems.toNat s.ticks.toNat), t') := by
  obtain ⟨src, snk, H, r, hb, hr⟩ := build_chest hdest hn
  obtain ⟨r', log, hsim, -⟩ := simulate_chest hdest hn hr
  obtain ⟨t₂, hw⟩ := writeAt_of_openLog hopen (String.join (log.toList.map (· ++ "\n"))).toUTF8
  refine ⟨t₂, ?_⟩
  unfold run
  rw [hb]
  dsimp only
  rw [hsim]
  simp only [hev, hsave]
  rw [StateT.run_bind, hopen]
  change (StateT.run (_ >>= _) t₁) = _
  rw [StateT.run_bind, run_writeFile_onTree, hw]
  rfl

/-- The closed form of the chest layout's report, in the terms of `J = (t - 1) / 9`, the last
tick `1 + 9 * J` at which the hopper was due. -/
theorem chestReport_eq (ticks : UInt64) (n t : Nat) :
    chestReport ticks n t =
      { ticks, transfers := if n = 0 ∨ t = 0 then 0 else min (n + 1) ((t - 1) / 9 + 1), blocked := 0,
        sourceLeft := if t = 0 then n else n - min n ((t - 1) / 9 + 1),
        delivered := if t = 0 then 0 else min n ((t - 1) / 9) } := by
  simp only [chestReport, transfersBy, pulledBy, pushedBy, RunReport.mk.injEq, true_and]
  refine ⟨?_, ?_, ?_⟩ <;> split <;> (try split) <;> omega

end Layout

open Layout in
/-- The demo chest layout in closed form. A source chest filled with `N` stone stands above an
unpowered hopper that faces an empty sink chest, and the layout is ticked `T` times. The run fails
exactly when the source chest cannot hold the `N` units, 27 stacks of 64, and then before it
touches a file. Otherwise, with `J = (T - 1) / 9`, the hopper moves a unit at each tick `1 + 9 * j`
for `j` up to `N`, the first only pulling and the last only pushing: the report counts
`min (N + 1) (J + 1)` transfers (none from an empty source), delivers `min N J` units, leaves
`N - min N (J + 1)` in the source and never blocks, and after no tick nothing has moved. With no
event log and no save the run succeeds with that report; with any files, every report it gives is
that one; a run with an event log that reports leaves in the log one line for each tick that moved
a unit, unless its save file is the log itself; and with an event log and no save, a run whose log
opens succeeds. -/
theorem chest_layout_closed_form (s : Settings) (hdest : s.destination = .chest) :
    let N := s.sourceItems.toNat
    let T := s.ticks.toNat
    let J := (T - 1) / 9
    let report : RunReport :=
      { ticks := s.ticks, transfers := if N = 0 ∨ T = 0 then 0 else min (N + 1) (J + 1),
        blocked := 0, sourceLeft := if T = 0 then N else N - min N (J + 1),
        delivered := if T = 0 then 0 else min N J }
    let lines := (List.range report.transfers).map fun j =>
      eventLine (1 + 9 * j) { hoppers := 1, transfers := 1 }
    (1728 < N → ∀ {m : Type → Type} [Monad m] [FileSystem m],
      (run s : m _) = pure (.error (.failed ⟨"source chest cannot hold the configured items",
        ["inventory is full"]⟩))) ∧
    (N ≤ 1728 → s.eventsPath = none → s.saveDir = none → ∀ {m : Type → Type} [Monad m] [FileSystem m],
      (run s : m _) = pure (.ok report)) ∧
    (N ≤ 1728 → ∀ (t t' : FileTree) (rep : RunReport), (run s : OnTree _).run t = (.ok rep, t') →
      rep = report) ∧
    (N ≤ 1728 → ∀ (p : String) (t t' : FileTree) (rep : RunReport), s.eventsPath = some p →
      (∀ dir, s.saveDir = some dir →
        Path.components (Path.join dir (s.saveName ++ ".hlbe")) ≠ Path.components p) →
      (run s : OnTree _).run t = (.ok rep, t') →
      t'.readAt p = .ok (String.join (lines.map (· ++ "\n"))).toUTF8) ∧
    (N ≤ 1728 → ∀ (p : String) (t t₁ : FileTree), s.eventsPath = some p → s.saveDir = none →
      (openLog p : OnTree _).run t = (.ok (), t₁) →
      ∃ t', (run s : OnTree _).run t = (.ok report, t')) := by
  intro N T J report lines
  -- the report and the log lines, as closed forms in the tick count
  have hrep : chestReport s.ticks N T = report := chestReport_eq s.ticks N T
  have hlines : eventLines N T = lines := by
    show _ = List.map _ (List.range report.transfers)
    rw [← hrep]
    rfl
  refine ⟨fun hn _ _ _ => run_chest_full hdest hn, fun hn hev hsave _ _ _ => ?_,
    fun hn t t' rep hrun => ?_, fun hn p t t' rep hev hsave hrun => ?_,
    fun hn p t t₁ hev hsave hopen => ?_⟩
  · rw [← hrep]
    exact run_chest_quiet hdest hn hev hsave
  · rw [← hrep]
    exact run_chest_reports hdest hn t rep t' hrun
  · rw [← hlines]
    exact run_chest_log hdest hn hev hsave hrun
  · rw [← hrep]
    exact run_chest_logged hdest hn hev hsave hopen

/-- Ten units over 200 ticks all reach the sink, in eleven transfers. -/
theorem ten_stone_layout_delivers_all :
    ({ sourceItems := 10 } : Settings).destination = .chest ∧
      (Layout.run { sourceItems := 10 } : OnTree _) =
        pure (.ok { ticks := 200, transfers := 11, blocked := 0, sourceLeft := 0, delivered := 10 }) :=
  ⟨rfl, (chest_layout_closed_form { sourceItems := 10 } rfl).2.1 (by decide) rfl rfl⟩

end ItemFlow
