import ItemFlow.World.Tick
import Mathlib
/-! Running realm actions: how the primitive actions evaluate, and the invariants a composite
action keeps because each of its writes keeps them. -/
namespace ItemFlow

@[simp] theorem Except.pure_eq_ok {ε α : Type} (a : α) : (pure a : Except ε α) = .ok a := rfl

@[simp] theorem Except.ok_bind {ε α β : Type} (a : α) (f : α → Except ε β) :
    (Except.ok a >>= f) = f a := rfl

@[simp] theorem Except.error_bind {ε α β : Type} (e : ε) (f : α → Except ε β) :
    (Except.error e >>= f) = .error e := rfl

theorem Except.ok_of_toOption {ε α : Type} {x : Except ε α} {a : α} (h : x.toOption = some a) :
    x = .ok a := by
  cases x <;> simp_all [Except.toOption]

namespace Realm
variable {r : Realm}

@[simp] theorem blocks_deliver (g : RegistryId) (c : Change) : (r.deliver g c).blocks = r.blocks := rfl

@[simp] theorem storages_deliver (g : RegistryId) (c : Change) :
    (r.deliver g c).storages = r.storages := rfl

private theorem foldl_deliver (g : RegistryId) (cs : List Change) (r : Realm) :
    (cs.foldl (fun r c => r.deliver g c) r).blocks = r.blocks ∧
      (cs.foldl (fun r c => r.deliver g c) r).storages = r.storages := by
  induction cs generalizing r with
  | nil => exact ⟨rfl, rfl⟩
  | cons c cs ih => simpa using ih (r.deliver g c)

@[simp] theorem blocks_applyEdit (i : InventoryId) (e : Edit) : (r.applyEdit i e).blocks = r.blocks := by
  unfold applyEdit
  split
  · rfl
  · exact (foldl_deliver _ _ _).1

theorem storages_applyEdit (i : InventoryId) (e : Edit) :
    (r.applyEdit i e).storages = match r.storages[i.idx]? with
      | none => r.storages
      | some s => r.storages.set! i.idx { s with slots := e.slots } := by
  unfold applyEdit
  cases r.storages[i.idx]? with
  | none => rfl
  | some s => exact (foldl_deliver _ _ _).2

@[simp] theorem size_storages_applyEdit (i : InventoryId) (e : Edit) :
    (r.applyEdit i e).storages.size = r.storages.size := by
  rw [storages_applyEdit]
  split <;> simp

theorem slotsOf_applyEdit (i j : InventoryId) (e : Edit) :
    (r.applyEdit i e).slotsOf j = if i = j ∧ i.idx < r.storages.size then e.slots else r.slotsOf j := by
  unfold slotsOf
  rw [storages_applyEdit]
  cases hs : r.storages[i.idx]? with
  | none =>
    have : r.storages.size ≤ i.idx := Array.getElem?_eq_none_iff.mp hs
    rw [if_neg (by omega)]
  | some s =>
    have hlt : i.idx < r.storages.size := (Array.getElem?_eq_some_iff.mp hs).1
    by_cases hij : i = j
    · subst hij
      simp [hlt]
    · have hne : i.idx ≠ j.idx := fun h => hij (by cases i; cases j; simp_all)
      simp [hne, hij]

end Realm

namespace Act
variable {α β : Type} {r : Realm}

@[simp] theorem run_blockAt (p : Pos) : (blockAt p).run r = .ok (r.blockAt p, r) := rfl

@[simp] theorem run_slotsOf (i : InventoryId) : (slotsOf i).run r = .ok (r.slotsOf i, r) := rfl

@[simp] theorem run_setBlock (p : Pos) (b : Block) :
    (setBlock p b).run r = .ok ((), { r with blocks := r.blocks.set p b }) := rfl

@[simp] theorem run_lift_ok (a : α) : (lift (.ok a)).run r = .ok (a, r) := rfl

@[simp] theorem run_lift_error (e : Overflow) : (lift (.error e) : Act α).run r = .error e := rfl

@[simp] theorem run_blockAt_bind (p : Pos) (f : Block → Act β) :
    (blockAt p >>= f).run r = (f (r.blockAt p)).run r := rfl

@[simp] theorem run_slotsOf_bind (i : InventoryId) (f : Slots → Act β) :
    (slotsOf i >>= f).run r = (f (r.slotsOf i)).run r := rfl

theorem run_lift_bind (x : Except Overflow α) (f : α → Act β) :
    (lift x >>= f).run r = match x with
      | .ok a => (f a).run r
      | .error e => .error e := by
  cases x <;> rfl

@[simp] theorem run_get_bind (f : Realm → Act β) :
    ((MonadState.get : Act Realm) >>= f).run r = (f r).run r := rfl

@[simp] theorem run_pure (a : α) : (Pure.pure a : Act α).run r = .ok (a, r) := rfl

theorem run_setItem (i : InventoryId) (slot : Nat) (st : Option Stack) :
    (setItem i slot st).run r = .ok (match (r.slotsOf i).setItem slot st with
      | .ok e => (.ok (), r.applyEdit i e)
      | .error err => (.error err, r)) := by
  cases h : (r.slotsOf i).setItem slot st <;> simp [setItem, h]

theorem run_addItem (i : InventoryId) (st : Stack) :
    (addItem i st).run r = .ok (match (r.slotsOf i).addItem st with
      | .ok e => (.ok (), r.applyEdit i e)
      | .error err => (.error err, r)) := by
  cases h : (r.slotsOf i).addItem st <;> simp [addItem, h]

theorem run_decrement (i : InventoryId) (slot : Nat) :
    (decrement i slot).run r = .ok (match (r.slotsOf i).decrement slot with
      | .ok (c, e) => (.ok c, r.applyEdit i e)
      | .error err => (.error err, r)) := by
  cases h : (r.slotsOf i).decrement slot <;> simp [decrement, h]

theorem setItem_cases {res : Except InventoryError Unit} {r' : Realm}
    (h : (setItem i slot st).run r = .ok (res, r')) :
    (∃ e, (r.slotsOf i).setItem slot st = .ok e ∧ res = .ok () ∧ r' = r.applyEdit i e) ∨
      (res.toBool = false ∧ r' = r) := by
  rw [run_setItem] at h
  cases he : (r.slotsOf i).setItem slot st with
  | ok e =>
    simp only [he, Except.ok.injEq, Prod.mk.injEq] at h
    exact .inl ⟨e, rfl, h.1.symm, h.2.symm⟩
  | error err =>
    simp only [he, Except.ok.injEq, Prod.mk.injEq] at h
    exact .inr ⟨by rw [← h.1]; rfl, h.2.symm⟩

theorem addItem_cases {res : Except InventoryError Unit} {r' : Realm}
    (h : (addItem i st).run r = .ok (res, r')) :
    (∃ e, (r.slotsOf i).addItem st = .ok e ∧ res = .ok () ∧ r' = r.applyEdit i e) ∨
      (res.toBool = false ∧ r' = r) := by
  rw [run_addItem] at h
  cases he : (r.slotsOf i).addItem st with
  | ok e =>
    simp only [he, Except.ok.injEq, Prod.mk.injEq] at h
    exact .inl ⟨e, rfl, h.1.symm, h.2.symm⟩
  | error err =>
    simp only [he, Except.ok.injEq, Prod.mk.injEq] at h
    exact .inr ⟨by rw [← h.1]; rfl, h.2.symm⟩

theorem pure_run_ok {a b : α} {r' : Realm} (h : (Pure.pure a : Act α).run r = .ok (b, r')) :
    b = a ∧ r' = r := by
  obtain ⟨h1, h2⟩ := Prod.mk.inj (Except.ok.inj h)
  exact ⟨h1.symm, h2.symm⟩

theorem run_bind_ok {x : Act α} {a : α} {r' : Realm} (hx : x.run r = .ok (a, r')) (f : α → Act β) :
    (x >>= f).run r = (f a).run r' := by
  rw [StateT.run_bind, hx]
  rfl

theorem bind_run_ok {x : Act α} {f : α → Act β} {b : β} {r'' : Realm}
    (h : (x >>= f).run r = .ok (b, r'')) :
    ∃ a r', x.run r = .ok (a, r') ∧ (f a).run r' = .ok (b, r'') := by
  rw [StateT.run_bind] at h
  cases hx : x.run r with
  | error e => rw [hx] at h; cases h
  | ok v => exact ⟨v.1, v.2, rfl, by rw [hx] at h; exact h⟩

theorem exists_run_ok {x : Act α} (h : (x.run r).toBool = true) : ∃ a r', x.run r = .ok (a, r') := by
  cases hx : x.run r with
  | ok v => exact ⟨v.1, v.2, rfl⟩
  | error e => rw [hx] at h; cases h

theorem exists_run_of_result {x : Act α} {a : α} (h : (x.run r).toOption.map Prod.fst = some a) :
    ∃ r', x.run r = .ok (a, r') := by
  cases hx : x.run r with
  | ok v =>
    rw [hx] at h
    obtain ⟨b, r'⟩ := v
    obtain rfl : b = a := by simpa [Except.toOption] using h
    exact ⟨r', rfl⟩
  | error e =>
    rw [hx] at h
    cases h

theorem exists_run_error {x : Act α} (h : (x.run r).toBool = false) : ∃ e, x.run r = .error e := by
  cases hx : x.run r with
  | ok v => rw [hx] at h; cases h
  | error e => exact ⟨e, rfl⟩

/-- Every successful run of `x` from a realm satisfying `P` ends in a realm satisfying `P`. -/
def Preserves (P : Realm → Prop) (x : Act α) : Prop :=
  ∀ ⦃r a r'⦄, P r → x.run r = .ok (a, r') → P r'

/-- `P` survives every write an inventory action makes. -/
structure SlotStable (P : Realm → Prop) : Prop where
  setItem : ∀ r i slot st e, P r → (r.slotsOf i).setItem slot st = .ok e → P (r.applyEdit i e)
  addItem : ∀ r i st e, P r → (r.slotsOf i).addItem st = .ok e → P (r.applyEdit i e)
  decrement : ∀ r i slot c e, P r → (r.slotsOf i).decrement slot = .ok (c, e) →
    P (r.applyEdit i e)

def BlockStable (P : Realm → Prop) : Prop :=
  ∀ r p b, P r → P { r with blocks := r.blocks.set p b }

def BlockStableAt (P : Realm → Prop) (p : Pos) : Prop :=
  ∀ r b, P r → P { r with blocks := r.blocks.set p b }

theorem BlockStable.at {P : Realm → Prop} (hP : BlockStable P) (p : Pos) : BlockStableAt P p :=
  fun r b => hP r p b

namespace Preserves
variable {P : Realm → Prop}

theorem pure (a : α) : Preserves P (Pure.pure a : Act α) := by
  intro r a' r' hP h
  cases h
  exact hP

theorem bind {x : Act α} {f : α → Act β} (hx : Preserves P x) (hf : ∀ a, Preserves P (f a)) :
    Preserves P (x >>= f) := by
  intro r b r'' hP h
  obtain ⟨a, r', h1, h2⟩ := bind_run_ok h
  exact hf a (hx hP h1) h2

theorem blockAt (p : Pos) : Preserves P (Act.blockAt p) := by
  intro r a r' hP h
  cases h
  exact hP

theorem slotsOf (i : InventoryId) : Preserves P (Act.slotsOf i) := by
  intro r a r' hP h
  cases h
  exact hP

theorem get : Preserves P (MonadState.get : Act Realm) := by
  intro r a r' hP h
  change Except.ok (r, r) = _ at h
  obtain ⟨-, rfl⟩ := Prod.mk.inj (Except.ok.inj h)
  exact hP

theorem lift (x : Except Overflow α) : Preserves P (Act.lift x) := by
  intro r a r' hP h
  cases x <;> simp at h
  obtain ⟨-, rfl⟩ := h
  exact hP

theorem setBlock {p : Pos} (hP : BlockStableAt P p) (b : Block) : Preserves P (Act.setBlock p b) := by
  intro r a r' h hr
  cases hr
  exact hP r b h

theorem setItem (hP : SlotStable P) (i : InventoryId) (slot : Nat) (st : Option Stack) :
    Preserves P (Act.setItem i slot st) := by
  intro r a r' h hr
  rw [run_setItem] at hr
  split at hr <;> cases hr
  · exact hP.setItem r i slot st _ h ‹_›
  · exact h

theorem addItem (hP : SlotStable P) (i : InventoryId) (st : Stack) :
    Preserves P (Act.addItem i st) := by
  intro r a r' h hr
  rw [run_addItem] at hr
  split at hr <;> cases hr
  · exact hP.addItem r i st _ h ‹_›
  · exact h

theorem decrement (hP : SlotStable P) (i : InventoryId) (slot : Nat) :
    Preserves P (Act.decrement i slot) := by
  intro r a r' h hr
  rw [run_decrement] at hr
  split at hr <;> cases hr
  · exact hP.decrement r i slot _ _ h ‹_›
  · exact h


theorem mapM {γ δ : Type} {f : γ → Act δ} (hf : ∀ c, Preserves P (f c)) :
    ∀ l : List γ, Preserves P (l.mapM f)
  | [] => .pure _
  | c :: l => by
    rw [List.mapM_cons]
    exact .bind (hf c) fun _ => .bind (Preserves.mapM hf l) fun _ => .pure _

theorem forM {γ : Type} {f : γ → Act Unit} (hf : ∀ c, Preserves P (f c)) :
    ∀ l : List γ, Preserves P (l.forM f)
  | [] => .pure _
  | c :: l => by
    exact .bind (hf c) fun _ => Preserves.forM hf l

end Preserves

end Act

end ItemFlow
