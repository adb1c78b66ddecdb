import ItemFlow.Proofs.Save.Codec
/-! The grammar of item keys. A numeral is an optional `+` and then one or more ASCII digits,
leading zeros allowed; reading one of a bounded width succeeds exactly on such a text whose
value fits. An item key is a kind word and its parts separated by colons.

Main statement: a text names a kind exactly when it is `block:` or `item:` followed by a
16-bit numeral, or `tool:` followed by a tool type and a material; every kind's own key names
it, so keys are canonical forms of the texts that name the same kind. -/
namespace ItemFlow

namespace Decimal

def shift (acc : Nat) (c : Char) : Nat := acc * 10 + (c.toNat - '0'.toNat)

/-- The value of a run of decimal digits, most significant first. -/
def value (ds : List Char) : Nat := ds.foldl shift 0

/-- `s` is an unsigned decimal numeral of value `n`: an optional `+`, then one or more ASCII
digits whose value is `n`. -/
def Numeral (s : String) (n : Nat) : Prop :=
  ∃ ds : List Char, (s.toList = ds ∨ s.toList = '+' :: ds) ∧ ds ≠ [] ∧ (∀ c ∈ ds, c.isDigit) ∧
    value ds = n

theorem le_foldl_shift : ∀ (cs : List Char) (acc : Nat), acc ≤ cs.foldl shift acc
  | [], _ => Nat.le_refl _
  | c :: cs, acc => by
    rw [List.foldl_cons]
    exact Nat.le_trans (by unfold shift; omega) (le_foldl_shift cs (shift acc c))

/-- The digit scan succeeds exactly on digits whose value fits: since digits only raise the
value, a prefix above the bound exists exactly when the whole value is above it. -/
theorem digits_eq_ok_iff {max : Nat} :
    ∀ (cs : List Char) {acc n : Nat}, acc ≤ max →
      (digits max acc cs = .ok n ↔ (∀ c ∈ cs, c.isDigit) ∧ cs.foldl shift acc = n ∧ n ≤ max)
  | [], acc, n, hacc => by
    simp only [digits, Except.ok.injEq, List.not_mem_nil, false_implies, implies_true,
      List.foldl_nil, true_and]
    constructor
    · rintro rfl
      exact ⟨rfl, hacc⟩
    · rintro ⟨rfl, -⟩
      rfl
  | c :: cs, acc, n, _ => by
    simp only [digits, List.mem_cons, forall_eq_or_imp, List.foldl_cons]
    by_cases hc : c.isDigit
    · by_cases hv : shift acc c ≤ max
      · have hv' : acc * 10 + (c.toNat - '0'.toNat) ≤ max := hv
        rw [if_pos hc, if_pos hv']
        show digits max (shift acc c) cs = .ok n ↔ _
        rw [digits_eq_ok_iff cs hv]
        simp [hc]
      · have hv' : ¬acc * 10 + (c.toNat - '0'.toNat) ≤ max := hv
        rw [if_pos hc, if_neg hv']
        have hle := le_foldl_shift cs (shift acc c)
        simp only [reduceCtorEq, false_iff, not_and]
        intro _ _ hfold
        omega
    · rw [if_neg hc]
      simp [hc]

theorem readBounded_eq_ok_iff {max n : Nat} {s : String} :
    readBounded max s = .ok n ↔ Numeral s n ∧ n ≤ max := by
  unfold readBounded Numeral value
  split
  · next _ h =>
    simp only [reduceCtorEq, false_iff, not_and, h]
    rintro ⟨ds, hds | hds, hne, -⟩ <;> simp_all
  · next _ h =>
    simp only [reduceCtorEq, false_iff, not_and, h]
    rintro ⟨ds, hds | hds, hne, hdig, -⟩
    · subst hds
      simpa using hdig '+' (by simp)
    · cases hds
      exact absurd rfl hne
  · next _ cs hne h =>
    rw [digits_eq_ok_iff cs (Nat.zero_le _)]
    constructor
    · rintro ⟨hdig, rfl, hle⟩
      exact ⟨⟨cs, .inr h, hne, hdig, rfl⟩, hle⟩
    · rintro ⟨⟨ds, hds | hds, -, hdig, rfl⟩, hle⟩
      · rw [h] at hds
        subst hds
        simpa using hdig '+' (by simp)
      · rw [h, List.cons.injEq] at hds
        obtain ⟨-, rfl⟩ := hds
        exact ⟨hdig, rfl, hle⟩
  · next _ hnil _ hplus =>
    rw [digits_eq_ok_iff _ (Nat.zero_le _)]
    constructor
    · rintro ⟨hdig, rfl, hle⟩
      exact ⟨⟨s.toList, .inl rfl, hnil, hdig, rfl⟩, hle⟩
    · rintro ⟨⟨ds, hds | hds, -, hdig, rfl⟩, hle⟩
      · rw [hds]
        exact ⟨hdig, rfl, hle⟩
      · exact absurd hds (hplus ds)

theorem readU16?_eq_some_iff {s : String} {v : UInt16} : readU16? s = some v ↔ Numeral s v.toNat := by
  have hlt := v.toNat_lt
  constructor
  · intro h
    unfold readU16? at h
    split at h
    · next n hn =>
      obtain ⟨hnum, hle⟩ := readBounded_eq_ok_iff.mp hn
      cases h
      have : n.toUInt16.toNat = n := by simp; omega
      rwa [this]
    · cases h
  · intro hnum
    unfold readU16?
    rw [readBounded_eq_ok_iff.mpr ⟨hnum, by omega⟩]
    simp

theorem Numeral.colon_not_mem {s : String} {n : Nat} (h : Numeral s n) : ':' ∉ s.toList := by
  obtain ⟨ds, hds | hds, -, hdig, -⟩ := h <;> rw [hds] <;> intro hmem
  · simpa using hdig ':' hmem
  · rcases List.mem_cons.mp hmem with h | h
    · cases h
    · simpa using hdig ':' h

end Decimal

theorem Tool.ofKey?_eq_some_iff {a : String} {t : Tool} : Tool.ofKey? a = some t ↔ a = t.key := by
  constructor
  · intro h
    unfold Tool.ofKey? at h
    split at h <;> cases h <;> rfl
  · rintro rfl
    cases t <;> rfl

theorem Material.ofKey?_eq_some_iff {b : String} {m : Material} :
    Material.ofKey? b = some m ↔ b = m.key := by
  constructor
  · intro h
    unfold Material.ofKey? at h
    split at h <;> cases h <;> rfl
  · rintro rfl
    cases m <;> rfl

namespace ItemKind

theorem toList_of_parts {s : String} {parts : List String}
    (h : (s.toList.splitOn ':').map String.ofList = parts) :
    s.toList = [':'].intercalate (parts.map String.toList) := by
  rw [← h, List.map_map]
  simp only [Function.comp_def, String.toList_ofList, List.map_id']
  exact (List.intercalate_splitOn ':').symm

theorem parts_of_toList {s : String} {parts : List String} (hne : parts ≠ [])
    (hc : ∀ w ∈ parts, ':' ∉ w.toList)
    (h : s.toList = [':'].intercalate (parts.map String.toList)) :
    (s.toList.splitOn ':').map String.ofList = parts := by
  rw [h, List.splitOn_intercalate _ (by simpa using hc) (by simpa using hne)]
  simp [Function.comp_def]

/-- The texts that name a kind: `block:` or `item:` and a 16-bit numeral, or `tool:`, a tool
type, a colon and a material. -/
theorem ofKey?_eq_some_iff {s : String} {k : ItemKind} :
    ofKey? s = some k ↔
      (∃ d v, s = "block:" ++ d ∧ Decimal.Numeral d v.toNat ∧ k = .block v) ∨
      (∃ d v, s = "item:" ++ d ∧ Decimal.Numeral d v.toNat ∧ k = .item v) ∨
      (∃ t m, s = "tool:" ++ t.key ++ ":" ++ m.key ∧ k = .tool t m) := by
  rw [ofKey?_eq]
  constructor
  · intro h
    have hs := toList_of_parts (s := s) rfl
    unfold ofParts? at h
    split at h
    · next n hparts =>
      obtain ⟨v, hv, rfl⟩ := Option.map_eq_some_iff.mp h
      rw [hparts] at hs
      exact .inl ⟨n, v, String.ext (by simp [hs]), Decimal.readU16?_eq_some_iff.mp hv, rfl⟩
    · next n hparts =>
      obtain ⟨v, hv, rfl⟩ := Option.map_eq_some_iff.mp h
      rw [hparts] at hs
      exact .inr (.inl ⟨n, v, String.ext (by simp [hs]), Decimal.readU16?_eq_some_iff.mp hv, rfl⟩)
    · next a b hparts =>
      simp only [bind, Option.bind_eq_some_iff, pure, Option.some.injEq] at h
      obtain ⟨t, ht, m, hm, rfl⟩ := h
      rw [hparts] at hs
      refine .inr (.inr ⟨t, m, String.ext ?_, rfl⟩)
      rw [Tool.ofKey?_eq_some_iff.mp ht, Material.ofKey?_eq_some_iff.mp hm] at hs
      simp [hs]
    · cases h
  · rintro (⟨d, v, rfl, hnum, rfl⟩ | ⟨d, v, rfl, hnum, rfl⟩ | ⟨t, m, rfl, rfl⟩)
    · rw [@parts_of_toList _ ["block", d] (by simp) ?_ (by simp)]
      · simp [ofParts?, Decimal.readU16?_eq_some_iff.mpr hnum]
      · simpa using hnum.colon_not_mem
    · rw [@parts_of_toList _ ["item", d] (by simp) ?_ (by simp)]
      · simp [ofParts?, Decimal.readU16?_eq_some_iff.mpr hnum]
      · simpa using hnum.colon_not_mem
    · rw [← ofKey?_eq]
      exact ofKey?_key (.tool t m)

/-- A sign and leading zeros are part of the numeral grammar. -/
example : ofKey? "block:+015" = some (.block 15) :=
  ofKey?_eq_some_iff.mpr
    (.inl ⟨"+015", 15, by decide, ⟨['0', '1', '5'], .inr (by decide), by simp, by simp, by decide⟩, rfl⟩)

end ItemKind

/-- Item keys follow their grammar. A text names a kind exactly when it is `block:` or `item:`
followed by a 16-bit numeral (an optional `+`, then one or more digits, leading zeros allowed),
or `tool:`, a tool type, a colon and a material. Every kind's key names it, so no two kinds
share a key, and the key of the kind a text names is a text naming the same kind. -/
theorem item_keys_follow_grammar :
    (∀ (s : String) (k : ItemKind), ItemKind.ofKey? s = some k ↔
      (∃ d v, s = "block:" ++ d ∧ Decimal.Numeral d v.toNat ∧ k = .block v) ∨
      (∃ d v, s = "item:" ++ d ∧ Decimal.Numeral d v.toNat ∧ k = .item v) ∨
      (∃ t m, s = "tool:" ++ t.key ++ ":" ++ m.key ∧ k = .tool t m)) ∧
    (∀ k : ItemKind, ItemKind.ofKey? k.key = some k) ∧
    Function.Injective ItemKind.key ∧
    (∀ (s : String) (k : ItemKind), ItemKind.ofKey? s = some k →
      ItemKind.ofKey? k.key = ItemKind.ofKey? s) := by
  refine ⟨fun s k => ItemKind.ofKey?_eq_some_iff, ItemKind.ofKey?_key, fun k k' h => ?_,
    fun s k h => ?_⟩
  · -- a key names exactly its kind, so equal keys name equal kinds
    have hk := ItemKind.ofKey?_key k
    rw [h, ItemKind.ofKey?_key] at hk
    exact (Option.some.inj hk).symm
  · rw [ItemKind.ofKey?_key, h]

end ItemFlow
