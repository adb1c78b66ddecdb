import ItemFlow.Proofs.Act
import ItemFlow.Save.Store
import ItemFlow.Proofs.Files.Tree
import ItemFlow.Proofs.Text.Split
/-! Save-file framing. A save file is a fourteen-byte header (the magic, the version, the
payload's CRC-32 and the payload's length, little-endian at fixed offsets) followed by the
payload. Reading a file succeeds exactly when each header field checks, the announced payload
is present, its checksum matches and it decodes; so every file that reads has all its header
fields right, and a saved file whose magic, version or checksum field is edited is refused
with the error of that field.

Main statement: a save followed by a load gives back the records, provided the binary form
and the frame decode back to what was encoded and the payload's length fits the header's
32-bit length field. The writer stores the length modulo `2 ^ 32`, so a payload of `2 ^ 32`
bytes or more is announced short and its file does not read back. -/
namespace ItemFlow

namespace Bytes

theorem byteAt_lt (b : ByteArray) (i : Nat) : byteAt b i < 256 := by
  unfold byteAt
  split
  · exact b[i].toNat_lt
  · omega

theorem byteAt_eq_getElem! (b : ByteArray) (i : Nat) : byteAt b i = b[i]!.toNat := by
  unfold byteAt
  split
  · next h => rw [getElem!_pos b i h]
  · next h => rw [getElem!_neg b i h]; rfl

theorem byteAt_push (b : ByteArray) (x : UInt8) (i : Nat) :
    byteAt (b.push x) i = if i = b.size then x.toNat else byteAt b i := by
  rw [byteAt_eq_getElem!, byteAt_eq_getElem!, ByteArray.getElem!_push]
  split <;> rfl

theorem byteAt_append_left {a c : ByteArray} {i : Nat} (h : i < a.size) :
    byteAt (a ++ c) i = byteAt a i := by
  have h' : i < (a ++ c).size := by rw [ByteArray.size_append]; omega
  simp only [byteAt, dif_pos h, dif_pos h', ByteArray.getElem_append_left h]

theorem byteAt_append_right (a c : ByteArray) (i : Nat) :
    byteAt (a ++ c) (a.size + i) = byteAt c i := by
  by_cases h : i < c.size
  · have h' : a.size + i < (a ++ c).size := by rw [ByteArray.size_append]; omega
    simp only [byteAt, dif_pos h, dif_pos h',
      ByteArray.getElem_append_right (Nat.le_add_right a.size i), Nat.add_sub_cancel_left]
  · have h' : ¬a.size + i < (a ++ c).size := by rw [ByteArray.size_append]; omega
    simp only [byteAt, dif_neg h, dif_neg h']

@[simp] theorem size_putLE (b : ByteArray) (v : Nat) : ∀ n, (putLE b v n).size = b.size + n
  | 0 => rfl
  | n + 1 => by
    rw [putLE, size_putLE _ _ n, ByteArray.size_push]
    omega

theorem byteAt_putLE_of_lt {b : ByteArray} {i : Nat} (h : i < b.size) :
    ∀ (v n : Nat), byteAt (putLE b v n) i = byteAt b i := by
  intro v n
  induction n generalizing b v with
  | zero => rfl
  | succ n ih =>
    rw [putLE, ih (by rw [ByteArray.size_push]; omega), byteAt_push, if_neg (by omega)]

theorem readLE_congr {b b' : ByteArray} :
    ∀ {pos n : Nat}, (∀ k < n, byteAt b (pos + k) = byteAt b' (pos + k)) →
      readLE b pos n = readLE b' pos n
  | _, 0, _ => rfl
  | pos, n + 1, h => by
    have hnext : ∀ k < n, byteAt b (pos + 1 + k) = byteAt b' (pos + 1 + k) := by
      intro k hk
      rw [Nat.add_assoc, Nat.add_comm 1 k]
      exact h (k + 1) (by omega)
    have hfirst := h 0 (by omega)
    rw [Nat.add_zero] at hfirst
    rw [readLE, readLE, hfirst, readLE_congr hnext]

theorem readLE_eq_readLE_iff {b b' : ByteArray} :
    ∀ {pos n : Nat}, readLE b pos n = readLE b' pos n ↔
      ∀ k < n, byteAt b (pos + k) = byteAt b' (pos + k)
  | _, 0 => by simp [readLE]
  | pos, n + 1 => by
    refine ⟨fun h k hk => ?_, readLE_congr⟩
    have hb := byteAt_lt b pos
    have hb' := byteAt_lt b' pos
    rw [readLE, readLE] at h
    -- the first byte is the value modulo 256 and the rest its quotient
    cases k with
    | zero =>
      rw [Nat.add_zero]
      omega
    | succ k =>
      have hrest : readLE b (pos + 1) n = readLE b' (pos + 1) n := by omega
      have := readLE_eq_readLE_iff.mp hrest k (by omega)
      rwa [Nat.add_assoc, Nat.add_comm 1 k] at this

theorem readLE_putLE_of_le {b : ByteArray} {pos k : Nat} (h : pos + k ≤ b.size) (v n : Nat) :
    readLE (putLE b v n) pos k = readLE b pos k :=
  readLE_congr fun j hj => byteAt_putLE_of_lt (by omega) v n

theorem readLE_putLE_size (b : ByteArray) (v n : Nat) :
    readLE (putLE b v n) b.size n = v % 256 ^ n := by
  induction n generalizing b v with
  | zero => simp [readLE, Nat.mod_one]
  | succ n ih =>
    have hfirst : byteAt (putLE (b.push (v % 256).toUInt8) (v / 256) n) b.size = v % 256 := by
      rw [byteAt_putLE_of_lt (by rw [ByteArray.size_push]; omega), byteAt_push, if_pos rfl]
      simp
    have hrest := ih (b.push (v % 256).toUInt8) (v / 256)
    rw [ByteArray.size_push] at hrest
    rw [putLE, readLE, hfirst, hrest, Nat.pow_succ', Nat.mod_mul]

theorem readLE_append_left {a c : ByteArray} {pos n : Nat} (h : pos + n ≤ a.size) :
    readLE (a ++ c) pos n = readLE a pos n :=
  readLE_congr fun _ hk => byteAt_append_left (by omega)

theorem extract_congr {b b' : ByteArray} {lo hi : Nat} (hsize : b'.size = b.size)
    (h : ∀ i, lo ≤ i → i < hi → byteAt b' i = byteAt b i) : b'.extract lo hi = b.extract lo hi := by
  apply ByteArray.ext_getElem (by simp [hsize])
  intro i hi' hi''
  rw [ByteArray.getElem_extract, ByteArray.getElem_extract]
  have hlt : lo + i < b.size := ByteArray.getElem_extract_aux hi''
  have hlt' : lo + i < b'.size := ByteArray.getElem_extract_aux hi'
  have hhi : lo + i < hi := by
    simp only [ByteArray.size_extract] at hi''
    omega
  have := h (lo + i) (by omega) hhi
  simp only [byteAt, dif_pos hlt, dif_pos hlt'] at this
  exact UInt8.toNat_inj.mp this

/-- `b'` is `b` with at least one byte of the `n`-byte field at `pos` changed and every
other byte kept. -/
def EditedAt (b b' : ByteArray) (pos n : Nat) : Prop :=
  b'.size = b.size ∧ (∀ i, (i < pos ∨ pos + n ≤ i) → byteAt b' i = byteAt b i) ∧
    ∃ i, pos ≤ i ∧ i < pos + n ∧ byteAt b' i ≠ byteAt b i

namespace EditedAt

variable {b b' : ByteArray} {pos n : Nat}

theorem readLE_ne (h : EditedAt b b' pos n) : readLE b' pos n ≠ readLE b pos n := by
  obtain ⟨-, -, i, hlo, hhi, hne⟩ := h
  intro heq
  have := readLE_eq_readLE_iff.mp heq (i - pos) (by omega)
  rw [Nat.add_sub_cancel' hlo] at this
  exact hne this

theorem readLE_eq {q k : Nat} (h : EditedAt b b' pos n) (hout : q + k ≤ pos ∨ pos + n ≤ q) :
    readLE b' q k = readLE b q k :=
  readLE_congr fun _ _ => h.2.1 _ (by omega)

theorem extract_eq {lo hi : Nat} (h : EditedAt b b' pos n) (hout : pos + n ≤ lo) :
    b'.extract lo hi = b.extract lo hi :=
  extract_congr h.1 fun i hi _ => h.2.1 i (.inr (by omega))

end EditedAt

end Bytes

namespace SaveFile

open Bytes

/-- The header written before a payload with checksum `crc` and length `len`. -/
def header (crc len : Nat) : ByteArray :=
  putLE (putLE (putLE (putLE .empty magic 4) version 2) crc 4) len 4

theorem write_eq_header (frame : ByteArray → ByteArray) (rs : List Record) :
    write frame rs = header (Crc32.of (frame (Binary.encode rs))).toNat
      (frame (Binary.encode rs)).size ++ frame (Binary.encode rs) := rfl

@[simp] theorem size_header (crc len : Nat) : (header crc len).size = headerSize := by
  simp [header, headerSize]

theorem readLE_putLE_at {b : ByteArray} {pos : Nat} (h : pos = b.size) (v n : Nat) :
    readLE (putLE b v n) pos n = v % 256 ^ n := h ▸ readLE_putLE_size b v n

theorem readLE_header_magic (crc len : Nat) (p : ByteArray) :
    readLE (header crc len ++ p) 0 4 = magic := by
  rw [readLE_append_left (by simp [headerSize]), header, readLE_putLE_of_le (by simp),
    readLE_putLE_of_le (by simp), readLE_putLE_of_le (by simp), readLE_putLE_at (by simp)]
  rfl

theorem readLE_header_version (crc len : Nat) (p : ByteArray) :
    readLE (header crc len ++ p) 4 2 = version := by
  rw [readLE_append_left (by simp [headerSize]), header, readLE_putLE_of_le (by simp),
    readLE_putLE_of_le (by simp), readLE_putLE_at (by simp)]
  rfl

theorem readLE_header_crc (crc len : Nat) (p : ByteArray) :
    readLE (header crc len ++ p) 6 4 = crc % 2 ^ 32 := by
  rw [readLE_append_left (by simp [headerSize]), header, readLE_putLE_of_le (by simp),
    readLE_putLE_at (by simp)]
  rfl

/-- The length field holds the payload's length modulo `2 ^ 32`. -/
theorem readLE_header_len (crc len : Nat) (p : ByteArray) :
    readLE (header crc len ++ p) 10 4 = len % 2 ^ 32 := by
  rw [readLE_append_left (by simp [headerSize]), header, readLE_putLE_at (by simp)]
  rfl

/-- Reading succeeds exactly when every header field checks, the announced payload is present,
its CRC-32 is the stored one and it decodes to a record list. -/
theorem read_eq_ok_iff {b : ByteArray} {rs : List Record} :
    read b = .ok rs ↔
      headerSize ≤ b.size ∧ readLE b 0 4 = magic ∧ readLE b 4 2 = version ∧
      readLE b 10 4 ≤ b.size - headerSize ∧
      (Crc32.of (b.extract headerSize (headerSize + readLE b 10 4))).toNat = readLE b 6 4 ∧
      ∃ raw, Frame.decodeAll (b.extract headerSize (headerSize + readLE b 10 4)) = .ok raw ∧
        Binary.decode raw = some rs := by
  simp only [read, bind, Except.bind, throw, throwThe, MonadExceptOf.throw, pure, Except.pure]
  by_cases hs : b.size < headerSize
  · simp [hs]
  by_cases hm : readLE b 0 4 = magic
  swap
  · simp [hs, hm]
  by_cases hv : readLE b 4 2 = version
  swap
  · simp [hs, hm, hv]
  by_cases hl : b.size - headerSize < readLE b 10 4
  · simp [hs, hm, hv, hl]
  by_cases hc : (Crc32.of (b.extract headerSize (headerSize + readLE b 10 4))).toNat = readLE b 6 4
  swap
  · simp [hs, hm, hv, hl, hc]
  simp only [hs, hm, hv, hl, hc, if_false, not_true_eq_false, ne_eq]
  rw [Nat.not_lt] at hs hl
  simp only [hs, hl, true_and]
  rcases Frame.decodeAll (b.extract headerSize (headerSize + readLE b 10 4)) with e | raw
  · simp
  · cases hd : Binary.decode raw <;> simp [hd]

theorem header_append_fields {p : ByteArray} (hfit : p.size < 2 ^ 32) :
    readLE (header (Crc32.of p).toNat p.size ++ p) 10 4 = p.size ∧
      readLE (header (Crc32.of p).toNat p.size ++ p) 6 4 = (Crc32.of p).toNat ∧
      (header (Crc32.of p).toNat p.size ++ p).extract headerSize (headerSize + p.size) = p := by
  refine ⟨?_, ?_, ByteArray.extract_append_eq_right (by simp) (by simp)⟩
  · rw [readLE_header_len, Nat.mod_eq_of_lt hfit]
  · rw [readLE_header_crc, Nat.mod_eq_of_lt (Crc32.of p).toNat_lt]

theorem read_header_append {p : ByteArray} (hfit : p.size < 2 ^ 32) {rs : List Record} :
    read (header (Crc32.of p).toNat p.size ++ p) = .ok rs ↔
      ∃ raw, Frame.decodeAll p = .ok raw ∧ Binary.decode raw = some rs := by
  obtain ⟨hlen, hcrc, hpay⟩ := header_append_fields hfit
  rw [read_eq_ok_iff, hlen, hcrc, hpay, readLE_header_magic, readLE_header_version]
  simp [ByteArray.size_append]

/-- A saved record list reads back when its binary form and its frame decode back and its
payload's length fits the length field. -/
theorem read_write {frame : ByteArray → ByteArray} {rs : List Record}
    (hb : Binary.decode (Binary.encode rs) = some rs)
    (hz : Frame.decodeAll (frame (Binary.encode rs)) = .ok (Binary.encode rs))
    (hfit : (frame (Binary.encode rs)).size < 2 ^ 32) : read (write frame rs) = .ok rs := by
  rw [write_eq_header, read_header_append hfit]
  exact ⟨_, hz, hb⟩

section Edits

variable {b b' : ByteArray}

theorem read_of_edited_magic (hs : headerSize ≤ b.size) (hm : readLE b 0 4 = magic)
    (h : EditedAt b b' 0 4) : read b' = .error (.magic (readLE b' 0 4)) := by
  have hs' : ¬b'.size < headerSize := by rw [h.1]; omega
  have hm' : readLE b' 0 4 ≠ magic := hm ▸ h.readLE_ne
  simp [read, bind, Except.bind, throw, throwThe, MonadExceptOf.throw, hs', hm']

theorem read_of_edited_version (hs : headerSize ≤ b.size) (hm : readLE b 0 4 = magic)
    (hv : readLE b 4 2 = version) (h : EditedAt b b' 4 2) :
    read b' = .error (.version (readLE b' 4 2)) := by
  have hs' : ¬b'.size < headerSize := by rw [h.1]; omega
  have hm' : readLE b' 0 4 = magic := by rw [h.readLE_eq (.inl (by omega)), hm]
  have hv' : readLE b' 4 2 ≠ version := hv ▸ h.readLE_ne
  simp [read, bind, Except.bind, throw, throwThe, MonadExceptOf.throw, hs', hm', hv']

/-- A file whose header checks and whose payload has the stored checksum is refused for its
checksum once the checksum field is edited: the payload, and so its checksum, is unchanged. -/
theorem read_of_edited_checksum (hs : headerSize ≤ b.size) (hm : readLE b 0 4 = magic)
    (hv : readLE b 4 2 = version) (hl : readLE b 10 4 ≤ b.size - headerSize)
    (hc : (Crc32.of (b.extract headerSize (headerSize + readLE b 10 4))).toNat = readLE b 6 4)
    (h : EditedAt b b' 6 4) : read b' = .error (.checksum (readLE b' 6 4) (readLE b 6 4)) := by
  have hs' : ¬b'.size < headerSize := by rw [h.1]; omega
  have hm' : readLE b' 0 4 = magic := by rw [h.readLE_eq (.inl (by omega)), hm]
  have hv' : readLE b' 4 2 = version := by rw [h.readLE_eq (.inl (by omega)), hv]
  have hlen : readLE b' 10 4 = readLE b 10 4 := h.readLE_eq (.inr (by omega))
  have hl' : ¬b'.size - headerSize < readLE b' 10 4 := by rw [hlen, h.1]; omega
  have hpay : b'.extract headerSize (headerSize + readLE b' 10 4) =
      b.extract headerSize (headerSize + readLE b 10 4) := by
    rw [hlen]
    exact h.extract_eq (by simp [headerSize])
  have hne : readLE b 6 4 ≠ readLE b' 6 4 := fun heq => h.readLE_ne heq.symm
  simp [read, bind, Except.bind, throw, throwThe, MonadExceptOf.throw, hs', hm', hv', hl', hpay,
    hc, hne]

theorem read_of_write_edited_magic {frame : ByteArray → ByteArray} {rs : List Record}
    (h : EditedAt (write frame rs) b' 0 4) :
    read b' = .error (.magic (readLE b' 0 4)) := by
  rw [write_eq_header] at h
  exact read_of_edited_magic (by simp [ByteArray.size_append]) (readLE_header_magic _ _ _) h

theorem read_of_write_edited_version {frame : ByteArray → ByteArray} {rs : List Record}
    (h : EditedAt (write frame rs) b' 4 2) :
    read b' = .error (.version (readLE b' 4 2)) := by
  rw [write_eq_header] at h
  exact read_of_edited_version (by simp [ByteArray.size_append]) (readLE_header_magic _ _ _)
    (readLE_header_version _ _ _) h

theorem read_of_write_edited_checksum {frame : ByteArray → ByteArray} {rs : List Record}
    (hfit : (frame (Binary.encode rs)).size < 2 ^ 32) (h : EditedAt (write frame rs) b' 6 4) :
    read b' = .error (.checksum (readLE b' 6 4) (Crc32.of (frame (Binary.encode rs))).toNat) := by
  generalize hp : frame (Binary.encode rs) = p at hfit
  rw [write_eq_header, hp] at h
  obtain ⟨hlen, hcrc, hpay⟩ := header_append_fields hfit
  rw [← hcrc]
  refine read_of_edited_checksum (by simp [ByteArray.size_append]) (readLE_header_magic _ _ _)
    (readLE_header_version _ _ _) (by simp [hlen, ByteArray.size_append]) ?_ h
  rw [hlen, hpay, hcrc]

end Edits

end SaveFile

-- field values and records compare by evaluation, so a decoded record list can be checked
mutual
theorem Field.eq_of_beq : {a b : Field} → Field.beq a b = true → a = b
  | .byte _, b, h | .short _, b, h | .int _, b, h | .long _, b, h | .string _, b, h
  | .bytes _, b, h => by
    cases b <;> simp [Field.beq] at h
    rw [h]
  | .list _, b, h => by
    cases b <;> simp only [Field.beq, Bool.false_eq_true] at h
    rw [Field.eq_of_listBeq h]
  | .compound _, b, h => by
    cases b <;> simp only [Field.beq, Bool.false_eq_true] at h
    rw [Field.eq_of_entriesBeq h]

theorem Field.eq_of_listBeq : {a b : List Field} → Field.listBeq a b = true → a = b
  | [], [], _ => rfl
  | _ :: _, _ :: _, h => by
    rw [Field.listBeq, Bool.and_eq_true] at h
    rw [Field.eq_of_beq h.1, Field.eq_of_listBeq h.2]
  | [], _ :: _, h | _ :: _, [], h => by simp [Field.listBeq] at h

theorem Field.eq_of_entriesBeq :
    {a b : List (String × Field)} → Field.entriesBeq a b = true → a = b
  | [], [], _ => rfl
  | (_, _) :: _, (_, _) :: _, h => by
    rw [Field.entriesBeq, Bool.and_eq_true, Bool.and_eq_true, beq_iff_eq] at h
    rw [h.1.1, Field.eq_of_beq h.1.2, Field.eq_of_entriesBeq h.2]
  | [], _ :: _, h | _ :: _, [], h => by simp [Field.entriesBeq] at h
end

mutual
theorem Field.beq_self : (a : Field) → Field.beq a a = true
  | .byte _ | .short _ | .int _ | .long _ | .string _ | .bytes _ => by simp [Field.beq]
  | .list vs => by rw [Field.beq]; exact Field.listBeq_self vs
  | .compound m => by rw [Field.beq]; exact Field.entriesBeq_self m

theorem Field.listBeq_self : (vs : List Field) → Field.listBeq vs vs = true
  | [] => rfl
  | v :: vs => by rw [Field.listBeq, Field.beq_self v, Field.listBeq_self vs]; rfl

theorem Field.entriesBeq_self : (m : List (String × Field)) → Field.entriesBeq m m = true
  | [] => rfl
  | (_, v) :: m => by
    rw [Field.entriesBeq, beq_self_eq_true, Field.beq_self v, Field.entriesBeq_self m]
    rfl
end

instance : LawfulBEq Field where
  eq_of_beq := Field.eq_of_beq
  rfl := Field.beq_self _

instance : DecidableEq Field := fun a b => decidable_of_iff (a == b) beq_iff_eq

instance : LawfulBEq Record where
  eq_of_beq {a b} h := by
    obtain ⟨p, k, f⟩ := a
    obtain ⟨p', k', f'⟩ := b
    have h' : (p == p' && k == k' && f == f') = true := h
    simp only [Bool.and_eq_true, beq_iff_eq] at h'
    obtain ⟨⟨rfl, rfl⟩, rfl⟩ := h'
    rfl
  rfl {a} := by
    show (a.pos == a.pos && a.kind == a.kind && a.fields == a.fields) = true
    simp

instance : DecidableEq Record := fun a b => decidable_of_iff (a == b) beq_iff_eq

namespace SaveStore

theorem run_save_eq_ok_iff {s : SaveStore} {name : String} {rs : List Record} {t t' : FileTree} :
    (s.save name rs : OnTree _).run t = (.ok (), t') ↔
      t.writeAt (s.pathOf name) (SaveFile.write s.frame rs) = .ok t' := by
  show ((FileSystem.writeFile (s.pathOf name) (SaveFile.write s.frame rs) : OnTree _) >>=
    fun x => pure (Failure.explain "Failed to create save file" x)).run t = _ ↔ _
  rw [StateT.run_bind, run_writeFile_onTree]
  cases t.writeAt (s.pathOf name) (SaveFile.write s.frame rs) with
  | ok t₁ => exact ⟨fun h => by cases h; rfl, fun h => by cases h; rfl⟩
  | error e => exact iff_of_false (fun h => by cases h) (fun h => by cases h)

theorem load_of_readAt {s : SaveStore} {name : String} {t : FileTree} {b : ByteArray}
    (h : t.readAt (s.pathOf name) = .ok b) :
    (s.load name : OnTree _).run' t = match SaveFile.read b with
      | .ok rs => .ok rs
      | .error e => .error (.root e.message) := by
  simp [load, FileSystem.readFile, h]
  cases SaveFile.read b <;> rfl

theorem load_eq_ok_iff {s : SaveStore} {name : String} {t : FileTree} {b : ByteArray}
    {rs : List Record} (h : t.readAt (s.pathOf name) = .ok b) :
    (s.load name : OnTree _).run' t = .ok rs ↔ SaveFile.read b = .ok rs := by
  rw [load_of_readAt h]
  cases SaveFile.read b with
  | error e => simp
  | ok rs' => exact ⟨fun h => by cases h; rfl, fun h => by cases h; rfl⟩

theorem load_of_read_error {s : SaveStore} {name : String} {t : FileTree} {b : ByteArray}
    {e : SaveFile.LoadError} (h : t.readAt (s.pathOf name) = .ok b) (he : SaveFile.read b = .error e) :
    (s.load name : OnTree _).run' t = .error (.root e.message) := by
  rw [load_of_readAt h, he]

end SaveStore

open Bytes SaveFile in
/-- Save files frame their records. Whatever frame the store wraps payloads in, a save followed
by a load of the same name gives back the records, provided the binary form and the frame decode
back to what was encoded and the payload's length fits the 32-bit length field (the writer stores
the length modulo `2 ^ 32`).
A file that loads has at least a header's bytes, the magic and version 1 at their offsets, at
least the announced number of payload bytes after the header, and exactly those bytes have the
stored CRC-32. Editing the magic or version field of a saved file, or the checksum field of
one whose length fits, makes its load fail with the error of that field. -/
theorem saved_files_load_back_and_refuse_edits (s : SaveStore) (name : String) :
    (∀ (rs : List Record) (t t' : FileTree),
      Binary.decode (Binary.encode rs) = some rs →
      Frame.decodeAll (s.frame (Binary.encode rs)) = .ok (Binary.encode rs) →
      (s.frame (Binary.encode rs)).size < 2 ^ 32 →
      (s.save name rs : OnTree _).run t = (.ok (), t') →
      (s.load name : OnTree _).run' t' = .ok rs) ∧
    (∀ (t : FileTree) (b : ByteArray) (rs : List Record),
      t.readAt (s.pathOf name) = .ok b → (s.load name : OnTree _).run' t = .ok rs →
      headerSize ≤ b.size ∧ readLE b 0 4 = magic ∧ readLE b 4 2 = version ∧
      readLE b 10 4 ≤ b.size - headerSize ∧
      (Crc32.of (b.extract headerSize (headerSize + readLE b 10 4))).toNat = readLE b 6 4) ∧
    (∀ (rs : List Record) (t : FileTree) (b' : ByteArray),
      t.readAt (s.pathOf name) = .ok b' →
      (EditedAt (write s.frame rs) b' 0 4 →
        (s.load name : OnTree _).run' t = .error (.root (LoadError.magic (readLE b' 0 4)).message)) ∧
      (EditedAt (write s.frame rs) b' 4 2 →
        (s.load name : OnTree _).run' t = .error (.root (LoadError.version (readLE b' 4 2)).message)) ∧
      ((s.frame (Binary.encode rs)).size < 2 ^ 32 → EditedAt (write s.frame rs) b' 6 4 →
        (s.load name : OnTree _).run' t = .error (.root (LoadError.checksum (readLE b' 6 4)
          (Crc32.of (s.frame (Binary.encode rs))).toNat).message))) := by
  refine ⟨fun rs t t' hb hz hfit hsave => ?_, fun t b rs hfile hload => ?_,
    fun rs t b' hfile => ⟨fun h => ?_, fun h => ?_, fun hfit h => ?_⟩⟩
  · have hfile := FileTree.readAt_writeAt (SaveStore.run_save_eq_ok_iff.mp hsave)
    exact (SaveStore.load_eq_ok_iff hfile).mpr (read_write hb hz hfit)
  · obtain ⟨hs, hm, hv, hl, hc, -⟩ := read_eq_ok_iff.mp ((SaveStore.load_eq_ok_iff hfile).mp hload)
    exact ⟨hs, hm, hv, hl, hc⟩
  · exact SaveStore.load_of_read_error hfile (read_of_write_edited_magic h)
  · exact SaveStore.load_of_read_error hfile (read_of_write_edited_version h)
  · exact SaveStore.load_of_read_error hfile (read_of_write_edited_checksum hfit h)

/-- A chest record with its fields in name order, saved as `one` in a store over `saves` whose
directory is there, loads back. -/
theorem chest_record_saves_and_loads_back :
    let s : SaveStore := ⟨"saves", Frame.encodeRaw⟩
    let rs : List Record :=
      [⟨⟨0, 64, 0⟩, .chest, [("CustomName", .string "box"), ("id", .string "Chest")]⟩]
    let t : FileTree := ⟨[(["saves"], .dir)]⟩
    Binary.decode (Binary.encode rs) = some rs ∧
      Frame.decodeAll (s.frame (Binary.encode rs)) = .ok (Binary.encode rs) ∧
      (s.frame (Binary.encode rs)).size < 2 ^ 32 ∧
      ∃ t', (s.save "one" rs : OnTree _).run t = (.ok (), t') ∧
        (s.load "one" : OnTree _).run' t' = .ok rs := by
  intro s rs t
  have hb : Binary.decode (Binary.encode rs) = some rs := by decide +kernel
  have hz : Frame.decodeAll (s.frame (Binary.encode rs)) = .ok (Binary.encode rs) :=
    Except.ok_of_toOption (by decide +kernel)
  have hfit : (s.frame (Binary.encode rs)).size < 2 ^ 32 := by decide +kernel
  -- the file's path splits into the store's directory, which is there, and the file's name
  have hcs : Path.components (s.pathOf "one") = ["saves", "one.hlbe"] := by
    rw [show s.pathOf "one" = "saves/one.hlbe" by decide +kernel, Path.components,
      show "/" = String.singleton '/' from rfl, Text.splitOn_singleton _ rfl]
    decide +kernel
  have hw : t.writeAt (s.pathOf "one") (SaveFile.write s.frame rs) = .ok _ :=
    FileTree.writeAt_eq_ok_iff.mpr ⟨by decide +kernel, FileTree.writeFile_eq_ok_iff.mpr
      ⟨by rw [hcs]; simp, by rw [hcs]; rfl, by rw [hcs]; rfl, rfl⟩⟩
  have hsave := SaveStore.run_save_eq_ok_iff.mpr hw
  exact ⟨hb, hz, hfit, _, hsave,
    (saved_files_load_back_and_refuse_edits s "one").1 rs t _ hb hz hfit hsave⟩

end ItemFlow
