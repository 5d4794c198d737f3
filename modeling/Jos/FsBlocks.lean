import Jos.FsLayout

/-!
The changes the functions of `fs.c` make to the blocks of one file, one at a time: a free block
becomes its indirect block or one of its blocks of data, a block is given back, the size is set.
Each keeps ownership exclusive.
-/

namespace Jos.Fs

open ByteMem

variable {m m' : Bytes} {f b c i k x : ℕ} {v : BitVec 32}

lemma nblocks_lt (m : Bytes) : nblocks m < 2 ^ 32 := BitVec.isLt _

lemma bitmapAddr_le_bitWord (b : ℕ) : bitmapAddr ≤ bitWord b := Nat.le_add_right _ _

lemma bitWord_add_le (hb : b < nblocks m) : bitWord b + 4 ≤ blockAddr (firstData m) := by
  simp only [bitWord, bitmapAddr, blockAddr, firstData, blkSize]
  omega

lemma nblocks_set_bitWord (m : Bytes) (b : ℕ) (v : BitVec 32) : nblocks (set32 m (bitWord b) v) = nblocks m := by
  refine congrArg BitVec.toNat (get32_set32_of_out (.inl ?_))
  simp only [bitWord, superAddr, bitmapAddr, blockAddr, blkSize]
  omega

lemma tstbit_set_bitWord (m : Bytes) (b c : ℕ) (v : BitVec 32) : tstbit (set32 m (bitWord b) v) c ↔
      if c / 32 = b / 32 then v.getLsbD (c % 32) = true else tstbit m c := by
  unfold tstbit
  split
  · rename_i h
    have : bitWord c = bitWord b := by rw [bitWord, bitWord, h]
    rw [this, get32_set32, and_bit_ne_zero (by omega)]
  · rw [get32_set32_of_out (by unfold bitWord; omega)]

lemma tstbit_clrbit (m : Bytes) (b c : ℕ) : tstbit (clrbit m b) c ↔ tstbit m c ∧ c ≠ b := by
  rw [clrbit, tstbit_set_bitWord]
  split
  · rename_i h
    rw [getLsbD_and_not_bit (by omega), tstbit, and_bit_ne_zero (by omega), bitWord, bitWord, h,
      Bool.and_eq_true, Bool.not_eq_true', decide_eq_false_iff_not]
    refine and_congr_right fun _ => not_congr ⟨fun h' => by omega, fun h' => by rw [h']⟩
  · rename_i h
    exact ⟨fun hc => ⟨hc, fun hcb => h (by rw [hcb])⟩, And.left⟩

lemma tstbit_setbit (m : Bytes) (b c : ℕ) : tstbit (setbit m b) c ↔ tstbit m c ∨ c = b := by
  rw [setbit, tstbit_set_bitWord]
  split
  · rename_i h
    rw [getLsbD_or_bit (by omega), tstbit, and_bit_ne_zero (by omega), bitWord, bitWord, h,
      Bool.or_eq_true, decide_eq_true_eq]
    refine or_congr_right ⟨fun h' => by omega, fun h' => by rw [h']⟩
  · rename_i h
    refine ⟨.inl, ?_⟩
    rintro (hc | hcb)
    · exact hc
    · exact absurd (by rw [hcb]) h

lemma blockIsFree_clrbit (m : Bytes) (b c : ℕ) : blockIsFree (clrbit m b) c ↔ blockIsFree m c ∧ c ≠ b := by
  rw [blockIsFree, tstbit_clrbit, clrbit, nblocks_set_bitWord, blockIsFree, and_assoc]

lemma blockIsFree_setbit (m : Bytes) (b c : ℕ) :
    blockIsFree (setbit m b) c ↔ blockIsFree m c ∨ (c = b ∧ c < nblocks m) := by
  rw [blockIsFree, tstbit_setbit, setbit, nblocks_set_bitWord, blockIsFree]
  tauto

lemma blockIsFree_congr (h : nblocks m' = nblocks m)
    (hs : ∀ x, bitmapAddr ≤ x → x < blockAddr (firstData m) → m' x = m x) (b : ℕ) :
    blockIsFree m' b ↔ blockIsFree m b := by
  unfold blockIsFree tstbit
  rw [h]
  refine and_congr_right fun hb => ?_
  have := bitmapAddr_le_bitWord b
  have := bitWord_add_le hb
  rw [Same.get32 fun x h1 h2 => hs x (by omega) (by omega)]

lemma allocBlock_cases (m : Bytes) : (∃ b, blockIsFree m b ∧ allocBlock m = (clrbit m b, b)) ∨
      ((∀ b, ¬ blockIsFree m b) ∧ allocBlock m = (m, 0)) := by
  unfold allocBlock
  split
  · rename_i b hb
    exact .inl ⟨b, by simpa using List.find?_some hb, rfl⟩
  · rename_i h
    refine .inr ⟨fun b hb => ?_, rfl⟩
    have := List.find?_eq_none.mp h b (List.mem_range.mpr hb.1)
    simp [hb] at this

/-- The address of the block number of slot `i`. -/
def slotAddr (m : Bytes) (f i : ℕ) : ℕ :=
  if i < nDirect then directField f i else blockAddr (fIndirect m f) + 4 * (i - nDirect)

def HasSlot (m : Bytes) (f i : ℕ) : Prop :=
  i < nDirect ∨ (i < nDirect + nIndirect ∧ fIndirect m f ≠ 0)

lemma blockOf_eq (h : HasSlot m f i) : blockOf m f i = (get32 m (slotAddr m f i)).toNat := by
  unfold blockOf slotAddr
  rcases h with h | h
  · rw [if_pos h, if_pos h]
  · by_cases hi : i < nDirect
    · rw [if_pos hi, if_pos hi]
    · rw [if_neg hi, if_pos h, if_neg hi]

lemma blockOf_of_not (h : ¬ HasSlot m f i) : blockOf m f i = 0 := by
  unfold blockOf
  rw [if_neg fun h' => h (.inl h'), if_neg fun h' => h (.inr h')]

lemma hasSlot_of_ne (h : blockOf m f i ≠ 0) : HasSlot m f i := by
  by_contra hs
  exact h (blockOf_of_not hs)

lemma Exclusive.record (hm : Exclusive m) (hf : Reachable m f) :
    ∃ h, Home m h f ∧ blockAddr h ≤ f ∧ f + 256 ≤ blockAddr (h + 1) ∧ (h = 1 ∨ firstData m ≤ h) ∧
      h ≠ fIndirect m f := by
  obtain ⟨h, hh⟩ := hf.home
  have h1 := hh.inBlock le_rfl (by simp [sizeofFile])
  have h2 := hh.inBlock (x := f + 255) (by omega) (by simp [sizeofFile])
  refine ⟨h, hh, h1.1, by have := h2.2; omega, ?_, ?_⟩
  · rcases hm.home_cases hh with ⟨hb, -⟩ | ⟨hb, -⟩
    · exact .inl hb
    · exact .inr hb
  · intro heq
    obtain ⟨-, i, hi⟩ := hm.home_owner hh hf (s := .indirect) heq.symm
    cases hi

def Words (m : Bytes) (f a : ℕ) : Prop :=
  a = f + 128 ∨ (f + 136 ≤ a ∧ a + 4 ≤ f + 180) ∨
    (fIndirect m f ≠ 0 ∧ blockAddr (fIndirect m f) ≤ a ∧ a + 4 ≤ blockAddr (fIndirect m f + 1))

lemma words_sizeField (m : Bytes) (f : ℕ) : Words m f (sizeField f) := .inl rfl

lemma words_indirectField (m : Bytes) (f : ℕ) : Words m f (indirectField f) := by
  refine .inr (.inl ?_)
  simp only [indirectField]
  omega

lemma words_slotAddr (h : HasSlot m f i) : Words m f (slotAddr m f i) := by
  unfold slotAddr
  split
  · rename_i hi
    refine .inr (.inl ?_)
    simp only [directField, nDirect] at hi ⊢
    omega
  · rename_i hi
    have h' := h.resolve_left hi
    refine .inr (.inr ⟨h'.2, Nat.le_add_right _ _, ?_⟩)
    simp only [nDirect, nIndirect, blockAddr, blkSize] at h' ⊢
    omega

lemma Words.zone {a : ℕ} (ha : Words m f a) (h : a ≤ x) (h' : x < a + 4) : Zone m f x := by
  rcases ha with ha | ha | ⟨hne, ha⟩
  · exact .field (.inl (by omega))
  · exact .field (.inr (by omega))
  · exact .indirect ⟨by omega, by omega⟩ hne

def Plain (m : Bytes) (f c : ℕ) : Prop :=
  blockIsFree m c ∨ (¬ IsDir m f ∧ ∃ i, blockOf m f i ≠ 0 ∧ blockOf m f i = c)

section Words

variable {a : ℕ} (hm : Exclusive m) (hf : Reachable m f)

include hm hf

lemma Exclusive.words_out (ha : Words m f a) : a + 4 ≤ bitmapAddr ∨ blockAddr (firstData m) ≤ a := by
  obtain ⟨h, -, h1, h2, h3, -⟩ := hm.record hf
  rcases ha with ha | ha | ⟨hne, ha⟩
  · rcases h3 with rfl | h3 <;>
      simp only [bitmapAddr, blockAddr, diskMap, blkSize] at h1 h2 ⊢ <;> omega
  · rcases h3 with rfl | h3 <;>
      simp only [bitmapAddr, blockAddr, diskMap, blkSize] at h1 h2 ⊢ <;> omega
  · have := hm.firstData_le hf (s := .indirect) hne
    simp only [owned_indirect, blockAddr, diskMap, blkSize] at this ha ⊢
    omega

lemma Exclusive.get32_set_bitWord (ha : Words m f a) (hb : b < nblocks m) :
    get32 (set32 m (bitWord b) v) a = get32 m a := by
  have h1 := hm.words_out hf ha
  have h2 := bitmapAddr_le_bitWord b
  have h3 := bitWord_add_le hb
  exact get32_set32_of_out

lemma Exclusive.words_not_inBlock (ha : Words m f a) (hb : Plain m f b) :
    a + 4 ≤ blockAddr b ∨ blockAddr (b + 1) ≤ a := by
  obtain ⟨h, hh, h1, h2, h3, h4⟩ := hm.record hf
  have hne : b ≠ h := by
    rintro rfl
    rcases hb with hb | ⟨hd, i, hi, hbi⟩
    · exact hm.home_not_free hh hb
    · exact hd (hm.home_owner hh hf (s := .data i) hbi).1
  have hne' : fIndirect m f ≠ 0 → b ≠ fIndirect m f := by
    rintro hind rfl
    rcases hb with hb | ⟨hd, i, hi, hbi⟩
    · exact hm.owned_ne_of_free hf hb .indirect rfl
    · exact absurd (hm.single f f hf hf (.data i) .indirect hi hbi).2 (by simp)
  rcases ha with ha | ha | ⟨hind, ha⟩
  · simp only [blockAddr, diskMap, blkSize] at h1 h2 ⊢
    omega
  · simp only [blockAddr, diskMap, blkSize] at h1 h2 ⊢
    omega
  · have := hne' hind
    simp only [blockAddr, diskMap, blkSize] at ha ⊢
    omega

lemma Exclusive.slotAddr_indirect (h : HasSlot m f i) (hi : ¬ i < nDirect) :
    slotAddr m f i + 4 ≤ f ∨ f + 256 ≤ slotAddr m f i := by
  obtain ⟨c, -, h1, h2, h3, h4⟩ := hm.record hf
  have h' := h.resolve_left hi
  rw [slotAddr, if_neg hi]
  simp only [nDirect, nIndirect, blockAddr, diskMap, blkSize] at h' h1 h2 ⊢
  omega

omit hm hf in
lemma slotAddr_direct (hi : i < nDirect) : f + 136 ≤ slotAddr m f i ∧ slotAddr m f i + 4 ≤ f + 176 := by
  rw [slotAddr, if_pos hi]
  simp only [directField, nDirect] at hi ⊢
  omega

lemma Exclusive.slotAddr_out (h : HasSlot m f i) : (f + 136 ≤ slotAddr m f i ∧ slotAddr m f i + 4 ≤ f + 176) ∨
      slotAddr m f i + 4 ≤ f ∨ f + 256 ≤ slotAddr m f i := by
  by_cases hi : i < nDirect
  · exact .inl (slotAddr_direct hi)
  · exact .inr (hm.slotAddr_indirect hf h hi)

lemma Exclusive.slotAddr_ne (hi : HasSlot m f i) (hk : HasSlot m f k) (hne : i ≠ k) :
    slotAddr m f i + 4 ≤ slotAddr m f k ∨ slotAddr m f k + 4 ≤ slotAddr m f i := by
  by_cases hid : i < nDirect <;> by_cases hkd : k < nDirect
  · rw [slotAddr, slotAddr, if_pos hid, if_pos hkd]
    simp only [directField]
    omega
  · have h1 := slotAddr_direct (m := m) (f := f) hid
    have h2 := hm.slotAddr_indirect hf hk hkd
    omega
  · have h1 := slotAddr_direct (m := m) (f := f) hkd
    have h2 := hm.slotAddr_indirect hf hi hid
    omega
  · rw [slotAddr, slotAddr, if_neg hid, if_neg hkd]
    omega

variable {w : BitVec 32} (hb : b < nblocks m)

include hb

omit hm hf in
lemma edit_touch (ha : Words m f a) : Touch f m (set32 (set32 m (bitWord b) v) a w) := by
  intro x _ _ hz
  have h1 := bitmapAddr_le_bitWord b
  have h2 := bitWord_add_le hb
  rw [set32_of_out, set32_of_out]
  · by_contra h
    exact hz (.bitmap (by omega) (by omega))
  · by_contra h
    exact hz (ha.zone (by omega) (by omega))

lemma edit_get32 {a' : ℕ} (ha' : Words m f a') (h : a' + 4 ≤ a ∨ a + 4 ≤ a') :
    get32 (set32 (set32 m (bitWord b) v) a w) a' = get32 m a' := by
  rw [get32_set32_of_out h, hm.get32_set_bitWord hf ha' hb]

lemma edit_blockIsFree (ha : Words m f a) (c : ℕ) :
    blockIsFree (set32 (set32 m (bitWord b) v) a w) c ↔ blockIsFree (set32 m (bitWord b) v) c := by
  have h1 := hm.words_out hf ha
  have h2 := (edit_touch (v := v) (w := w) hb ha).nblocks hm hf
  have h3 := nblocks_set_bitWord m b v
  refine blockIsFree_congr (h2.trans h3.symm) (fun x hx hx' => set32_of_out ?_) c
  rw [firstData, h3, ← firstData] at hx'
  omega

omit hb in
lemma Exclusive.firstData_le_of_plain (hc : Plain m f c) : firstData m ≤ c := by
  rcases hc with hc | ⟨-, i, hi, rfl⟩
  · exact hm.firstData_le_of_free hc
  · exact hm.firstData_le hf (s := .data i) hi

lemma edit_byte (ha : Words m f a) (hc : Plain m f c) (hx : InBlock c x) :
    set32 (set32 m (bitWord b) v) a w x = m x := by
  have h1 := hm.words_not_inBlock hf ha hc
  have h2 := bitWord_add_le hb
  have h3 := hm.firstData_le_of_plain hf hc
  rw [set32_of_out, set32_of_out]
  · simp only [InBlock, blockAddr, diskMap, blkSize] at hx h2
    omega
  · unfold InBlock at hx
    omega

end Words

section Slots

variable {w : BitVec 32} (hm : Exclusive m) (hf : Reachable m f)

include hm hf

lemma edit_slot (hb : b < nblocks m) (hi : HasSlot m f i)
    (he : m' = set32 (set32 m (bitWord b) v) (slotAddr m f i) w) :
    fSize m' f = fSize m f ∧ fIndirect m' f = fIndirect m f ∧
      ∀ k, blockOf m' f k = if k = i then w.toNat else blockOf m f k := by
  have hout := hm.slotAddr_out hf hi
  have hsize : get32 m' (sizeField f) = get32 m (sizeField f) :=
    he ▸ edit_get32 hm hf hb (words_sizeField m f) (by unfold sizeField; omega)
  have hind : get32 m' (indirectField f) = get32 m (indirectField f) :=
    he ▸ edit_get32 hm hf hb (words_indirectField m f) (by unfold indirectField; omega)
  have hind' : fIndirect m' f = fIndirect m f := congrArg BitVec.toNat hind
  refine ⟨congrArg BitVec.toInt hsize, hind', fun k => ?_⟩
  have hslot : HasSlot m' f k ↔ HasSlot m f k := by rw [HasSlot, HasSlot, hind']
  have haddr : slotAddr m' f k = slotAddr m f k := by rw [slotAddr, slotAddr, hind']
  by_cases hk : HasSlot m f k
  · rw [blockOf_eq (hslot.mpr hk), haddr]
    split
    · rename_i hki
      rw [hki, he, get32_set32]
    · rename_i hki
      rw [he, edit_get32 hm hf hb (words_slotAddr hk) (hm.slotAddr_ne hf hk hi hki), blockOf_eq hk]
  · rw [blockOf_of_not (mt hslot.mp hk), if_neg fun (hki : k = i) => hk (hki ▸ hi), blockOf_of_not hk]

lemma edit_indirect (hb : b < nblocks m) (he : m' = set32 (set32 m (bitWord b) v) (indirectField f) w) :
    fSize m' f = fSize m f ∧ fIndirect m' f = w.toNat ∧ ∀ k < nDirect, blockOf m' f k = blockOf m f k := by
  refine ⟨?_, ?_, fun k hk => ?_⟩
  · rw [he]
    exact congrArg BitVec.toInt (edit_get32 hm hf hb (words_sizeField m f)
      (by simp only [sizeField, indirectField]; omega))
  · rw [he]
    exact congrArg BitVec.toNat (get32_set32 _ _ _)
  · rw [blockOf, blockOf, if_pos hk, if_pos hk, he]
    refine congrArg BitVec.toNat (edit_get32 hm hf hb ?_ ?_) <;>
      simp only [Words, directField, indirectField, nDirect] at hk ⊢ <;> omega

end Slots

theorem Exclusive.attached (hm : Exclusive m) (hf : Reachable m f) (hb : blockIsFree m b)
    (ht : Touch f m m') (hc : CellsFrom f m m') {s : Slot}
    (hown : ∀ t, owned m' f t = if t = s then b else owned m f t)
    (hfree : ∀ c, blockIsFree m' c ↔ blockIsFree m c ∧ c ≠ b) : Exclusive m' := by
  refine hm.touch hf ht hc ?_ ?_ fun c h => .inl ((hfree c).mp h).1
  · intro t ht'
    rw [hown t] at ht' ⊢
    rw [hfree]
    split
    · exact ⟨fun h => h.2 rfl, .inr hb⟩
    · rename_i hne
      rw [if_neg hne] at ht'
      exact ⟨fun h => hm.not_free hf ht' h.1, .inl rfl⟩
  · intro t u ht' heq
    rw [hown t] at ht' heq
    rw [hown u] at heq
    split at heq <;> split at heq
    · rename_i h1 h2
      rw [h1, h2]
    · exact absurd heq.symm (hm.owned_ne_of_free hf hb u)
    · exact absurd heq (hm.owned_ne_of_free hf hb t)
    · rename_i h1 h2
      rw [if_neg h1] at ht'
      exact (hm.single f f hf hf t u ht' heq).2

/-- The file gives up the block of slot `s`, and no other slot of it gets one. -/
theorem Exclusive.released (hm : Exclusive m) (hf : Reachable m f) (ht : Touch f m m')
    (hc : CellsFrom f m m') {s : Slot} (hs : owned m f s ≠ 0) (h0 : owned m' f s = 0)
    (hown : ∀ t, owned m' f t = 0 ∨ owned m' f t = owned m f t)
    (hfree : ∀ c, blockIsFree m' c ↔ blockIsFree m c ∨ c = owned m f s) : Exclusive m' := by
  refine hm.touch hf ht hc ?_ ?_ ?_
  · intro t ht'
    have h := (hown t).resolve_left ht'
    rw [h] at ht' ⊢
    refine ⟨fun hfr => ?_, .inl rfl⟩
    rcases (hfree _).mp hfr with hfr | heq
    · exact hm.not_free hf ht' hfr
    · obtain ⟨-, rfl⟩ := hm.single f f hf hf t s ht' heq
      exact ht' (h ▸ h0)
  · intro t u ht' heq
    have h := (hown t).resolve_left ht'
    have h' := (hown u).resolve_left (heq ▸ ht')
    exact (hm.single f f hf hf t u (h ▸ ht') (h ▸ h' ▸ heq)).2
  · intro c hfr
    rcases (hfree c).mp hfr with h | h
    · exact .inl h
    · exact .inr ⟨s, hs, h.symm⟩

def attach (f i b : ℕ) (m : Bytes) : Bytes :=
  set32 (clrbit m b) (slotAddr m f i) (BitVec.ofNat 32 b)

def Zeroed (m : Bytes) (b : ℕ) : Prop := ∀ x, InBlock b x → m x = 0

lemma toNat_ofNat_block (hb : b < nblocks m) : (BitVec.ofNat 32 b).toNat = b := by
  exact Nat.mod_eq_of_lt (lt_trans hb (nblocks_lt m))

section Attach

variable (hm : Exclusive m) (hf : Reachable m f) (hi : HasSlot m f i) (hb : blockIsFree m b)

include hi hb in
lemma attach_touch : Touch f m (attach f i b m) := edit_touch hb.1 (words_slotAddr hi)

include hm hf hi hb

lemma attach_view : fSize (attach f i b m) f = fSize m f ∧ fIndirect (attach f i b m) f = fIndirect m f ∧
    ∀ k, blockOf (attach f i b m) f k = if k = i then b else blockOf m f k := by
  have h := edit_slot hm hf hb.1 hi (Eq.refl (attach f i b m))
  rwa [toNat_ofNat_block hb.1] at h

lemma attach_blockIsFree (c : ℕ) : blockIsFree (attach f i b m) c ↔ blockIsFree m c ∧ c ≠ b := by
  rw [attach, clrbit, edit_blockIsFree hm hf hb.1 (words_slotAddr hi), ← clrbit, blockIsFree_clrbit]

lemma attach_byte (hc : Plain m f c) (hx : InBlock c x) : attach f i b m x = m x :=
  edit_byte hm hf hb.1 (words_slotAddr hi) hc hx

lemma attach_owned (s : Slot) : owned (attach f i b m) f s = if s = .data i then b else owned m f s := by
  obtain ⟨-, h2, h3⟩ := attach_view hm hf hi hb
  cases s with
  | data k => simp only [owned_data, h3 k, Slot.data.injEq]
  | indirect => simp [h2]

lemma attach_cellsFrom (hz : IsDir m f → Zeroed m b) : CellsFrom f m (attach f i b m) := by
  obtain ⟨h1, -, h3⟩ := attach_view hm hf hi hb
  intro hd k hk hne
  rw [h3 k] at hne ⊢
  split
  · exact .inr fun x hx => (attach_byte hm hf hi hb (.inl hb) hx).trans (hz hd x hx)
  · exact .inl ⟨by rwa [Covers, h1] at hk, rfl⟩

lemma attach_cellsKept (h0 : blockOf m f i = 0) : CellsKept f m (attach f i b m) := by
  obtain ⟨h1, -, h3⟩ := attach_view hm hf hi hb
  intro hd k hk hne
  rw [h3 k, if_neg fun (h : k = i) => hne (h ▸ h0), Covers, h1]
  exact ⟨hk, rfl⟩

lemma attach_exclusive (hz : IsDir m f → Zeroed m b) : Exclusive (attach f i b m) :=
  hm.attached hf hb (attach_touch hi hb) (attach_cellsFrom hm hf hi hb hz) (attach_owned hm hf hi hb)
    (attach_blockIsFree hm hf hi hb)

end Attach

def attachIndirect (f b : ℕ) (m : Bytes) : Bytes :=
  fill (set32 (clrbit m b) (indirectField f) (BitVec.ofNat 32 b)) (blockAddr b) blkSize 0

section AttachIndirect

variable (hm : Exclusive m) (hf : Reachable m f) (h0 : fIndirect m f = 0) (hb : blockIsFree m b)

include hb in
lemma attachIndirect_touch : Touch f m (attachIndirect f b m) := by
  intro x h1 h2 hz
  rw [attachIndirect, fill_of_out]
  · exact edit_touch hb.1 (words_indirectField m f) x h1 h2 hz
  · by_contra h
    refine hz (.free b ⟨by omega, ?_⟩ hb)
    simp only [blockAddr, blkSize] at h ⊢
    omega

include hm hf hb

lemma attachIndirect_get32 {a : ℕ} (ha : Words m f a) : get32 (attachIndirect f b m) a =
      get32 (set32 (clrbit m b) (indirectField f) (BitVec.ofNat 32 b)) a := by
  refine (same_fill ?_).get32
  rw [← blockAddr_succ]
  exact hm.words_not_inBlock hf ha (.inl hb)

include h0

lemma attachIndirect_view : fSize (attachIndirect f b m) f = fSize m f ∧ fIndirect (attachIndirect f b m) f = b ∧
    ∀ k, blockOf (attachIndirect f b m) f k = blockOf m f k := by
  obtain ⟨h1, h2, h3⟩ := edit_indirect hm hf hb.1 (Eq.refl (set32 (clrbit m b) (indirectField f) (BitVec.ofNat 32 b)))
  rw [toNat_ofNat_block hb.1] at h2
  have hind : fIndirect (attachIndirect f b m) f = b :=
    (congrArg BitVec.toNat (attachIndirect_get32 hm hf hb (words_indirectField m f))).trans h2
  refine ⟨?_, hind, fun k => ?_⟩
  · exact (congrArg BitVec.toInt (attachIndirect_get32 hm hf hb (words_sizeField m f))).trans h1
  by_cases hk : k < nDirect
  · rw [← h3 k hk, blockOf, blockOf, if_pos hk, if_pos hk]
    refine congrArg BitVec.toNat (attachIndirect_get32 hm hf hb (.inr (.inl ?_)))
    simp only [directField, nDirect] at hk ⊢
    omega
  · rw [blockOf_of_not fun h => (h.resolve_left hk).2 h0]
    unfold blockOf
    rw [if_neg hk, hind]
    split
    · rename_i hk'
      rw [attachIndirect, get32_fill_zero]
      · rfl
      · exact Nat.le_add_right _ _
      · simp only [blkSize, nDirect, nIndirect] at hk' ⊢
        omega
    · rfl

lemma attachIndirect_owned (s : Slot) :
    owned (attachIndirect f b m) f s = if s = .indirect then b else owned m f s := by
  obtain ⟨-, h2, h3⟩ := attachIndirect_view hm hf h0 hb
  cases s with
  | data k => simp [h3 k]
  | indirect => simp [h2]

omit h0 in
lemma attachIndirect_blockIsFree (c : ℕ) : blockIsFree (attachIndirect f b m) c ↔ blockIsFree m c ∧ c ≠ b := by
  have ht : Touch f m (set32 (clrbit m b) (indirectField f) (BitVec.ofNat 32 b)) :=
    edit_touch hb.1 (words_indirectField m f)
  rw [← blockIsFree_clrbit, clrbit, ← edit_blockIsFree hm hf hb.1 (words_indirectField m f), ← clrbit]
  have h1 := (attachIndirect_touch (f := f) hb).nblocks hm hf
  have h3 := hm.firstData_le_of_free hb
  refine blockIsFree_congr (h1.trans (ht.nblocks hm hf).symm) (fun x hx hx' => fill_of_out (.inl ?_)) c
  rw [ht.firstData hm hf] at hx'
  simp only [blockAddr, diskMap, blkSize] at hx' ⊢
  omega

omit h0 in
lemma attachIndirect_byte (hc : Plain m f c) (hne : c ≠ b) (hx : InBlock c x) : attachIndirect f b m x = m x := by
  rw [attachIndirect, fill_of_out]
  · exact edit_byte hm hf hb.1 (words_indirectField m f) hc hx
  · simp only [InBlock, blockAddr, diskMap, blkSize] at hx ⊢
    omega

lemma attachIndirect_cellsFrom : CellsFrom f m (attachIndirect f b m) := by
  obtain ⟨h1, -, h3⟩ := attachIndirect_view hm hf h0 hb
  intro hd k hk hne
  rw [h3 k]
  exact .inl ⟨by rwa [Covers, h1] at hk, rfl⟩

lemma attachIndirect_cellsKept : CellsKept f m (attachIndirect f b m) := by
  obtain ⟨h1, -, h3⟩ := attachIndirect_view hm hf h0 hb
  intro hd k hk hne
  rw [h3 k, Covers, h1]
  exact ⟨hk, rfl⟩

lemma attachIndirect_exclusive : Exclusive (attachIndirect f b m) :=
  hm.attached hf hb (attachIndirect_touch hb) (attachIndirect_cellsFrom hm hf h0 hb)
    (attachIndirect_owned hm hf h0 hb) (attachIndirect_blockIsFree hm hf hb)

end AttachIndirect

def release (f i : ℕ) (m : Bytes) : Bytes := set32 (setbit m (blockOf m f i)) (slotAddr m f i) 0

def releaseIndirect (f : ℕ) (m : Bytes) : Bytes :=
  set32 (setbit m (fIndirect m f)) (indirectField f) 0

section Release

variable (hm : Exclusive m) (hf : Reachable m f) (hi : blockOf m f i ≠ 0)

include hm hf hi

lemma release_touch : Touch f m (release f i m) :=
  edit_touch (hm.owned_lt hf (s := .data i) hi) (words_slotAddr (hasSlot_of_ne hi))

lemma release_view : fSize (release f i m) f = fSize m f ∧ fIndirect (release f i m) f = fIndirect m f ∧
    ∀ k, blockOf (release f i m) f k = if k = i then 0 else blockOf m f k :=
  edit_slot hm hf (hm.owned_lt hf (s := .data i) hi) (hasSlot_of_ne hi) rfl

lemma release_blockIsFree (c : ℕ) : blockIsFree (release f i m) c ↔ blockIsFree m c ∨ c = blockOf m f i := by
  have hlt : blockOf m f i < nblocks m := hm.owned_lt hf (s := .data i) hi
  rw [release, setbit, edit_blockIsFree hm hf hlt (words_slotAddr (hasSlot_of_ne hi)), ← setbit, blockIsFree_setbit]
  refine or_congr_right ⟨And.left, fun h => ⟨h, h ▸ hlt⟩⟩

lemma release_byte (hc : Plain m f c) (hx : InBlock c x) : release f i m x = m x :=
  edit_byte hm hf (hm.owned_lt hf (s := .data i) hi) (words_slotAddr (hasSlot_of_ne hi)) hc hx

lemma release_cellsFrom : CellsFrom f m (release f i m) := by
  obtain ⟨h1, -, h3⟩ := release_view hm hf hi
  intro hd k hk hne
  rw [h3 k] at hne ⊢
  split at hne
  · exact absurd rfl hne
  · rename_i hki
    rw [if_neg hki]
    exact .inl ⟨by rwa [Covers, h1] at hk, rfl⟩

lemma release_exclusive : Exclusive (release f i m) := by
  obtain ⟨-, h2, h3⟩ := release_view hm hf hi
  refine hm.released hf (release_touch hm hf hi) (release_cellsFrom hm hf hi) (s := .data i) hi ?_ ?_
    (release_blockIsFree hm hf hi)
  · rw [owned_data, h3 i, if_pos rfl]
  · rintro (k | -)
    · rw [owned_data, h3 k]
      split
      · exact .inl rfl
      · exact .inr rfl
    · exact .inr h2

end Release

section ReleaseIndirect

variable (hm : Exclusive m) (hf : Reachable m f) (hi : fIndirect m f ≠ 0)

include hm hf hi

lemma releaseIndirect_touch : Touch f m (releaseIndirect f m) :=
  edit_touch (hm.owned_lt hf (s := .indirect) hi) (words_indirectField m f)

lemma releaseIndirect_view : fSize (releaseIndirect f m) f = fSize m f ∧ fIndirect (releaseIndirect f m) f = 0 ∧
    ∀ k, blockOf (releaseIndirect f m) f k = if k < nDirect then blockOf m f k else 0 := by
  obtain ⟨h1, h2, h3⟩ := edit_indirect hm hf (hm.owned_lt hf (s := .indirect) hi) (Eq.refl (releaseIndirect f m))
  refine ⟨h1, h2, fun k => ?_⟩
  split
  · rename_i hk
    exact h3 k hk
  · rename_i hk
    exact blockOf_of_not fun h => (h.resolve_left hk).2 h2

lemma releaseIndirect_blockIsFree (c : ℕ) :
    blockIsFree (releaseIndirect f m) c ↔ blockIsFree m c ∨ c = fIndirect m f := by
  have hlt : fIndirect m f < nblocks m := hm.owned_lt hf (s := .indirect) hi
  rw [releaseIndirect, setbit, edit_blockIsFree hm hf hlt (words_indirectField m f), ← setbit, blockIsFree_setbit]
  refine or_congr_right ⟨And.left, fun h => ⟨h, h ▸ hlt⟩⟩

lemma releaseIndirect_byte (hc : Plain m f c) (hx : InBlock c x) : releaseIndirect f m x = m x :=
  edit_byte hm hf (hm.owned_lt hf (s := .indirect) hi) (words_indirectField m f) hc hx

lemma releaseIndirect_cellsFrom : CellsFrom f m (releaseIndirect f m) := by
  obtain ⟨h1, -, h3⟩ := releaseIndirect_view hm hf hi
  intro hd k hk hne
  rw [h3 k] at hne ⊢
  split at hne
  · rename_i hki
    rw [if_pos hki]
    exact .inl ⟨by rwa [Covers, h1] at hk, rfl⟩
  · exact absurd rfl hne

lemma releaseIndirect_exclusive : Exclusive (releaseIndirect f m) := by
  obtain ⟨-, h2, h3⟩ := releaseIndirect_view hm hf hi
  refine hm.released hf (releaseIndirect_touch hm hf hi) (releaseIndirect_cellsFrom hm hf hi)
    (s := .indirect) hi h2 ?_ (releaseIndirect_blockIsFree hm hf hi)
  rintro (k | -)
  · rw [owned_data, h3 k]
    split
    · exact .inr rfl
    · exact .inl rfl
  · exact .inl h2

end ReleaseIndirect

def resize (f : ℕ) (v : BitVec 32) (m : Bytes) : Bytes := set32 m (sizeField f) v

section Resize

variable (hm : Exclusive m) (hf : Reachable m f)

lemma resize_touch : Touch f m (resize f v m) := by
  intro x _ _ hz
  refine set32_of_out ?_
  by_contra h
  exact hz ((words_sizeField m f).zone (by omega) (by omega))

include hm hf

lemma resize_view : fSize (resize f v m) f = v.toInt ∧ fIndirect (resize f v m) f = fIndirect m f ∧
    ∀ k, blockOf (resize f v m) f k = blockOf m f k := by
  have hind : fIndirect (resize f v m) f = fIndirect m f :=
    congrArg BitVec.toNat (get32_set32_of_out (by simp only [sizeField, indirectField]; omega))
  refine ⟨congrArg BitVec.toInt (get32_set32 _ _ _), hind, fun k => ?_⟩
  by_cases hk : HasSlot m f k
  · have hk' : HasSlot (resize f v m) f k := by rwa [HasSlot, hind]
    have hout := hm.slotAddr_out hf hk
    rw [blockOf_eq hk', blockOf_eq hk, slotAddr, hind, ← slotAddr]
    exact congrArg BitVec.toNat (get32_set32_of_out (by unfold sizeField; omega))
  · rw [blockOf_of_not hk, blockOf_of_not]
    rwa [HasSlot, hind]

lemma resize_blockIsFree (c : ℕ) : blockIsFree (resize f v m) c ↔ blockIsFree m c := by
  have h1 := hm.words_out hf (words_sizeField m f)
  exact blockIsFree_congr ((resize_touch (v := v)).nblocks hm hf) (fun x hx hx' => set32_of_out (by omega)) c

lemma resize_owned (s : Slot) : owned (resize f v m) f s = owned m f s := by
  obtain ⟨-, h2, h3⟩ := resize_view (v := v) hm hf
  cases s with
  | data k => exact h3 k
  | indirect => exact h2

lemma resize_exclusive (hc : CellsFrom f m (resize f v m)) : Exclusive (resize f v m) := by
  refine hm.touch hf resize_touch hc ?_ ?_ fun c h => .inl ((resize_blockIsFree hm hf c).mp h)
  · intro s hs
    rw [resize_owned hm hf] at hs ⊢
    rw [resize_blockIsFree hm hf]
    exact ⟨hm.not_free hf hs, .inl rfl⟩
  · intro s t hs heq
    rw [resize_owned hm hf] at hs heq
    rw [resize_owned hm hf] at heq
    exact (hm.single f f hf hf s t hs heq).2

end Resize

end Jos.Fs
