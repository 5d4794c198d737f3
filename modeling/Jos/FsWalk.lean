import Jos.FsBlocks

/-!
What `file_block_walk` and `file_get_block` do to a file whose blocks are its own.
-/

namespace Jos.Fs

open ByteMem

variable {m m' : Bytes} {f b c i : ℕ}

lemma diskaddr_ok (h0 : b ≠ 0) (hb : b < nblocks m) : diskaddr m b = .ok (blockAddr b) := if_neg (by omega)

lemma fileBlockWalk_range (alloc : Bool) (h : nDirect + nIndirect ≤ i) :
    fileBlockWalk f i alloc m = .ok (m, .error (-eInval)) := if_pos h

lemma fileBlockWalk_hasSlot (hm : Exclusive m) (hf : Reachable m f) (alloc : Bool) (h : HasSlot m f i) :
    fileBlockWalk f i alloc m = .ok (m, .ok (slotAddr m f i)) := by
  have hr : ¬ nDirect + nIndirect ≤ i := by
    rcases h with h | h
    · omega
    · omega
  unfold fileBlockWalk slotAddr
  rw [if_neg hr]
  by_cases hd : i < nDirect
  · rw [if_pos hd, if_pos hd]
  · have hind : fIndirect m f ≠ 0 := (h.resolve_left hd).2
    rw [if_neg hd, if_neg hd, if_neg hind, diskaddr_ok hind (hm.owned_lt hf (s := .indirect) hind)]
    rfl

lemma not_hasSlot_iff (h : i < nDirect + nIndirect) : ¬ HasSlot m f i ↔ ¬ i < nDirect ∧ fIndirect m f = 0 := by
  unfold HasSlot
  constructor
  · intro hn
    refine ⟨fun hd => hn (.inl hd), ?_⟩
    by_contra hne
    exact hn (.inr ⟨h, hne⟩)
  · rintro ⟨hd, h0⟩ (hd' | ⟨-, hne⟩)
    · exact hd hd'
    · exact hne h0

lemma fileBlockWalk_missing (hr : i < nDirect + nIndirect) (h : ¬ HasSlot m f i) :
    fileBlockWalk f i false m = .ok (m, .error (-eNotFound)) := by
  obtain ⟨hd, h0⟩ := (not_hasSlot_iff hr).mp h
  unfold fileBlockWalk
  rw [if_neg (by omega), if_neg hd, if_pos h0]
  rfl

lemma fileBlockWalk_full (hr : i < nDirect + nIndirect) (h : ¬ HasSlot m f i) (hfull : ∀ b, ¬ blockIsFree m b) :
    fileBlockWalk f i true m = .ok (m, .error (-eNoDisk)) := by
  obtain ⟨hd, h0⟩ := (not_hasSlot_iff hr).mp h
  obtain ⟨b, hb, -⟩ | ⟨-, ha⟩ := allocBlock_cases m
  · exact absurd hb (hfull b)
  unfold fileBlockWalk
  rw [if_neg (by omega), if_neg hd, if_pos h0, ha]
  rfl

lemma hasSlot_attachIndirect (hm : Exclusive m) (hf : Reachable m f) (hr : i < nDirect + nIndirect)
    (h0 : fIndirect m f = 0) (hb : blockIsFree m b) : HasSlot (attachIndirect f b m) f i := by
  refine .inr ⟨hr, ?_⟩
  rw [(attachIndirect_view hm hf h0 hb).2.1]
  exact hm.ne_zero_of_free hb

lemma fileBlockWalk_alloc (hm : Exclusive m) (hf : Reachable m f) (hr : i < nDirect + nIndirect)
    (h : ¬ HasSlot m f i) (hb : blockIsFree m b) (ha : allocBlock m = (clrbit m b, b)) :
    fileBlockWalk f i true m = .ok (attachIndirect f b m, .ok (slotAddr (attachIndirect f b m) f i)) := by
  obtain ⟨hd, h0⟩ := (not_hasSlot_iff hr).mp h
  have hne := hm.ne_zero_of_free hb
  obtain ⟨h1, h2, -⟩ := edit_indirect hm hf hb.1 (Eq.refl (set32 (clrbit m b) (indirectField f) (BitVec.ofNat 32 b)))
  rw [toNat_ofNat_block hb.1] at h2
  have hn : nblocks (set32 (clrbit m b) (indirectField f) (BitVec.ofNat 32 b)) = nblocks m :=
    (edit_touch hb.1 (words_indirectField m f)).nblocks hm hf
  have hn' := (attachIndirect_touch (f := f) hb).nblocks hm hf
  have hv := (attachIndirect_view hm hf h0 hb).2.1
  unfold fileBlockWalk
  rw [if_neg (by omega), if_neg hd, if_pos h0, ha]
  simp only [if_true, if_neg hne]
  rw [h2, diskaddr_ok hne (by rw [hn]; exact hb.1)]
  show (do
    let indirect ← diskaddr (attachIndirect f b m) (fIndirect (attachIndirect f b m) f)
    Except.ok (attachIndirect f b m, Except.ok (indirect + 4 * (i - nDirect))) : Except Stop (Reply ℕ)) = _
  rw [hv, diskaddr_ok hne (by rw [hn']; exact hb.1), slotAddr, if_neg hd, hv]
  rfl

/-- All that `file_get_block` can do: the memory after it, and the address of the block or an error
code. -/
inductive GetBlock (f i : ℕ) (m : Bytes) : Bytes → Except ℤ ℕ → Prop
  | range (h : nDirect + nIndirect ≤ i) : GetBlock f i m m (.error (-eInval))
  | found (h : blockOf m f i ≠ 0) : GetBlock f i m m (.ok (blockAddr (blockOf m f i)))
  | taken (b : ℕ) (hi : HasSlot m f i) (h0 : blockOf m f i = 0) (hb : blockIsFree m b) :
      GetBlock f i m (attach f i b m) (.ok (blockAddr b))
  | full (hr : i < nDirect + nIndirect) (h0 : blockOf m f i = 0) (h : ∀ b, ¬ blockIsFree m b) :
      GetBlock f i m m (.error (-eNoDisk))
  | takenTwo (c b : ℕ) (hr : i < nDirect + nIndirect) (hn : ¬ HasSlot m f i) (hc : blockIsFree m c)
      (hb : blockIsFree (attachIndirect f c m) b) :
      GetBlock f i m (attach f i b (attachIndirect f c m)) (.ok (blockAddr b))
  | indirectOnly (c : ℕ) (hr : i < nDirect + nIndirect) (hn : ¬ HasSlot m f i) (hc : blockIsFree m c)
      (h : ∀ b, ¬ blockIsFree (attachIndirect f c m) b) :
      GetBlock f i m (attachIndirect f c m) (.error (-eNoDisk))

def getSlot (f i : ℕ) (m : Bytes) : Except Stop (Reply ℕ) :=
  if get32 m (slotAddr m f i) = 0 then
    let (m', block) := allocBlock m
    if block = 0 then .ok (m', .error (-eNoDisk))
    else do
      let m' := set32 m' (slotAddr m f i) (BitVec.ofNat 32 block)
      let blk ← diskaddr m' (get32 m' (slotAddr m f i)).toNat
      .ok (m', .ok blk)
  else do
    let blk ← diskaddr m (get32 m (slotAddr m f i)).toNat
    .ok (m, .ok blk)

lemma fileGetBlock_of_walk {m₁ : Bytes} (h : fileBlockWalk f i true m = .ok (m₁, .ok (slotAddr m₁ f i))) :
    fileGetBlock f i m = getSlot f i m₁ := by
  unfold fileGetBlock getSlot
  rw [h]
  rfl

lemma fileGetBlock_of_error {m₁ : Bytes} {e : ℤ} (h : fileBlockWalk f i true m = .ok (m₁, .error e)) :
    fileGetBlock f i m = .ok (m₁, .error e) := by
  unfold fileGetBlock
  rw [h]
  rfl

lemma getSlot_found (hm : Exclusive m) (hf : Reachable m f) (h : blockOf m f i ≠ 0) :
    getSlot f i m = .ok (m, .ok (blockAddr (blockOf m f i))) := by
  have heq := blockOf_eq (hasSlot_of_ne h)
  have hne : get32 m (slotAddr m f i) ≠ 0 := by
    intro h0
    rw [heq, h0] at h
    exact h rfl
  unfold getSlot
  rw [if_neg hne, ← heq, diskaddr_ok h (hm.owned_lt hf (s := .data i) h)]
  rfl

lemma getSlot_full (hi : HasSlot m f i) (h0 : blockOf m f i = 0) (hfull : ∀ b, ¬ blockIsFree m b) :
    getSlot f i m = .ok (m, .error (-eNoDisk)) := by
  have hz : get32 m (slotAddr m f i) = 0 := by
    rw [blockOf_eq hi] at h0
    exact BitVec.eq_of_toNat_eq h0
  obtain ⟨b, hb, -⟩ | ⟨-, ha⟩ := allocBlock_cases m
  · exact absurd hb (hfull b)
  unfold getSlot
  rw [if_pos hz, ha]
  rfl

section

variable (hm : Exclusive m) (hf : Reachable m f)
include hm hf

lemma getSlot_taken (hi : HasSlot m f i)
    (h0 : blockOf m f i = 0) (hb : blockIsFree m b) (ha : allocBlock m = (clrbit m b, b)) :
    getSlot f i m = .ok (attach f i b m, .ok (blockAddr b)) := by
  have hz : get32 m (slotAddr m f i) = 0 := by
    rw [blockOf_eq hi] at h0
    exact BitVec.eq_of_toNat_eq h0
  have hne := hm.ne_zero_of_free hb
  have hn := (attach_touch hi hb).nblocks hm hf
  unfold getSlot
  rw [if_pos hz, ha]
  simp only [if_neg hne]
  show (do
    let blk ← diskaddr (attach f i b m) (get32 (attach f i b m) (slotAddr m f i)).toNat
    Except.ok (attach f i b m, Except.ok blk) : Except Stop (Reply ℕ)) = _
  rw [attach, get32_set32, toNat_ofNat_block hb.1, ← attach, diskaddr_ok hne (by rw [hn]; exact hb.1)]
  rfl

lemma getSlot_cases (hi : HasSlot m f i) :
    (blockOf m f i ≠ 0 ∧ getSlot f i m = .ok (m, .ok (blockAddr (blockOf m f i)))) ∨
      (∃ b, blockOf m f i = 0 ∧ blockIsFree m b ∧ getSlot f i m = .ok (attach f i b m, .ok (blockAddr b))) ∨
      (blockOf m f i = 0 ∧ (∀ b, ¬ blockIsFree m b) ∧ getSlot f i m = .ok (m, .error (-eNoDisk))) := by
  by_cases h0 : blockOf m f i = 0
  · obtain ⟨b, hb, ha⟩ | ⟨hfull, -⟩ := allocBlock_cases m
    · exact .inr (.inl ⟨b, h0, hb, getSlot_taken hm hf hi h0 hb ha⟩)
    · exact .inr (.inr ⟨h0, hfull, getSlot_full hi h0 hfull⟩)
  · exact .inl ⟨h0, getSlot_found hm hf h0⟩

/-- **`file_get_block` and its cases.** It always comes to an end. -/
theorem fileGetBlock_cases (i : ℕ) : ∃ m' r, fileGetBlock f i m = .ok (m', r) ∧ GetBlock f i m m' r := by
  by_cases hr : i < nDirect + nIndirect
  swap
  · exact ⟨m, _, fileGetBlock_of_error (fileBlockWalk_range true (by omega)), .range (by omega)⟩
  by_cases hi : HasSlot m f i
  · rw [fileGetBlock_of_walk (fileBlockWalk_hasSlot hm hf true hi)]
    obtain ⟨h, he⟩ | ⟨b, h0, hb, he⟩ | ⟨h0, hfull, he⟩ := getSlot_cases hm hf hi
    · exact ⟨_, _, he, .found h⟩
    · exact ⟨_, _, he, .taken b hi h0 hb⟩
    · exact ⟨_, _, he, .full hr h0 hfull⟩
  · have h0 : fIndirect m f = 0 := ((not_hasSlot_iff hr).mp hi).2
    have hempty : blockOf m f i = 0 := blockOf_of_not hi
    obtain ⟨c, hc, ha⟩ | ⟨hfull, -⟩ := allocBlock_cases m
    swap
    · exact ⟨m, _, fileGetBlock_of_error (fileBlockWalk_full hr hi hfull), .full hr hempty hfull⟩
    -- the new indirect block is empty
    have hm' := attachIndirect_exclusive hm hf h0 hc
    have hf' := (attachIndirect_touch hc).reachable_of hm hf (attachIndirect_cellsKept hm hf h0 hc) hf
    have hi' := hasSlot_attachIndirect hm hf hr h0 hc
    have hempty' : blockOf (attachIndirect f c m) f i = 0 := by
      rw [(attachIndirect_view hm hf h0 hc).2.2 i, hempty]
    rw [fileGetBlock_of_walk (fileBlockWalk_alloc hm hf hr hi hc ha)]
    obtain ⟨h, -⟩ | ⟨b, -, hb, he⟩ | ⟨-, hfull, he⟩ := getSlot_cases hm' hf' hi'
    · exact absurd hempty' h
    · exact ⟨_, _, he, .takenTwo c b hr hi hc hb⟩
    · exact ⟨_, _, he, .indirectOnly c hr hi hc hfull⟩

end

end Jos.Fs
