import Jos.FsContents

/-!
`file_set_size` to a smaller size: which blocks get free, and that nothing else changes.

Only ownership has to be exclusive for that; the records of a directory that is cut off stay in the
blocks that get free.
-/

namespace Jos.Fs

open ByteMem CArray

variable {m m' : Bytes} {f g a b c i k lo hi n x : ℕ} {v w : BitVec 32} {z : ℤ}

/-- The bytes of the bitmap, of the size and the block numbers of `f`, and of its indirect block -/
def Ledger (m : Bytes) (f x : ℕ) : Prop :=
  (bitmapAddr ≤ x ∧ x < blockAddr (firstData m)) ∨ Field f x ∨ (fIndirect m f ≠ 0 ∧ InBlock (fIndirect m f) x)

lemma Ledger.zone (h : Ledger m f x) : Zone m f x := by
  rcases h with ⟨h1, h2⟩ | h | ⟨h1, h2⟩
  · exact .bitmap h1 h2
  · exact .field h
  · exact .indirect h2 h1

lemma Words.ledger (ha : Words m f a) (h : a ≤ x) (h' : x < a + 4) : Ledger m f x := by
  unfold Words at ha
  unfold Ledger Field InBlock
  omega

lemma edit_ledger (hb : b < nblocks m) (ha : Words m f a) (hx : ¬ Ledger m f x) :
    set32 (set32 m (bitWord b) v) a w x = m x := by
  have hlow := bitmapAddr_le_bitWord b
  have hhigh := bitWord_add_le hb
  rw [set32_of_out, set32_of_out]
  · by_contra hin
    exact hx (.inl ⟨by omega, by omega⟩)
  · by_contra hin
    exact hx (ha.ledger (by omega) (by omega))

def LedgerOnly (f : ℕ) (m m' : Bytes) : Prop := ∀ x, ¬ Ledger m f x → m' x = m x

lemma LedgerOnly.touch (h : LedgerOnly f m m') : Touch f m m' := fun x _ _ hx => h x fun hl => hx hl.zone

/-- The blocks of `f` from slot `lo` up to `hi` have been given back, and nothing else has been done. -/
structure Cut (f lo hi : ℕ) (m m' : Bytes) : Prop where
  exclusive : Exclusive m'
  self : Reachable m' f
  size : fSize m' f = fSize m f
  indirect : fIndirect m' f = fIndirect m f
  blocks : ∀ k, blockOf m' f k = if lo ≤ k ∧ k < hi then 0 else blockOf m f k
  free : ∀ b, blockIsFree m' b ↔
    blockIsFree m b ∨ ∃ k, lo ≤ k ∧ k < hi ∧ blockOf m f k ≠ 0 ∧ blockOf m f k = b
  only : LedgerOnly f m m'

section Cut

variable (hm : Exclusive m) (hf : Reachable m f)

include hm hf

lemma Cut.refl (lo : ℕ) : Cut f lo lo m m where
  exclusive := hm
  self := hf
  size := rfl
  indirect := rfl
  blocks k := by rw [if_neg (by omega)]
  free b := by
    refine ⟨.inl, ?_⟩
    rintro (h | ⟨k, h1, h2, -⟩)
    · exact h
    · omega
  only _ _ := rfl

lemma ledger_congr (h : LedgerOnly f m m') (hi : fIndirect m' f = fIndirect m f) : Ledger m' f x ↔ Ledger m f x := by
  unfold Ledger
  rw [h.touch.firstData hm hf, hi]

lemma release_ledger (hi : blockOf m f i ≠ 0) : LedgerOnly f m (release f i m) := fun _ hx =>
  edit_ledger (hm.owned_lt hf (s := .data i) hi) (words_slotAddr (hasSlot_of_ne hi)) hx

lemma release_cut (hi : blockOf m f i ≠ 0) : Cut f i (i + 1) m (release f i m) := by
  obtain ⟨h1, h2, h3⟩ := release_view hm hf hi
  refine ⟨release_exclusive hm hf hi, (release_touch hm hf hi).reachable_self hm hf, h1, h2, fun k => ?_,
    fun b => ?_, release_ledger hm hf hi⟩
  · rw [h3 k]
    congr 1
    exact propext (by omega)
  · rw [release_blockIsFree hm hf hi]
    refine or_congr_right ⟨?_, ?_⟩
    · rintro rfl
      exact ⟨i, le_rfl, by omega, hi, rfl⟩
    · rintro ⟨k, h1, h2, -, rfl⟩
      rw [show k = i by omega]

lemma fileFreeBlock_cut (i : ℕ) : ∃ m', fileFreeBlock f i m = .ok m' ∧ Cut f i (i + 1) m m' := by
  rw [fileFreeBlock_eq hf hm]
  split
  next h0 =>
    refine ⟨m, rfl, { Cut.refl hm hf i with blocks := fun k => ?_, free := fun b => ?_ }⟩
    · split
      next hk =>
        rw [show k = i by omega]
        exact h0
      · rfl
    · refine ⟨.inl, ?_⟩
      rintro (h | ⟨k, h1, h2, h3, -⟩)
      · exact h
      · rw [show k = i by omega] at h3
        exact absurd h0 h3
  next h0 => exact ⟨_, rfl, release_cut hm hf h0⟩

end Cut

lemma Cut.trans {m'' : Bytes} {mid : ℕ} (hm : Exclusive m) (hf : Reachable m f) (h : Cut f lo mid m m')
    (h' : Cut f mid hi m' m'') (hlo : lo ≤ mid) (hhi : mid ≤ hi) : Cut f lo hi m m'' where
  exclusive := h'.exclusive
  self := h'.self
  size := h'.size.trans h.size
  indirect := h'.indirect.trans h.indirect
  blocks k := by
    rw [h'.blocks k, h.blocks k]
    split_ifs <;> first | rfl | omega
  free b := by
    have hback : ∀ k, mid ≤ k → blockOf m' f k = blockOf m f k := fun k hk => by
      rw [h.blocks k, if_neg (by omega)]
    rw [h'.free b, h.free b, or_assoc]
    refine or_congr_right ⟨?_, ?_⟩
    · rintro (⟨k, h1, h2, h3⟩ | ⟨k, h1, h2, h3⟩)
      · exact ⟨k, h1, by omega, h3⟩
      · rw [hback k h1] at h3
        exact ⟨k, by omega, h2, h3⟩
    · rintro ⟨k, h1, h2, h3⟩
      rcases Nat.lt_or_ge k mid with hk | hk
      · exact .inl ⟨k, h1, hk, h3⟩
      · refine .inr ⟨k, hk, h2, ?_⟩
        rw [hback k hk]
        exact h3
  only x hx := by
    rw [h'.only x, h.only x hx]
    rwa [ledger_congr hm hf h.only h.indirect]

lemma freeBlocks_cut (hm : Exclusive m) (hf : Reachable m f) (n lo : ℕ) :
    ∃ m', freeBlocks f n lo m = .ok m' ∧ Cut f lo (lo + n) m m' := by
  induction n generalizing lo m with
  | zero => exact ⟨m, rfl, .refl hm hf lo⟩
  | succ n ih =>
    obtain ⟨m₁, h₁, hc₁⟩ := fileFreeBlock_cut hm hf lo
    obtain ⟨m₂, h₂, hc₂⟩ := ih hc₁.exclusive hc₁.self (lo + 1)
    refine ⟨m₂, ?_, ?_⟩
    · rw [freeBlocks, h₁]
      exact h₂
    · have hc := hc₁.trans hm hf hc₂ (by omega) (by omega)
      rwa [show lo + 1 + n = lo + (n + 1) by omega] at hc

/-- **The file has been cut off** at the new size: the blocks behind it are free, with the indirect block if
no slot of it is needed, and nothing else has changed. -/
structure Truncated (f : ℕ) (z : ℤ) (m m' : Bytes) : Prop where
  exclusive : Exclusive m'
  size : fSize m' f = z
  kept : ∀ i : ℕ, (blkSize : ℤ) * i < z → blockOf m' f i = blockOf m f i
  cleared : ∀ i : ℕ, z ≤ blkSize * i → blockOf m' f i = 0
  indirect : fIndirect m' f = if z ≤ blkSize * nDirect then 0 else fIndirect m f
  free : ∀ b, blockIsFree m' b ↔ blockIsFree m b ∨
    (∃ i : ℕ, z ≤ blkSize * i ∧ blockOf m f i ≠ 0 ∧ blockOf m f i = b) ∨
    (z ≤ blkSize * nDirect ∧ fIndirect m f ≠ 0 ∧ fIndirect m f = b)
  bytes : ∀ q : ℕ, (q : ℤ) < z → blockOf m f (q / blkSize) ≠ 0 → byteAt m' f q = byteAt m f q
  record : ∀ g, Reachable m g → g ≠ f → Same m m' g sizeofFile
  owned : ∀ g, Reachable m g → g ≠ f → ∀ s, owned m' g s = owned m g s
  data : ∀ g, Reachable m g → g ≠ f → ∀ s, Fs.owned m g s ≠ 0 → ∀ x, InBlock (Fs.owned m g s) x →
    ¬ Field f x → m' x = m x

section Truncate

variable (hm : Exclusive m) (hf : Reachable m f)

include hm hf

lemma data_not_ledger (hi : blockOf m f i ≠ 0) (hx : InBlock (blockOf m f i) x) : ¬ Ledger m f x := by
  have hfirst := hm.firstData_le hf (s := .data i) hi
  rintro (⟨-, h⟩ | h | ⟨h0, h⟩)
  · rw [owned_data] at hfirst
    have hlow := hx.1
    simp only [blockAddr, blkSize] at h hlow
    omega
  · exact hm.own_not_field hf hi hx h
  · have heq := hx.unique h
    have hslot := (hm.single f f hf hf (.data i) .indirect hi heq).2
    cases hslot

lemma truncated_of_ledger (hex : Exclusive m') (honly : LedgerOnly f m m') (hsize : fSize m' f = z)
    (hkept : ∀ i : ℕ, (blkSize : ℤ) * i < z → blockOf m' f i = blockOf m f i)
    (hcleared : ∀ i : ℕ, z ≤ blkSize * i → blockOf m' f i = 0)
    (hindirect : fIndirect m' f = if z ≤ blkSize * nDirect then 0 else fIndirect m f)
    (hfree : ∀ b, blockIsFree m' b ↔ blockIsFree m b ∨
      (∃ i : ℕ, z ≤ blkSize * i ∧ blockOf m f i ≠ 0 ∧ blockOf m f i = b) ∨
      (z ≤ blkSize * nDirect ∧ fIndirect m f ≠ 0 ∧ fIndirect m f = b)) : Truncated f z m m' := by
  have ht := honly.touch
  refine ⟨hex, hsize, hkept, hcleared, hindirect, hfree, fun q hq hb => ?_, fun g hg hne => ?_,
    fun g hg hne s => ht.owned hm hf hg hne s, fun g hg hne s hs x hx hfield => ht.byte hm hf hg hne hs hx hfield⟩
  · have hblock : (blkSize : ℤ) * (q / blkSize : ℕ) < z := by
      have hle := Nat.mul_div_le q blkSize
      exact lt_of_le_of_lt (by exact_mod_cast hle) hq
    rw [byteAt, byteAt, hkept _ hblock]
    exact honly _ (data_not_ledger hm hf hb (inBlock_pos _ q))
  · obtain ⟨b, hb⟩ := hg.home
    exact ht.cell hm hf hb hne

omit hf in
lemma resize_exclusive_of_le (hf : Reachable m f) (hv : v.toInt ≤ fSize m f) : Exclusive (resize f v m) := by
  obtain ⟨h1, -, h3⟩ := resize_view (v := v) hm hf
  refine resize_exclusive hm hf fun _ i hi _ => .inl ⟨?_, h3 i⟩
  rw [Covers, h1] at hi
  exact lt_of_lt_of_le hi hv

/-- What `file_truncate_blocks` leaves, when the file has no blocks behind its size: `free` are the blocks
that are given back. -/
lemma fileTruncateBlocks_ledger (htail : ∀ i, ¬ Covers m f i → blockOf m f i = 0) (h0 : 0 ≤ z) (hlt : z < fSize m f) :
    ∃ m', fileTruncateBlocks f z m = .ok m' ∧ Exclusive m' ∧ Reachable m' f ∧ LedgerOnly f m m' ∧
      fSize m' f = fSize m f ∧
      (∀ i, blockOf m' f i = if (blkSize : ℤ) * i < z then blockOf m f i else 0) ∧
      fIndirect m' f = (if z ≤ blkSize * nDirect then 0 else fIndirect m f) ∧
      ∀ b, blockIsFree m' b ↔ blockIsFree m b ∨ (∃ i : ℕ, z ≤ blkSize * i ∧ blockOf m f i ≠ 0 ∧ blockOf m f i = b) ∨
        (z ≤ blkSize * nDirect ∧ fIndirect m f ≠ 0 ∧ fIndirect m f = b) := by
  have hbound := fSize_lt m f
  have hnew := ceilBlocks_of_nonneg h0 (by omega)
  have hold := ceilBlocks_of_nonneg (h0.trans hlt.le) hbound
  have hle : ceilBlocks z ≤ ceilBlocks (fSize m f) := by
    by_contra hcon
    have h1 := (hnew (ceilBlocks (fSize m f))).mp (by omega)
    exact absurd ((hold _).mpr (h1.trans hlt)) (lt_irrefl _)
  obtain ⟨m₁, h₁, hc⟩ := freeBlocks_cut hm hf (ceilBlocks (fSize m f) - ceilBlocks z) (ceilBlocks z)
  rw [Nat.add_sub_cancel' hle] at hc
  -- behind the old size there was nothing to give back
  have hblocks : ∀ i, blockOf m₁ f i = if (blkSize : ℤ) * i < z then blockOf m f i else 0 := by
    intro i
    rw [hc.blocks i]
    by_cases hi : i < ceilBlocks z
    · rw [if_neg (by omega), if_pos ((hnew i).mp hi)]
    · rw [if_neg ((hnew i).not.mp hi)]
      split
      · rfl
      · refine htail i fun hcov => ?_
        have := (hold i).mpr hcov
        omega
  have hfree : ∀ b, blockIsFree m₁ b ↔
      blockIsFree m b ∨ ∃ i : ℕ, z ≤ blkSize * i ∧ blockOf m f i ≠ 0 ∧ blockOf m f i = b := by
    intro b
    rw [hc.free b]
    refine or_congr_right (exists_congr fun i => ?_)
    constructor
    · rintro ⟨h1, -, h3⟩
      exact ⟨not_lt.mp fun h => absurd ((hnew i).mpr h) (by omega), h3⟩
    · rintro ⟨h1, h2, h3⟩
      refine ⟨not_lt.mp fun h => absurd ((hnew i).mp h) (by omega), ?_, h2, h3⟩
      exact (hold i).mpr (not_not.mp fun hcov => h2 (htail i hcov))
  have hdirect : ceilBlocks z ≤ nDirect ↔ z ≤ blkSize * nDirect := by
    rw [← not_lt, hnew nDirect, not_lt]
  unfold fileTruncateBlocks
  simp only [h₁, ok_bind]
  split
  next hcond =>
    rw [hdirect] at hcond
    have hi := hcond.2
    obtain ⟨v1, v2, v3⟩ := releaseIndirect_view hc.exclusive hc.self hi
    refine ⟨releaseIndirect f m₁, ?_, releaseIndirect_exclusive hc.exclusive hc.self hi,
      (releaseIndirect_touch hc.exclusive hc.self hi).reachable_self hc.exclusive hc.self, fun x hx => ?_,
      v1.trans hc.size, fun i => ?_, ?_, fun b => ?_⟩
    · rw [← owned_indirect, freeBlock_owned hc.self hc.exclusive (s := .indirect) hi]
      rfl
    · have hlt₁ : fIndirect m₁ f < nblocks m₁ := hc.exclusive.owned_lt hc.self (s := .indirect) hi
      rw [releaseIndirect, setbit, edit_ledger hlt₁ (words_indirectField m₁ f), hc.only x hx]
      rwa [ledger_congr hm hf hc.only hc.indirect]
    · rw [v3 i, hblocks i]
      by_cases hd : i < nDirect
      · rw [if_pos hd]
      · have hfar : ¬ (blkSize : ℤ) * i < z := by
          simp only [blkSize, nDirect] at hcond hd ⊢
          omega
        rw [if_neg hd, if_neg hfar]
    · rw [v2, if_pos hcond.1]
    · rw [releaseIndirect_blockIsFree hc.exclusive hc.self hi, hfree b, or_assoc]
      refine or_congr_right (or_congr_right ⟨?_, ?_⟩)
      · rintro rfl
        exact ⟨hcond.1, hc.indirect ▸ hi, hc.indirect.symm⟩
      · rintro ⟨-, -, rfl⟩
        exact hc.indirect.symm
  next hcond =>
    rw [hdirect, hc.indirect] at hcond
    refine ⟨m₁, rfl, hc.exclusive, hc.self, hc.only, hc.size, hblocks, ?_, fun b => ?_⟩
    · rw [hc.indirect]
      split
      next hz => exact not_not.mp fun hne => hcond ⟨hz, hne⟩
      · rfl
    · rw [hfree b]
      refine or_congr_right ⟨.inl, ?_⟩
      rintro (h | ⟨h1, h2, -⟩)
      · exact h
      · exact absurd ⟨h1, h2⟩ hcond

/-- **Truncation is exact.** -/
theorem file_set_size_truncates (htail : ∀ i, ¬ Covers m f i → blockOf m f i = 0) (h0 : 0 ≤ z)
    (hlt : z < fSize m f) : ∃ m', fileSetSize f z m = .ok m' ∧ Truncated f z m m' := by
  have hbound := fSize_lt m f
  obtain ⟨m₁, h₁, hex, hself, honly, hsize, hblocks, hindirect, hfree⟩ :=
    fileTruncateBlocks_ledger hm hf htail h0 hlt
  have hz : (BitVec.ofInt 32 z).toInt = z := toInt_ofInt_size h0 (by omega)
  obtain ⟨v1, v2, v3⟩ := resize_view (v := BitVec.ofInt 32 z) hex hself
  refine ⟨resize f (BitVec.ofInt 32 z) m₁, ?_, truncated_of_ledger hm hf
    (resize_exclusive_of_le hex hself (by rw [hz, hsize]; exact hlt.le)) (fun x hx => ?_) (v1.trans hz)
    (fun i hi => ?_) (fun i hi => ?_) (v2.trans hindirect) fun b => ?_⟩
  · unfold fileSetSize
    rw [if_pos hlt, h₁]
    rfl
  · rw [resize, set32_of_out, honly x hx]
    by_contra hin
    refine hx (.inr (.inl ?_))
    unfold sizeField at hin
    unfold Field
    omega
  · rw [v3 i, hblocks i, if_pos hi]
  · rw [v3 i, hblocks i, if_neg (not_lt.mpr hi)]
  · rw [resize_blockIsFree hex hself b, hfree b]

end Truncate

open FsOwners Runs in
/-- A file of three bytes is emptied, and its block is free again. -/
theorem file_set_size_truncates_newDisk :
    ∃ m, run step (newDisk 5) [.create [97], .write firstFile 0x1000 3 0] = .ok m ∧ fSize m firstFile = 3 ∧
      blockOf m firstFile 0 ≠ 0 ∧ ∃ m', fileSetSize firstFile 0 m = .ok m' ∧ Truncated firstFile 0 m m' := by
  have hcreate : ∃ m, run step (newDisk 5) [.create [97]] = .ok m ∧ HasFirst m ∧
      ∃ m', run step m [.write firstFile 0x1000 3 0] = .ok m' ∧ HasFirst m' ∧
        (fSize m' firstFile = 3 ∧ blockOf m' firstFile 0 ≠ 0) ∧ fIndirect m' firstFile = 0 ∧ ∀ i < nDirect, ¬ Covers m' firstFile i → blockOf m' firstFile i = 0 := by
    decide
  obtain ⟨m₁, h₁, hfirst₁, m, h₂, hfirst, ⟨hsize, hblock⟩, hind, hslots⟩ := hcreate
  rw [run_singleton] at h₁ h₂
  have hm₁ := step_consistent (c := .create [97]) consistent_newDisk (show 0 ∉ [97] by decide)
    (.inl freeZero_newDisk) h₁
  have hm := step_consistent (c := .write firstFile 0x1000 3 0) hm₁ ⟨hfirst₁.reachable, by decide⟩
    hfirst₁.2.2.2.2 h₂
  refine ⟨m, (run_cons_ok h₁).trans (run_cons_ok h₂), hsize, hblock, ?_⟩
  refine file_set_size_truncates hm.toExclusive hfirst.reachable (fun i hi => ?_) (by decide) (by rw [hsize]; decide)
  by_cases hd : i < nDirect
  · exact hslots i hd hi
  · rw [blockOf, if_neg hd, if_neg fun h => h.2 hind]

end Jos.Fs
