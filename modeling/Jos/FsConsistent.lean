import Jos.FsWalk

/-!
Writing the data of a file, and what keeps a disk consistent: one owner for each block, no block of a
directory behind its end, and nothing in a record without a name.
-/

namespace Jos.Fs

open ByteMem

variable {m m' : Bytes} {f g d e b c i k x : ℕ} {v : BitVec 32}

def DataWrite (f : ℕ) (m m' : Bytes) : Prop :=
  ∀ x, diskMap ≤ x → x < diskMap + diskSize →
    m' x = m x ∨ (¬ IsDir m f ∧ ∃ i, blockOf m f i ≠ 0 ∧ InBlock (blockOf m f i) x)

lemma Exclusive.words_onDisk {a : ℕ} (hm : Exclusive m) (hf : Reachable m f) (ha : Words m f a) :
    diskMap ≤ a ∧ a + 4 ≤ diskMap + diskSize := by
  obtain ⟨h, hh, h1, h2, -⟩ := hm.record hf
  have h3 := hm.home_lt hh
  have h4 := hm.small
  rcases ha with ha | ha | ⟨hne, ha⟩
  · simp only [blockAddr, diskMap, diskSize, blkSize] at h1 h2 h3 ⊢
    omega
  · simp only [blockAddr, diskMap, diskSize, blkSize] at h1 h2 h3 ⊢
    omega
  · have := hm.owned_lt hf (s := .indirect) hne
    simp only [owned_indirect, blockAddr, diskMap, diskSize, blkSize] at this ha h4 ⊢
    omega

section Data

variable (hm : Exclusive m) (hf : Reachable m f) (hw : DataWrite f m m')

include hw in
lemma DataWrite.touch : Touch f m m' := by
  intro x h1 h2 hz
  rcases hw x h1 h2 with h | ⟨hd, i, hi, hx⟩
  · exact h
  · exact absurd (.data i hx hi hd) hz

include hm hf hw

lemma DataWrite.get32 {a : ℕ} (ha : Words m f a) : get32 m' a = get32 m a := by
  obtain ⟨h1, h2⟩ := hm.words_onDisk hf ha
  refine Same.get32 fun x hx hx' => ?_
  rcases hw x (by omega) (by omega) with h | ⟨hd, i, hi, hin⟩
  · exact h
  · have := hm.words_not_inBlock hf ha (.inr ⟨hd, i, hi, rfl⟩)
    unfold InBlock at hin
    omega

lemma DataWrite.view : fSize m' f = fSize m f ∧ fIndirect m' f = fIndirect m f ∧
    ∀ k, blockOf m' f k = blockOf m f k := by
  have hind : fIndirect m' f = fIndirect m f := congrArg BitVec.toNat (hw.get32 hm hf (words_indirectField m f))
  refine ⟨congrArg BitVec.toInt (hw.get32 hm hf (words_sizeField m f)), hind, fun k => ?_⟩
  by_cases hk : HasSlot m f k
  · have hk' : HasSlot m' f k := by rwa [HasSlot, hind]
    rw [blockOf_eq hk', blockOf_eq hk, slotAddr, hind, ← slotAddr]
    exact congrArg BitVec.toNat (hw.get32 hm hf (words_slotAddr hk))
  · rw [blockOf_of_not hk, blockOf_of_not]
    rwa [HasSlot, hind]

lemma DataWrite.owned (s : Slot) : owned m' f s = owned m f s := by
  obtain ⟨-, h2, h3⟩ := hw.view hm hf
  cases s with
  | data k => exact h3 k
  | indirect => exact h2

lemma DataWrite.blockIsFree (c : ℕ) : blockIsFree m' c ↔ blockIsFree m c := by
  have hn := hw.touch.nblocks hm hf
  refine blockIsFree_congr hn (fun x h1 h2 => ?_) c
  have h3 := hm.small
  have h4 : x < diskMap + diskSize := by
    simp only [firstData, blockAddr, diskMap, diskSize, blkSize] at h2 h3 ⊢
    omega
  rcases hw x (by simp only [bitmapAddr, blockAddr] at h1; omega) h4 with h | ⟨-, i, hi, hin⟩
  · exact h
  · have := hm.firstData_le hf (s := .data i) hi
    simp only [owned_data, InBlock, blockAddr, diskMap, blkSize] at this hin h2
    omega

lemma DataWrite.cellsFrom : CellsFrom f m m' := by
  obtain ⟨h1, -, h3⟩ := hw.view hm hf
  intro _ i hi hb
  exact .inl ⟨by rwa [Covers, h1] at hi, h3 i⟩

lemma DataWrite.cellsKept : CellsKept f m m' := by
  obtain ⟨h1, -, h3⟩ := hw.view hm hf
  intro _ i hi hb
  exact ⟨by rwa [Covers, h1], h3 i⟩

lemma DataWrite.exclusive : Exclusive m' := by
  refine hm.touch hf hw.touch (hw.cellsFrom hm hf) ?_ ?_ fun c h => .inl ((hw.blockIsFree hm hf c).mp h)
  · intro s hs
    rw [hw.owned hm hf] at hs ⊢
    rw [hw.blockIsFree hm hf]
    exact ⟨hm.not_free hf hs, .inl rfl⟩
  · intro s t hs heq
    rw [hw.owned hm hf] at hs heq
    rw [hw.owned hm hf] at heq
    exact (hm.single f f hf hf s t hs heq).2

lemma DataWrite.free_byte (hc : Fs.blockIsFree m c) (hx : InBlock c x) : m' x = m x := by
  have hdisk := hx.onDisk (lt_of_lt_of_le hc.1 hm.small)
  rcases hw x hdisk.1 hdisk.2 with h | ⟨-, i, hi, hin⟩
  · exact h
  · exact absurd (hin.unique hx) (hm.owned_ne_of_free hf hc (.data i))

end Data

def Blank (m : Bytes) (e : ℕ) : Prop := fSize m e = 0 ∧ ∀ s, owned m e s = 0

/-- Every block has one owner, no directory has a negative size or a block behind its end, and a free record
holds nothing. -/
structure Consistent (m : Bytes) : Prop extends Exclusive m where
  size : ∀ d, Reachable m d → IsDir m d → 0 ≤ fSize m d
  tail : ∀ d, Reachable m d → IsDir m d → ∀ i, ¬ Covers m d i → blockOf m d i = 0
  blank : ∀ d, Reachable m d → ∀ e, Cell m d e → m e = 0 → Blank m e

def FreeZero (m : Bytes) : Prop := ∀ b, blockIsFree m b → Zeroed m b

lemma Blank.of_direct (h1 : fSize m e = 0) (h2 : fIndirect m e = 0)
    (h3 : ∀ i < nDirect, get32 m (directField e i) = 0) : Blank m e := by
  refine ⟨h1, fun s => ?_⟩
  cases s with
  | indirect => exact h2
  | data i =>
    show blockOf m e i = 0
    unfold blockOf
    split_ifs with hi hi'
    · rw [h3 i hi]
      rfl
    · exact absurd h2 hi'.2
    · rfl

lemma Blank.of_zero (h : ∀ x, e ≤ x → x < e + sizeofFile → m x = 0) : Blank m e := by
  refine .of_direct ?_ ?_ fun i hi => ?_
  · exact congrArg BitVec.toInt (get32_zero fun x h1 h2 => h x (by unfold sizeField at h1; omega)
      (by simp only [sizeField, sizeofFile] at h2 ⊢; omega))
  · exact congrArg BitVec.toNat (get32_zero fun x h1 h2 => h x (by unfold indirectField at h1; omega)
      (by simp only [indirectField, sizeofFile] at h2 ⊢; omega))
  · exact get32_zero fun x h1 h2 => h x (by unfold directField at h1; omega)
      (by simp only [directField, sizeofFile, nDirect] at h2 hi ⊢; omega)

lemma Blank.same (h : Blank m e) (hs : Same m m' e sizeofFile) : Blank m' e := by
  have hsize : get32 m' (sizeField e) = get32 m (sizeField e) :=
    (hs.mono (by unfold sizeField; omega) (by simp only [sizeField, sizeofFile]; omega)).get32
  have hind : get32 m' (indirectField e) = get32 m (indirectField e) :=
    (hs.mono (by unfold indirectField; omega) (by simp only [indirectField, sizeofFile]; omega)).get32
  refine .of_direct ?_ ?_ fun i hi => ?_
  · exact (congrArg BitVec.toInt hsize).trans h.1
  · exact (congrArg BitVec.toNat hind).trans (h.2 .indirect)
  · rw [(hs.mono (by unfold directField; omega)
      (by simp only [directField, sizeofFile, nDirect] at hi ⊢; omega)).get32]
    have h0 := h.2 (.data i)
    rw [owned_data, blockOf, if_pos hi] at h0
    exact BitVec.eq_of_toNat_eq h0

lemma Exclusive.cell_ne (hm : Exclusive m) (hf : Reachable m f) (hd : Reachable m d) (he : Cell m d e)
    (h0 : m e = 0) : e ≠ f := by
  rintro rfl
  rcases Relation.ReflTransGen.cases_tail hf with h | ⟨c, -, hc⟩
  · -- the root lies in the superblock
    obtain ⟨b, hb⟩ := hd.home
    obtain ⟨i, j, hdir, hi, hne, hj⟩ := he
    have h1 := hm.firstData_le hd (s := .data i) hne
    have h2 := two_le_firstData m
    simp only [owned_data, rootFile, superAddr, blockAddr, sizeofFile, blkFiles, blkSize] at h h1 hj
    omega
  · exact hc.2 h0

/-- **What keeps a disk consistent**, besides ownership: the size of a directory, and the slots behind
its end. -/
theorem Consistent.touch (hm : Consistent m) (hf : Reachable m f) (ht : Touch f m m')
    (hc : CellsFrom f m m') (hex : Exclusive m') (hsize : IsDir m f → 0 ≤ fSize m' f)
    (htail : IsDir m f → ∀ i, ¬ Covers m' f i → blockOf m' f i = 0) : Consistent m' := by
  have hx := hm.toExclusive
  have hreach : ∀ g, Reachable m' g → Reachable m g := fun g => ht.reachable_inv hx hf hc
  have hdir : ∀ g, Reachable m' g → IsDir m' g → IsDir m g := by
    intro g hg hd
    obtain ⟨b, hb⟩ := (hreach g hg).home
    exact (ht.isDir hx hf hb).mp hd
  refine ⟨hex, ?_, ?_, ?_⟩
  · intro g hg hd
    have hd' := hdir g hg hd
    by_cases hgf : g = f
    · subst hgf
      exact hsize hd'
    · rw [ht.fSize hx hf (hreach g hg) hgf]
      exact hm.size g (hreach g hg) hd'
  · intro g hg hd i hi
    have hd' := hdir g hg hd
    by_cases hgf : g = f
    · subst hgf
      exact htail hd' i hi
    · rw [ht.blockOf hx hf (hreach g hg) hgf]
      exact hm.tail g (hreach g hg) hd' i fun h => hi ((ht.covers hx hf (hreach g hg) hgf i).mpr h)
  · intro d hd e he h0
    rcases ht.cell_inv hx hf hc (hreach d hd) he with h | h
    · obtain ⟨b, hb⟩ := h.home (hreach d hd)
      have h0' : m e = 0 := (ht.head hx hf (hreach d hd) h).symm.trans h0
      exact (hm.blank d (hreach d hd) e h h0').same (ht.cell hx hf hb (hx.cell_ne hf (hreach d hd) h h0'))
    · exact .of_zero h

section Steps

variable (hm : Consistent m) (hf : Reachable m f)

include hm hf

lemma Consistent.attach (hi : HasSlot m f i) (hs : IsDir m f → Covers m f i) (hb : blockIsFree m b)
    (hz : IsDir m f → Zeroed m b) : Consistent (attach f i b m) := by
  have hx := hm.toExclusive
  obtain ⟨h1, -, h3⟩ := attach_view hx hf hi hb
  refine hm.touch hf (attach_touch hi hb) (attach_cellsFrom hx hf hi hb hz)
    (attach_exclusive hx hf hi hb hz) (fun hd => by rw [h1]; exact hm.size f hf hd) fun hd k hk => ?_
  rw [Covers, h1] at hk
  rw [h3 k, if_neg fun (h : k = i) => hk (h ▸ hs hd)]
  exact hm.tail f hf hd k hk

lemma Consistent.attachIndirect (h0 : fIndirect m f = 0) (hb : blockIsFree m b) :
    Consistent (attachIndirect f b m) := by
  have hx := hm.toExclusive
  obtain ⟨h1, -, h3⟩ := attachIndirect_view hx hf h0 hb
  refine hm.touch hf (attachIndirect_touch hb) (attachIndirect_cellsFrom hx hf h0 hb)
    (attachIndirect_exclusive hx hf h0 hb) (fun hd => by rw [h1]; exact hm.size f hf hd) fun hd k hk => ?_
  rw [Covers, h1] at hk
  rw [h3 k]
  exact hm.tail f hf hd k hk

lemma Consistent.dataWrite (hw : DataWrite f m m') : Consistent m' := by
  have hx := hm.toExclusive
  obtain ⟨h1, -, h3⟩ := hw.view hx hf
  refine hm.touch hf hw.touch (hw.cellsFrom hx hf) (hw.exclusive hx hf) (fun hd => by rw [h1]; exact hm.size f hf hd)
    fun hd k hk => ?_
  rw [Covers, h1] at hk
  rw [h3 k]
  exact hm.tail f hf hd k hk

lemma Consistent.release (hi : blockOf m f i ≠ 0) : Consistent (release f i m) := by
  have hx := hm.toExclusive
  obtain ⟨h1, -, h3⟩ := release_view hx hf hi
  refine hm.touch hf (release_touch hx hf hi) (release_cellsFrom hx hf hi) (release_exclusive hx hf hi)
    (fun hd => by rw [h1]; exact hm.size f hf hd) fun hd k hk => ?_
  rw [Covers, h1] at hk
  rw [h3 k, hm.tail f hf hd k hk, ite_self]

lemma Consistent.releaseIndirect (hi : fIndirect m f ≠ 0) : Consistent (releaseIndirect f m) := by
  have hx := hm.toExclusive
  obtain ⟨h1, -, h3⟩ := releaseIndirect_view hx hf hi
  refine hm.touch hf (releaseIndirect_touch hx hf hi) (releaseIndirect_cellsFrom hx hf hi)
    (releaseIndirect_exclusive hx hf hi) (fun hd => by rw [h1]; exact hm.size f hf hd) fun hd k hk => ?_
  rw [Covers, h1] at hk
  rw [h3 k, hm.tail f hf hd k hk, ite_self]

lemma Consistent.resize (hv : IsDir m f → 0 ≤ v.toInt)
    (htail : IsDir m f → ∀ i : ℕ, v.toInt ≤ blkSize * i → blockOf m f i = 0) :
    Consistent (resize f v m) := by
  have hx := hm.toExclusive
  obtain ⟨h1, -, h3⟩ := resize_view (v := v) hx hf
  have hc : CellsFrom f m (Fs.resize f v m) := by
    intro hd i _ hb
    rw [h3 i] at hb ⊢
    refine .inl ⟨?_, rfl⟩
    by_contra hcov
    exact hb (hm.tail f hf hd i hcov)
  refine hm.touch hf resize_touch hc (resize_exclusive hx hf hc) (fun hd => h1 ▸ hv hd) fun hd k hk => ?_
  rw [Covers, h1, not_lt] at hk
  rw [h3 k]
  exact htail hd k hk

end Steps

end Jos.Fs
