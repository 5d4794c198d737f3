import Jos.FsTransfer

/-!
What `file_set_size` does: the blocks behind the new end are given back, with the indirect block if
no slot of it is left, and the size is set.
-/

namespace Jos.Fs

open ByteMem CArray BitVec

variable {m m' m'' : Bytes} {f g d e b c i k n lo mid hi x : ℕ} {v : BitVec 32}

lemma Touch.reachable_self (hm : Exclusive m) (hf : Reachable m f) (ht : Touch f m m') : Reachable m' f := by
  have key : ∀ g, Reachable m g → Reachable m' g ∨ Reachable m' f := by
    intro g hg
    induction hg with
    | refl => exact .inl .refl
    | @tail d e hd he ih =>
      rcases ih with ih | ih
      swap
      · exact .inr ih
      by_cases hne : d = f
      · exact .inr (hne ▸ ih)
      refine .inl (.tail ih ⟨?_, ht.head hm hf hd he.1 ▸ he.2⟩)
      obtain ⟨b, hb⟩ := Reachable.home hd
      obtain ⟨i, j, hdir, hi, hb', hj⟩ := he.1
      have hbl := ht.blockOf hm hf hd hne i
      exact hbl ▸ .mk i j ((ht.isDir hm hf hb).mpr hdir) ((ht.covers hm hf hd hne i).mpr hi) (hbl ▸ hb') hj
  exact (key f hf).elim id id

/-- The blocks of `f` in the slots from `lo` up to `hi` are given back, and its size may change; all else
stays. Behind `hi` blocks may be lost. -/
structure Released (f lo hi : ℕ) (m m' : Bytes) : Prop where
  consistent : Consistent m'
  self : Reachable m' f
  back : ∀ g, Reachable m' g → Reachable m g
  isDir : ∀ g, Reachable m' g → (IsDir m' g ↔ IsDir m g)
  size : ∀ g, Reachable m' g → g ≠ f → fSize m' g = fSize m g
  other : ∀ g, Reachable m' g → g ≠ f → ∀ s, owned m' g s = owned m g s
  kept : ∀ i < lo, blockOf m' f i = blockOf m f i
  dropped : ∀ i, lo ≤ i → i < hi → blockOf m' f i = 0
  only : ∀ s, owned m' f s = 0 ∨ owned m' f s = owned m f s
  byte : ∀ g, Reachable m' g → ∀ i, blockOf m' g i ≠ 0 → ∀ x, InBlock (blockOf m' g i) x →
    ¬ Field f x → m' x = m x

lemma Released.refl (hm : Consistent m) (hf : Reachable m f) (lo : ℕ) : Released f lo lo m m where
  consistent := hm
  self := hf
  back _ h := h
  isDir _ _ := Iff.rfl
  size _ _ _ := rfl
  other _ _ _ _ := rfl
  kept _ _ := rfl
  dropped _ h h' := by omega
  only _ := .inr rfl
  byte _ _ _ _ _ _ _ := rfl

lemma Released.blockOf_eq (h : Released f lo hi m m') (hg : Reachable m' g) (hi : blockOf m' g i ≠ 0) :
    blockOf m' g i = blockOf m g i := by
  by_cases hgf : g = f
  · subst hgf
    exact (h.only (.data i)).resolve_left hi
  · exact h.other g hg hgf (.data i)

lemma Released.trans {lo' : ℕ} (h : Released f lo mid m m') (h' : Released f lo' hi m' m'')
    (hlo : lo ≤ lo') (hmid : lo' ≤ mid) : Released f lo (max mid hi) m m'' where
  consistent := h'.consistent
  self := h'.self
  back g hg := h.back g (h'.back g hg)
  isDir g hg := (h'.isDir g hg).trans (h.isDir g (h'.back g hg))
  size g hg hne := (h'.size g hg hne).trans (h.size g (h'.back g hg) hne)
  other g hg hne s := (h'.other g hg hne s).trans (h.other g (h'.back g hg) hne s)
  kept i hi := (h'.kept i (by omega)).trans (h.kept i hi)
  dropped i h1 h2 := by
    rcases Nat.lt_or_ge i mid with hi | hi
    · have h0 := h.dropped i h1 hi
      rcases h'.only (.data i) with h3 | h3
      · exact h3
      · exact h3.trans h0
    · exact h'.dropped i (by omega) (by omega)
  only s := by
    rcases h'.only s with h1 | h1
    · exact .inl h1
    · rw [h1]
      exact h.only s
  byte g hg i hi x hx hfield := by
    have h1 := h'.blockOf_eq hg hi
    rw [h'.byte g hg i hi x hx hfield]
    exact h.byte g (h'.back g hg) i (h1 ▸ hi) x (h1 ▸ hx) hfield

section Steps

variable (hm : Consistent m) (hf : Reachable m f)

include hm hf

lemma released_of_touch (ht : Touch f m m') (hcons : Consistent m') (hc : CellsFrom f m m')
    (hkept : ∀ i < lo, blockOf m' f i = blockOf m f i)
    (hdropped : ∀ i, lo ≤ i → i < hi → blockOf m' f i = 0)
    (honly : ∀ s, owned m' f s = 0 ∨ owned m' f s = owned m f s)
    (hbyte : ∀ c, Plain m f c → ∀ x, InBlock c x → m' x = m x) : Released f lo hi m m' := by
  have hx := hm.toExclusive
  have hreach : ∀ g, Reachable m' g → Reachable m g := fun g => ht.reachable_inv hx hf hc
  refine ⟨hcons, ht.reachable_self hx hf, hreach, ?_, ?_, ?_, hkept, hdropped, honly, ?_⟩
  · intro g hg
    obtain ⟨b, hb⟩ := (hreach g hg).home
    exact ht.isDir hx hf hb
  · exact fun g hg hne => ht.fSize hx hf (hreach g hg) hne
  · exact fun g hg hne s => ht.owned hx hf (hreach g hg) hne s
  · intro g hg i hi x hin hfield
    by_cases hgf : g = f
    · subst hgf
      have hbl : blockOf m' g i = blockOf m g i := (honly (.data i)).resolve_left hi
      have hi' : blockOf m g i ≠ 0 := hbl ▸ hi
      rw [hbl] at hin
      by_cases hd : IsDir m g
      · exact dirByte_of_touch hx hf ht hd hi' hin hfield
      · exact hbyte _ (.inr ⟨hd, i, hi', rfl⟩) x hin
    · have hbl := ht.blockOf hx hf (hreach g hg) hgf i
      rw [hbl] at hi hin
      exact ht.byte hx hf (hreach g hg) hgf (s := .data i) hi hin hfield

lemma release_released (hi : blockOf m f i ≠ 0) : Released f i (i + 1) m (release f i m) := by
  have hx := hm.toExclusive
  obtain ⟨-, h2, h3⟩ := release_view hx hf hi
  refine released_of_touch hm hf (release_touch hx hf hi) (hm.release hf hi)
    (release_cellsFrom hx hf hi) (fun k hk => ?_) (fun k hk hk' => ?_) (fun s => ?_)
    fun c hc x hin => release_byte hx hf hi hc hin
  · rw [h3 k, if_neg (by omega)]
  · rw [h3 k, if_pos (by omega)]
  · cases s with
    | indirect => exact .inr h2
    | data k =>
      rw [owned_data, owned_data, h3 k]
      split
      · exact .inl rfl
      · exact .inr rfl

lemma releaseIndirect_released (hlo : lo ≤ nDirect) (hi : fIndirect m f ≠ 0) :
    Released f lo lo m (releaseIndirect f m) := by
  have hx := hm.toExclusive
  obtain ⟨-, h2, h3⟩ := releaseIndirect_view hx hf hi
  refine released_of_touch hm hf (releaseIndirect_touch hx hf hi) (hm.releaseIndirect hf hi)
    (releaseIndirect_cellsFrom hx hf hi) (fun k hk => ?_) (fun k hk hk' => by omega) (fun s => ?_)
    fun c hc x hin => releaseIndirect_byte hx hf hi hc hin
  · rw [h3 k, if_pos (by omega)]
  · cases s with
    | indirect => exact .inl h2
    | data k =>
      rw [owned_data, owned_data, h3 k]
      split
      · exact .inr rfl
      · exact .inl rfl

omit hm in
lemma freeBlock_owned (hx : Exclusive m) {s : Slot} (hs : owned m f s ≠ 0) :
    freeBlock (owned m f s) m = .ok (setbit m (owned m f s)) := by
  have h1 := hx.owned_lt hf hs
  have h2 := hx.firstData_le hf hs
  have h3 := bitWord_add_le h1
  have hload : Loadable m (bitWord (owned m f s)) 4 := by
    refine .inr (.inl ?_)
    simp only [blockAddr, blkSize] at h3 ⊢
    omega
  rw [freeBlock, if_neg hs, if_pos hload]

omit hm in
lemma fileFreeBlock_eq (hx : Exclusive m) (i : ℕ) :
    fileFreeBlock f i m = .ok (if blockOf m f i = 0 then m else release f i m) := by
  unfold fileFreeBlock
  by_cases hs : HasSlot m f i
  · rw [fileBlockWalk_hasSlot hx hf false hs, blockOf_eq hs]
    show (if get32 m (slotAddr m f i) = 0 then _ else _) = _
    by_cases h0 : get32 m (slotAddr m f i) = 0
    · rw [if_pos h0, if_pos (by rw [h0]; rfl)]
    · have h0' : (get32 m (slotAddr m f i)).toNat ≠ 0 := fun h => h0 (eq_of_toNat_eq h)
      have hne : owned m f (.data i) ≠ 0 := by rwa [owned_data, blockOf_eq hs]
      have hfree := freeBlock_owned hf hx hne
      rw [owned_data, blockOf_eq hs] at hfree
      rw [if_neg h0, if_neg h0', hfree, release, blockOf_eq hs]
      rfl
  · rw [blockOf_of_not hs, if_pos rfl]
    by_cases hr : i < nDirect + nIndirect
    · rw [fileBlockWalk_missing hr hs]
      rfl
    · rw [fileBlockWalk_range false (by omega)]
      rfl

lemma fileFreeBlock_released (i : ℕ) : ∃ m', fileFreeBlock f i m = .ok m' ∧ Released f i (i + 1) m m' := by
  rw [fileFreeBlock_eq hf hm.toExclusive]
  split
  · rename_i h0
    refine ⟨m, rfl, { Released.refl hm hf i with dropped := fun k h1 h2 => ?_ }⟩
    rw [show k = i by omega, h0]
  · rename_i h0
    exact ⟨_, rfl, release_released hm hf h0⟩

end Steps

lemma freeBlocks_released (hm : Consistent m) (hf : Reachable m f) (n lo : ℕ) :
    ∃ m', freeBlocks f n lo m = .ok m' ∧ Released f lo (lo + n) m m' := by
  induction n generalizing lo m with
  | zero => exact ⟨m, rfl, .refl hm hf lo⟩
  | succ n ih =>
    obtain ⟨m₁, h1, hr1⟩ := fileFreeBlock_released hm hf lo
    obtain ⟨m₂, h2, hr2⟩ := ih hr1.consistent hr1.self (lo + 1)
    refine ⟨m₂, ?_, ?_⟩
    · rw [freeBlocks, h1]
      exact h2
    · have hr := hr1.trans hr2 (by omega) le_rfl
      rwa [show max (lo + 1) (lo + 1 + n) = lo + (n + 1) by omega] at hr

lemma ceilBlocks_of_nonneg {z : ℤ} (h : 0 ≤ z) (h' : z < 2 ^ 31) (i : ℕ) :
    i < ceilBlocks z ↔ (blkSize : ℤ) * i < z := by
  obtain ⟨z, rfl⟩ := Int.eq_ofNat_of_zero_le h
  rw [ceilBlocks, intToSize_of_nonneg]
  simp only [blkSize]
  omega

lemma fSize_lt (m : Bytes) (f : ℕ) : fSize m f < 2 ^ 31 := toInt_lt

/-- `file_truncate_blocks` gives back the blocks of the old size that the new one does not need. -/
theorem fileTruncateBlocks_released (hm : Consistent m) (hf : Reachable m f) (newsize : ℤ) :
    ∃ m', fileTruncateBlocks f newsize m = .ok m' ∧
      Released f (ceilBlocks newsize) (max (ceilBlocks newsize) (ceilBlocks (fSize m f))) m m' := by
  obtain ⟨m₁, h1, hr1⟩ := freeBlocks_released hm hf (ceilBlocks (fSize m f) - ceilBlocks newsize) (ceilBlocks newsize)
  rw [show ceilBlocks newsize + (ceilBlocks (fSize m f) - ceilBlocks newsize) =
    max (ceilBlocks newsize) (ceilBlocks (fSize m f)) by omega] at hr1
  unfold fileTruncateBlocks
  simp only [h1, ok_bind]
  split
  · rename_i hcond
    have hr2 := releaseIndirect_released hr1.consistent hr1.self hcond.1 hcond.2
    have hr := hr1.trans hr2 le_rfl (le_max_left _ _)
    refine ⟨releaseIndirect f m₁, ?_, by rwa [max_eq_left (le_max_left _ _)] at hr⟩
    rw [← owned_indirect, freeBlock_owned hr1.self hr1.consistent.toExclusive (s := .indirect) hcond.2]
    rfl
  · exact ⟨m₁, rfl, hr1⟩

lemma toInt_ofInt_size {z : ℤ} (h : 0 ≤ z) (h' : z < 2 ^ 31) : (BitVec.ofInt 32 z).toInt = z := by
  rw [toInt_ofInt, Int.bmod_eq_of_le (by omega) (by omega)]

section

variable (hm : Consistent m) (hf : Reachable m f)
include hm hf

lemma resize_released (hv : IsDir m f → 0 ≤ v.toInt)
    (htail : IsDir m f → ∀ i : ℕ, v.toInt ≤ blkSize * i → blockOf m f i = 0) (lo : ℕ) :
    Released f lo lo m (resize f v m) := by
  have hx := hm.toExclusive
  obtain ⟨-, -, h3⟩ := resize_view (v := v) hx hf
  have hcells : CellsFrom f m (resize f v m) := by
    intro hd i _ hb
    rw [h3 i] at hb ⊢
    refine .inl ⟨?_, rfl⟩
    by_contra hcov
    exact hb (hm.tail f hf hd i hcov)
  refine released_of_touch hm hf resize_touch (hm.resize hf hv htail) hcells (fun k _ => h3 k)
    (fun k hk hk' => by omega) (fun s => .inr (resize_owned hx hf s)) fun c hc x hin => ?_
  have := hx.words_not_inBlock hf (words_sizeField m f) hc
  unfold InBlock at hin
  exact set32_of_out (by omega)

/-- **`file_set_size` and what it does.** It always succeeds. A file that grows keeps all its blocks;
one that gets smaller keeps those the new size needs, and loses the others it had. -/
theorem fileSetSize_spec {z : ℤ} (hz : IsDir m f → 0 ≤ z ∧ z < 2 ^ 31) :
    ∃ m', fileSetSize f z m = .ok m' ∧ fSize m' f = (BitVec.ofInt 32 z).toInt ∧
      ((fSize m f ≤ z ∧ ∀ lo, Released f lo lo m m') ∨ (z < fSize m f ∧
        Released f (ceilBlocks z) (max (ceilBlocks z) (ceilBlocks (fSize m f))) m m')) := by
  unfold fileSetSize
  rcases lt_or_ge z (fSize m f) with hlt | hge
  · obtain ⟨m₁, h, hr⟩ := fileTruncateBlocks_released hm hf z
    refine ⟨resize f (BitVec.ofInt 32 z) m₁, ?_, (resize_view hr.consistent.toExclusive hr.self).1, .inr ⟨hlt, ?_⟩⟩
    · rw [if_pos hlt, h]
      rfl
    have hr' := hr.trans (resize_released (v := BitVec.ofInt 32 z) hr.consistent hr.self ?_ ?_
      (ceilBlocks z)) le_rfl (le_max_left _ _)
    · rwa [max_eq_left (le_max_left _ _)] at hr'
    · intro hd
      obtain ⟨h1, h2⟩ := hz ((hr.isDir f hr.self).mp hd)
      rwa [toInt_ofInt_size h1 h2]
    · intro hd i hi
      have hd' := (hr.isDir f hr.self).mp hd
      obtain ⟨h1, h2⟩ := hz hd'
      rw [toInt_ofInt_size h1 h2] at hi
      have hlo : ¬ i < ceilBlocks z := by
        rw [ceilBlocks_of_nonneg h1 h2]
        omega
      by_cases hcov : Covers m f i
      · refine hr.dropped i (by omega) (lt_of_lt_of_le ?_ (le_max_right _ _))
        rwa [ceilBlocks_of_nonneg (hm.size f hf hd') (fSize_lt m f)]
      · have h0 := hm.tail f hf hd' i hcov
        rcases hr.only (.data i) with h3 | h3
        · exact h3
        · exact h3.trans h0
  · refine ⟨resize f (BitVec.ofInt 32 z) m, ?_, (resize_view hm.toExclusive hf).1, .inl ⟨hge, ?_⟩⟩
    · rw [if_neg (by omega)]
      rfl
    refine resize_released hm hf ?_ ?_
    · intro hd
      obtain ⟨h1, h2⟩ := hz hd
      rwa [toInt_ofInt_size h1 h2]
    · intro hd i hi
      obtain ⟨h1, h2⟩ := hz hd
      rw [toInt_ofInt_size h1 h2] at hi
      exact hm.tail f hf hd i fun hcov => by unfold Covers at hcov; omega

lemma fileSetSize_released {z : ℤ} (hz : IsDir m f → 0 ≤ z ∧ z < 2 ^ 31) :
    ∃ m' lo hi, fileSetSize f z m = .ok m' ∧ fSize m' f = (BitVec.ofInt 32 z).toInt ∧ Released f lo hi m m' := by
  obtain ⟨m', h, hs, ⟨-, hr⟩ | ⟨-, hr⟩⟩ := fileSetSize_spec hm hf hz
  · exact ⟨m', 0, 0, h, hs, hr 0⟩
  · exact ⟨m', _, _, h, hs, hr⟩

end

end Jos.Fs
