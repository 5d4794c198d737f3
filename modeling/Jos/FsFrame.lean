import Jos.FsConsistent

/-!
What a file operation leaves as it is.

Reading, writing and looking up lose no file, change no size and take no block away. What they may
change is the data of one file, and of the others the bytes of its record only.
-/

namespace Jos.Fs

open ByteMem

variable {m m' m'' : Bytes} {f g b c i k x : ℕ}

def OffDisk (x : ℕ) : Prop := x < diskMap ∨ diskMap + diskSize ≤ x

/-- The files stay, with their sizes and their blocks; only `f` may get more blocks, and only its data may
change. -/
structure Stays (f : ℕ) (m m' : Bytes) : Prop where
  exclusive : Exclusive m'
  nblocks : nblocks m' = nblocks m
  reach : ∀ g, Reachable m' g ↔ Reachable m g
  isDir : ∀ g, Reachable m g → (IsDir m' g ↔ IsDir m g)
  size : ∀ g, Reachable m g → fSize m' g = fSize m g
  keeps : ∀ g, Reachable m g → ∀ s, owned m g s ≠ 0 → owned m' g s = owned m g s
  other : ∀ g, Reachable m g → g ≠ f → ∀ s, owned m' g s = owned m g s
  free : ∀ b, blockIsFree m' b → blockIsFree m b
  taken : ∀ s, owned m f s = 0 → owned m' f s ≠ 0 → blockIsFree m (owned m' f s)
  byte : ∀ g, Reachable m g → g ≠ f → ∀ i, blockOf m g i ≠ 0 → ∀ x, InBlock (blockOf m g i) x →
    ¬ Field f x → m' x = m x
  freeByte : ∀ b, blockIsFree m' b → ∀ x, InBlock b x → m' x = m x

/-- The files have their data too, and the blocks `f` gets have the bytes they had when they were
free. -/
structure Grows (f : ℕ) (m m' : Bytes) : Prop extends Stays f m m' where
  data : ∀ i, blockOf m f i ≠ 0 → ∀ x, InBlock (blockOf m f i) x → ¬ Field f x → m' x = m x
  fresh : ∀ i, blockOf m f i = 0 → blockOf m' f i ≠ 0 → ∀ x, InBlock (blockOf m' f i) x → m' x = m x
  off : ∀ x, OffDisk x → m' x = m x

lemma Stays.refl (hm : Exclusive m) (f : ℕ) : Stays f m m where
  exclusive := hm
  nblocks := rfl
  reach _ := Iff.rfl
  isDir _ _ := Iff.rfl
  size _ _ := rfl
  keeps _ _ _ _ := rfl
  other _ _ _ _ := rfl
  free _ h := h
  taken _ h h' := absurd h h'
  byte _ _ _ _ _ _ _ _ := rfl
  freeByte _ _ _ _ := rfl

lemma Grows.refl (hm : Exclusive m) (f : ℕ) : Grows f m m :=
  ⟨.refl hm f, fun _ _ _ _ _ => rfl, fun _ h h' => absurd h h', fun _ _ => rfl⟩

lemma Stays.blockOf_ne (h : Stays f m m') (hg : Reachable m g) (hi : blockOf m g i ≠ 0) :
    blockOf m' g i = blockOf m g i := h.keeps g hg (.data i) hi

lemma Stays.trans (hf : Reachable m f) (h : Stays f m m') (h' : Stays f m' m'') : Stays f m m'' where
  exclusive := h'.exclusive
  nblocks := h'.nblocks.trans h.nblocks
  reach g := (h'.reach g).trans (h.reach g)
  isDir g hg := (h'.isDir g ((h.reach g).mpr hg)).trans (h.isDir g hg)
  size g hg := (h'.size g ((h.reach g).mpr hg)).trans (h.size g hg)
  keeps g hg s hs := by
    have h1 := h.keeps g hg s hs
    rw [h'.keeps g ((h.reach g).mpr hg) s (h1 ▸ hs), h1]
  other g hg hne s := (h'.other g ((h.reach g).mpr hg) hne s).trans (h.other g hg hne s)
  free b hb := h.free b (h'.free b hb)
  taken s h0 hs := by
    by_cases h1 : owned m' f s = 0
    · exact h.free _ (h'.taken s h1 hs)
    · have h2 := h'.keeps f ((h.reach f).mpr hf) s h1
      rw [h2]
      exact h.taken s h0 h1
  byte g hg hne i hi x hx hfield := by
    have h1 := h.blockOf_ne hg hi
    rw [h'.byte g ((h.reach g).mpr hg) hne i (h1 ▸ hi) x (h1 ▸ hx) hfield]
    exact h.byte g hg hne i hi x hx hfield
  freeByte b hb x hx := (h'.freeByte b hb x hx).trans (h.freeByte b (h'.free b hb) x hx)

lemma Exclusive.free_not_field (hm : Exclusive m) (hf : Reachable m f) (hb : blockIsFree m b)
    (hx : InBlock b x) : ¬ Field f x := by
  intro hfield
  obtain ⟨c, hc⟩ := hf.home
  have hin : InBlock c x := hc.inBlock (by unfold Field at hfield; omega)
    (by simp only [Field, sizeofFile] at hfield ⊢; omega)
  exact hm.home_not_free hc (hin.unique hx ▸ hb)

lemma Grows.trans (hm : Exclusive m) (hf : Reachable m f) (h : Grows f m m') (h' : Grows f m' m'') : Grows f m m'' where
  toStays := h.toStays.trans hf h'.toStays
  data i hi x hx hfield := by
    have h1 := h.blockOf_ne hf hi
    rw [h'.data i (h1 ▸ hi) x (h1 ▸ hx) hfield]
    exact h.data i hi x hx hfield
  fresh i h0 hi x hx := by
    by_cases h1 : blockOf m' f i = 0
    · rw [h'.fresh i h1 hi x hx]
      exact h.freeByte _ (h'.taken (.data i) h1 hi) x hx
    · have h2 := h'.blockOf_ne ((h.reach f).mpr hf) h1
      rw [h2] at hx
      rw [h'.data i h1 x hx (hm.free_not_field hf (h.taken (.data i) h0 h1) hx)]
      exact h.fresh i h0 h1 x hx
  off x hx := (h'.off x hx).trans (h.off x hx)

def Filled (m : Bytes) (f : ℕ) : Prop := ∀ i, Covers m f i → blockOf m f i ≠ 0

lemma Stays.filled (h : Stays f m m') (hg : Reachable m g) (hfill : Filled m g) : Filled m' g := by
  intro i hi
  rw [Covers, h.size g hg] at hi
  rw [h.blockOf_ne hg (hfill i hi)]
  exact hfill i hi

lemma Stays.freeZero (h : Stays f m m') (hz : FreeZero m) : FreeZero m' :=
  fun b hb x hx => (h.freeByte b hb x hx).trans (hz b (h.free b hb) x hx)

section Touch

variable (hm : Exclusive m) (hf : Reachable m f) (ht : Touch f m m')

include hm hf ht

lemma dirByte_of_touch (hd : IsDir m f) (hi : blockOf m f i ≠ 0) (hx : InBlock (blockOf m f i) x)
    (hfield : ¬ Field f x) : m' x = m x := by
  have hdisk := hx.onDisk (lt_of_lt_of_le (hm.owned_lt hf (s := .data i) hi) hm.small)
  refine ht x hdisk.1 hdisk.2 fun hz => ?_
  cases hz with
  | bitmap h h' =>
    have := hm.firstData_le hf (s := .data i) hi
    simp only [owned_data, InBlock, blockAddr, diskMap, blkSize] at this hx h'
    omega
  | field h => exact hfield h
  | free b hb hfr => exact hm.owned_ne_of_free hf hfr (.data i) (hx.unique hb)
  | indirect hin hne =>
    have := (hm.single f f hf hf (.data i) .indirect hi (hx.unique hin)).2
    cases this
  | data k hk hne hnd => exact hnd hd

lemma stays_of_touch (hex : Exclusive m') (hc : CellsFrom f m m') (hk : CellsKept f m m')
    (hsize : fSize m' f = fSize m f) (howned : ∀ s, owned m f s ≠ 0 → owned m' f s = owned m f s)
    (htaken : ∀ s, owned m f s = 0 → owned m' f s ≠ 0 → blockIsFree m (owned m' f s))
    (hfree : ∀ b, blockIsFree m' b → blockIsFree m b)
    (hbyte : ∀ b, blockIsFree m' b → ∀ x, InBlock b x → m' x = m x) : Stays f m m' where
  exclusive := hex
  nblocks := ht.nblocks hm hf
  reach g := ⟨ht.reachable_inv hm hf hc, ht.reachable_of hm hf hk⟩
  isDir g hg := by
    obtain ⟨b, hb⟩ := hg.home
    exact ht.isDir hm hf hb
  size g hg := by
    by_cases hgf : g = f
    · rw [hgf, hsize]
    · exact ht.fSize hm hf hg hgf
  keeps g hg s hs := by
    by_cases hgf : g = f
    · subst hgf
      exact howned s hs
    · exact ht.owned hm hf hg hgf s
  other g hg hne s := ht.owned hm hf hg hne s
  free := hfree
  taken := htaken
  byte g hg hne i hi x hx hfield := ht.byte hm hf hg hne (s := .data i) hi hx hfield
  freeByte := hbyte

end Touch

section Steps

variable (hm : Exclusive m) (hf : Reachable m f)

include hm hf

lemma attach_grows (hi : HasSlot m f i) (h0 : blockOf m f i = 0) (hb : blockIsFree m b)
    (hz : IsDir m f → Zeroed m b) : Grows f m (attach f i b m) := by
  obtain ⟨h1, h2, h3⟩ := attach_view hm hf hi hb
  have ht := attach_touch hi hb
  have hown := attach_owned hm hf hi hb
  have hfree := attach_blockIsFree hm hf hi hb
  have hst : Stays f m (attach f i b m) := by
    refine stays_of_touch hm hf ht (attach_exclusive hm hf hi hb hz) (attach_cellsFrom hm hf hi hb hz)
      (attach_cellsKept hm hf hi hb h0) h1 (fun s hs => ?_) (fun s h hs => ?_)
      (fun c hc => ((hfree c).mp hc).1) fun c hc x hx => ?_
    · rw [hown s, if_neg]
      rintro rfl
      exact hs h0
    · rw [hown s] at hs ⊢
      split_ifs at hs ⊢
      · exact hb
      · exact absurd h hs
    · exact attach_byte hm hf hi hb (.inl ((hfree c).mp hc).1) hx
  refine ⟨hst, fun k hk x hx hfield => ?_, fun k hk hk' x hx => ?_, fun x hx => ?_⟩
  · by_cases hd : IsDir m f
    · exact dirByte_of_touch hm hf ht hd hk hx hfield
    · exact attach_byte hm hf hi hb (.inr ⟨hd, k, hk, rfl⟩) hx
  · exact attach_byte hm hf hi hb (.inl (hst.taken (.data k) hk hk')) hx
  · obtain ⟨w1, w2⟩ := hm.words_onDisk hf (words_slotAddr hi)
    have h4 := bitWord_add_le hb.1
    have h5 := hm.small
    rw [attach, clrbit, set32_of_out, set32_of_out]
    · simp only [OffDisk, bitWord, bitmapAddr, firstData, blockAddr, diskMap, diskSize, blkSize] at hx h4 h5 ⊢
      omega
    · unfold OffDisk at hx
      omega

lemma attachIndirect_grows (h0 : fIndirect m f = 0) (hb : blockIsFree m b) : Grows f m (attachIndirect f b m) := by
  obtain ⟨h1, h2, h3⟩ := attachIndirect_view hm hf h0 hb
  have ht : Touch f m (attachIndirect f b m) := attachIndirect_touch hb
  have hown := attachIndirect_owned hm hf h0 hb
  have hfree := attachIndirect_blockIsFree hm hf hb
  have hst : Stays f m (attachIndirect f b m) := by
    refine stays_of_touch hm hf ht (attachIndirect_exclusive hm hf h0 hb) (attachIndirect_cellsFrom hm hf h0 hb)
      (attachIndirect_cellsKept hm hf h0 hb) h1 (fun s hs => ?_) (fun s h hs => ?_)
      (fun c hc => ((hfree c).mp hc).1) fun c hc x hx => ?_
    · rw [hown s, if_neg]
      rintro rfl
      exact hs h0
    · rw [hown s] at hs ⊢
      split_ifs at hs ⊢
      · exact hb
      · exact absurd h hs
    · obtain ⟨hc, hne⟩ := (hfree c).mp hc
      exact attachIndirect_byte hm hf hb (.inl hc) hne hx
  refine ⟨hst, fun k hk x hx hfield => ?_, fun k hk hk' x hx => ?_, fun x hx => ?_⟩
  · by_cases hd : IsDir m f
    · exact dirByte_of_touch hm hf ht hd hk hx hfield
    · exact attachIndirect_byte hm hf hb (.inr ⟨hd, k, hk, rfl⟩) (hm.owned_ne_of_free hf hb (.data k)) hx
  · rw [h3 k] at hk'
    exact absurd hk hk'
  · obtain ⟨w1, w2⟩ := hm.words_onDisk hf (words_indirectField m f)
    have h4 := bitWord_add_le hb.1
    have h5 := hm.small
    have h6 := hb.1
    rw [attachIndirect, fill_of_out, clrbit, set32_of_out, set32_of_out]
    · simp only [OffDisk, bitWord, bitmapAddr, firstData, blockAddr, diskMap, diskSize, blkSize] at hx h4 h5 ⊢
      omega
    · unfold OffDisk at hx
      omega
    · simp only [OffDisk, blockAddr, diskMap, diskSize, blkSize] at hx h5 ⊢
      omega

lemma DataWrite.stays (hw : DataWrite f m m') : Stays f m m' := by
  refine stays_of_touch hm hf hw.touch (hw.exclusive hm hf) (hw.cellsFrom hm hf) (hw.cellsKept hm hf)
    (hw.view hm hf).1 (fun s _ => hw.owned hm hf s) (fun s h hs => ?_)
    (fun c hc => (hw.blockIsFree hm hf c).mp hc)
    fun c hc x hx => hw.free_byte hm hf ((hw.blockIsFree hm hf c).mp hc) hx
  rw [hw.owned hm hf] at hs
  exact absurd h hs

/-- **`file_get_block` loses nothing.** -/
theorem GetBlock.grows {r : Except ℤ ℕ} (h : GetBlock f i m m' r)
    (hz : IsDir m f → FreeZero m ∨ Fs.blockOf m f i ≠ 0) : Grows f m m' := by
  have hz' : Fs.blockOf m f i = 0 → IsDir m f → FreeZero m := fun h0 hd => (hz hd).resolve_right fun h => h h0
  cases h with
  | range | found | full => exact .refl hm f
  | taken b hi h0 hb => exact attach_grows hm hf hi h0 hb fun hd => hz' h0 hd b hb
  | takenTwo c b hr hn hc hb =>
    have h0 : fIndirect m f = 0 := ((not_hasSlot_iff hr).mp hn).2
    have h1 := attachIndirect_grows hm hf h0 hc
    have hf' := (h1.reach f).mpr hf
    have h2 : blockOf (attachIndirect f c m) f i = 0 := by
      rw [(attachIndirect_view hm hf h0 hc).2.2 i, blockOf_of_not hn]
    exact h1.trans hm hf (attach_grows h1.exclusive hf' (hasSlot_attachIndirect hm hf hr h0 hc) h2 hb
      fun hd => h1.freeZero (hz' (blockOf_of_not hn) ((h1.isDir f hf).mp hd)) b hb)
  | indirectOnly c hr hn hc h =>
    exact attachIndirect_grows hm hf ((not_hasSlot_iff hr).mp hn).2 hc

lemma GetBlock.blockOf {blk : ℕ} (h : GetBlock f i m m' (.ok blk)) :
    Fs.blockOf m' f i ≠ 0 ∧ blk = blockAddr (Fs.blockOf m' f i) := by
  cases h with
  | found h => exact ⟨h, rfl⟩
  | taken b hi h0 hb =>
    rw [(attach_view hm hf hi hb).2.2 i, if_pos rfl]
    exact ⟨hm.ne_zero_of_free hb, rfl⟩
  | takenTwo c b hr hn hc hb =>
    have h0 : fIndirect m f = 0 := ((not_hasSlot_iff hr).mp hn).2
    have h1 := attachIndirect_grows hm hf h0 hc
    rw [(attach_view h1.exclusive ((h1.reach f).mpr hf) (hasSlot_attachIndirect hm hf hr h0 hc) hb).2.2 i, if_pos rfl]
    exact ⟨h1.exclusive.ne_zero_of_free hb, rfl⟩

end Steps

lemma GetBlock.consistent {r : Except ℤ ℕ} (hm : Consistent m) (hf : Reachable m f)
    (hs : IsDir m f → Covers m f i) (hz : IsDir m f → FreeZero m ∨ Fs.blockOf m f i ≠ 0)
    (h : GetBlock f i m m' r) : Consistent m' := by
  have hx := hm.toExclusive
  have hz' : Fs.blockOf m f i = 0 → IsDir m f → FreeZero m := fun h0 hd => (hz hd).resolve_right fun h => h h0
  cases h with
  | range | found | full => exact hm
  | taken b hi h0 hb => exact hm.attach hf hi hs hb fun hd => hz' h0 hd b hb
  | takenTwo c b hr hn hc hb =>
    have h0 : fIndirect m f = 0 := ((not_hasSlot_iff hr).mp hn).2
    have h1 := attachIndirect_grows hx hf h0 hc
    have hs' : IsDir (Fs.attachIndirect f c m) f → Covers (Fs.attachIndirect f c m) f i := by
      rw [h1.isDir f hf, Covers, h1.size f hf]
      exact hs
    exact (hm.attachIndirect hf h0 hc).attach ((h1.reach f).mpr hf) (hasSlot_attachIndirect hx hf hr h0 hc) hs' hb
      fun hd => h1.freeZero (hz' (blockOf_of_not hn) ((h1.isDir f hf).mp hd)) b hb
  | indirectOnly c hr hn hc h => exact hm.attachIndirect hf ((not_hasSlot_iff hr).mp hn).2 hc

end Jos.Fs
