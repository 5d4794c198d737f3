import Jos.FsContents

/-!
A directory that is written like a file.

What is written to a directory may be taken for records afterwards, so that its blocks need not have
one owner each any more. The functions that get a block of a file do not look at records: they do the
same in a memory where the file is no directory, its shadow, and there the owners stay.
-/

namespace Jos.Fs

open ByteMem CArray List Nat

variable {m m' m₁ M : Bytes} {f g d e i j b c x a p q stop buf : ℕ} {r : Except ℤ ℕ}

/-- The file keeps its size and the blocks it has. -/
structure SlotsKept (f : ℕ) (m m' : Bytes) : Prop where
  size : fSize m' f = fSize m f
  blocks : ∀ i, blockOf m f i ≠ 0 → blockOf m' f i = blockOf m f i

lemma SlotsKept.refl (f : ℕ) (m : Bytes) : SlotsKept f m m := ⟨rfl, fun _ _ => rfl⟩

lemma SlotsKept.trans {m'' : Bytes} (h : SlotsKept f m m') (h' : SlotsKept f m' m'') : SlotsKept f m m'' where
  size := h'.size.trans h.size
  blocks i hi := by rw [h'.blocks i (by rwa [h.blocks i hi]), h.blocks i hi]

section

variable (hm : Exclusive m) (hf : Reachable m f)
include hm hf

lemma attach_slotsKept (hi : HasSlot m f i) (h0 : blockOf m f i = 0) (hb : blockIsFree m b) :
    SlotsKept f m (attach f i b m) := by
  obtain ⟨hsize, -, hblocks⟩ := attach_view hm hf hi hb
  refine ⟨hsize, fun j hj => ?_⟩
  rw [hblocks j, if_neg]
  rintro rfl
  exact hj h0

lemma attachIndirect_slotsKept (h0 : fIndirect m f = 0) (hb : blockIsFree m b) :
    SlotsKept f m (attachIndirect f b m) := by
  obtain ⟨hsize, -, hblocks⟩ := attachIndirect_view hm hf h0 hb
  exact ⟨hsize, fun j _ => hblocks j⟩

end

/-- What a file has is what its words say. -/
lemma view_of_words (h : ∀ a, Words m f a → get32 m' a = get32 m a) :
    fSize m' f = fSize m f ∧ fIndirect m' f = fIndirect m f ∧ ∀ i, blockOf m' f i = blockOf m f i := by
  have hind : fIndirect m' f = fIndirect m f := congrArg BitVec.toNat (h _ (words_indirectField m f))
  have hslot : ∀ i, HasSlot m' f i ↔ HasSlot m f i := fun i => by
    unfold HasSlot
    rw [hind]
  refine ⟨congrArg BitVec.toInt (h _ (words_sizeField m f)), hind, fun i => ?_⟩
  by_cases hi : HasSlot m f i
  · have haddr : slotAddr m' f i = slotAddr m f i := by
      unfold slotAddr
      rw [hind]
    rw [blockOf_eq hi, blockOf_eq ((hslot i).mpr hi), haddr, h _ (words_slotAddr hi)]
  · rw [blockOf_of_not hi, blockOf_of_not ((hslot i).not.mpr hi)]

/-! ### The type of a file -/

section AsFile

variable (hm : Exclusive m) (hf : Reachable m f)
include hm hf

lemma type_not_header : superAddr + 8 ≤ f + 132 := by
  obtain ⟨b, -, h1, -, h3, -⟩ := hm.record hf
  have h4 := two_le_firstData m
  have h5 : blockAddr b = diskMap + 4096 * b := rfl
  have h6 : superAddr = diskMap + 4096 := rfl
  omega

lemma type_not_bitmap : f + 136 ≤ bitmapAddr ∨ blockAddr (firstData m) ≤ f + 132 := by
  obtain ⟨b, -, h1, h2, h3, -⟩ := hm.record hf
  simp only [bitmapAddr, blockAddr, blkSize] at h1 h2 ⊢
  omega

/-- The type of a file is in no other word that is looked at. -/
lemma type_not_words (hg : Reachable m g) (ha : Words m g a) : a + 4 ≤ f + 132 ∨ f + 136 ≤ a := by
  obtain ⟨b, hb, h1, h2, -⟩ := hm.record hf
  have hrecord : g = f ∨ f + 256 ≤ g ∨ g + 256 ≤ f := by
    by_cases hgf : g = f
    · exact .inl hgf
    · obtain ⟨c, hc⟩ := hg.home
      exact .inr (hm.home_disjoint hb hc (Ne.symm hgf))
  rcases ha with ha | ha | ⟨hne, ha⟩
  · omega
  · omega
  · have hother : fIndirect m g ≠ b := fun heq => by
      obtain ⟨-, j, hj⟩ := hm.home_owner hb hg (s := .indirect) heq
      cases hj
    simp only [blockAddr, blkSize] at h1 h2 ha
    omega

end AsFile

/-! ### The shadow -/

/-- **`M` is a shadow of the memory**: the file is no directory in it, and on the disk it differs in the type of
the file and in the bytes of its blocks only. -/
structure Shadow (f : ℕ) (M m : Bytes) : Prop where
  exclusive : Exclusive M
  reachable : Reachable M f
  file : ¬ IsDir M f
  agree : ∀ x, ¬ OffDisk x → x < f + 132 ∨ f + 136 ≤ x →
    (∀ i, blockOf M f i ≠ 0 → ¬ InBlock (blockOf M f i) x) → m x = M x

lemma diskaddr_eq (h : diskaddr m b = .ok a) : a = blockAddr b := by
  unfold diskaddr at h
  split at h
  · cases h
  · exact (Except.ok.inj h).symm

lemma set32_congr {v : BitVec 32} (h : m x = M x) : set32 m a v x = set32 M a v x := by
  unfold set32
  rw [h]

namespace Shadow

variable (h : Shadow f M m)
include h

lemma firstData_le (hi : blockOf M f i ≠ 0) : firstData M ≤ blockOf M f i :=
  h.exclusive.firstData_le h.reachable (s := .data i) hi

lemma words (ha : Words M f a) : get32 m a = get32 M a := by
  have htype := type_not_words h.exclusive h.reachable h.reachable ha
  have hdisk := h.exclusive.words_onDisk h.reachable ha
  refine Same.get32 fun x h1 h2 => h.agree x (by unfold OffDisk; omega) (by omega) fun i hi hx => ?_
  have hout := h.exclusive.words_not_inBlock h.reachable ha (.inr ⟨h.file, i, hi, rfl⟩)
  unfold InBlock at hx
  omega

lemma view : fSize m f = fSize M f ∧ fIndirect m f = fIndirect M f ∧ ∀ i, blockOf m f i = blockOf M f i :=
  view_of_words fun _ => h.words

lemma hasSlot_iff : HasSlot m f i ↔ HasSlot M f i := by
  unfold HasSlot
  rw [h.view.2.1]

lemma slotAddr_eq (i : ℕ) : slotAddr m f i = slotAddr M f i := by
  unfold slotAddr
  rw [h.view.2.1]

lemma nblocks_eq : nblocks m = nblocks M := by
  have htype := type_not_header h.exclusive h.reachable
  have h5 : superAddr = diskMap + 4096 := rfl
  have h6 : diskSize = 0xC0000000 := rfl
  unfold nblocks
  rw [Same.get32 fun x h1 h2 => h.agree x (by unfold OffDisk; omega) (by omega) fun i hi hx => ?_]
  have h3 := h.firstData_le hi
  have h4 := two_le_firstData M
  simp only [InBlock, blockAddr, blkSize] at hx
  omega

lemma bitmap (h1 : bitmapAddr ≤ x) (h2 : x < blockAddr (firstData M)) : m x = M x := by
  have htype := type_not_bitmap h.exclusive h.reachable
  have hdisk : ¬ OffDisk x := by
    have hsmall := h.exclusive.small
    simp only [OffDisk, bitmapAddr, blockAddr, firstData, diskMap, diskSize, blkSize] at h1 h2 hsmall ⊢
    omega
  refine h.agree x hdisk (by omega) fun i hi hx => ?_
  have h3 := h.firstData_le hi
  simp only [InBlock, blockAddr, blkSize] at h2 hx
  omega

lemma blockIsFree_iff (b : ℕ) : blockIsFree m b ↔ blockIsFree M b :=
  blockIsFree_congr h.nblocks_eq (fun _ => h.bitmap) b

lemma bitWord_eq (hb : b < nblocks M) : get32 m (bitWord b) = get32 M (bitWord b) := by
  have h1 := bitmapAddr_le_bitWord b
  have h2 := bitWord_add_le hb
  exact Same.get32 fun x h3 h4 => h.bitmap (by omega) (by omega)

lemma clrbit_agree (hb : blockIsFree M b) (hx : m x = M x) : clrbit m b x = clrbit M b x := by
  unfold clrbit
  rw [h.bitWord_eq hb.1]
  exact set32_congr hx

lemma slotsKept {M₁ : Bytes} (h₁ : Shadow f M₁ m₁) (hk : SlotsKept f M M₁) : SlotsKept f m m₁ where
  size := by rw [h₁.view.1, h.view.1, hk.size]
  blocks i hi := by
    rw [h.view.2.2] at hi ⊢
    rw [h₁.view.2.2, hk.blocks i hi]

/-- A write to a block of the file -/
lemma write (hi : blockOf M f i ≠ 0) :
    Shadow f M ((fromBuf (blockAddr (blockOf M f i) + p % blkSize) buf (chunk stop p)).apply m) where
  exclusive := h.exclusive
  reachable := h.reachable
  file := h.file
  agree x hdisk hx hblocks := by
    rw [← h.agree x hdisk hx hblocks]
    have h1 := chunk_inBlock stop p
    have h2 := hblocks i hi
    rw [InBlock, blockAddr_succ] at h2
    exact move_of_out (by simp only [fromBuf]; omega)

/-- A write to other memory -/
lemma off {v : Move} (hv : ∀ k < v.len, OffDisk (v.dst + k)) : Shadow f M (v.apply m) where
  exclusive := h.exclusive
  reachable := h.reachable
  file := h.file
  agree x hdisk hx hblocks := by
    rw [← h.agree x hdisk hx hblocks]
    refine move_of_out ?_
    by_contra hin
    have hoff := hv (x - v.dst) (by omega)
    rw [Nat.add_sub_cancel' (by omega)] at hoff
    exact hdisk hoff

/-- A longer file -/
lemma resize (v : BitVec 32) : Shadow f (resize f v M) (Fs.resize f v m) := by
  have hsized : Sized f v.toInt M (Fs.resize f v M) := resize_sized h.exclusive h.reachable h.file
  refine ⟨hsized.exclusive, (hsized.reach f).mpr h.reachable, hsized.isDir, fun x hdisk hx hblocks => ?_⟩
  refine set32_congr (h.agree x hdisk hx fun i hi => ?_)
  have hown := hsized.owned (.data i)
  rw [owned_data, owned_data] at hown
  rw [← hown] at hi ⊢
  exact hblocks i hi

lemma attach (hi : HasSlot M f i) (h0 : blockOf M f i = 0) (hb : blockIsFree M b) :
    Shadow f (attach f i b M) (Fs.attach f i b m) := by
  have hgrows := attach_grows h.exclusive h.reachable hi h0 hb fun hd => absurd hd h.file
  have hkept := attach_slotsKept h.exclusive h.reachable hi h0 hb
  refine ⟨hgrows.exclusive, (hgrows.reach f).mpr h.reachable,
    fun hd => h.file ((hgrows.isDir f h.reachable).mp hd), fun x hdisk hx hblocks => ?_⟩
  unfold Fs.attach
  rw [h.slotAddr_eq]
  refine set32_congr (h.clrbit_agree hb (h.agree x hdisk hx fun j hj => ?_))
  have hown := hkept.blocks j hj
  rw [← hown] at hj ⊢
  exact hblocks j hj

lemma attachIndirect (h0 : fIndirect M f = 0) (hb : blockIsFree M b) :
    Shadow f (attachIndirect f b M) (Fs.attachIndirect f b m) := by
  have hgrows := attachIndirect_grows h.exclusive h.reachable h0 hb
  have hkept := attachIndirect_slotsKept h.exclusive h.reachable h0 hb
  refine ⟨hgrows.exclusive, (hgrows.reach f).mpr h.reachable,
    fun hd => h.file ((hgrows.isDir f h.reachable).mp hd), fun x hdisk hx hblocks => ?_⟩
  have hbelow : set32 (clrbit m b) (indirectField f) (BitVec.ofNat 32 b) x =
      set32 (clrbit M b) (indirectField f) (BitVec.ofNat 32 b) x := by
    refine set32_congr (h.clrbit_agree hb (h.agree x hdisk hx fun j hj => ?_))
    have hown := hkept.blocks j hj
    rw [← hown] at hj ⊢
    exact hblocks j hj
  unfold Fs.attachIndirect fill
  rw [hbelow]

end Shadow

/-- A block is taken for the block numbers. -/
lemma walk_takes (hr : i < nDirect + nIndirect) (hd : ¬ i < nDirect) (h0 : fIndirect m f = 0) (hb : b < nblocks m)
    (hne : b ≠ 0) (ha : allocBlock m = (clrbit m b, b)) (h : fileBlockWalk f i true m = .ok (m₁, r)) :
    m₁ = attachIndirect f b m ∧ r = .ok (slotAddr m₁ f i) := by
  unfold fileBlockWalk at h
  rw [if_neg (by omega), if_neg hd, if_pos h0, if_pos rfl, ha] at h
  dsimp only at h
  rw [if_neg hne] at h
  obtain ⟨a, ha', h⟩ := bind_eq_ok.mp h
  obtain ⟨a', ha'', h⟩ := bind_eq_ok.mp h
  cases h
  have hind : fIndirect (set32 (clrbit m b) (indirectField f) (BitVec.ofNat 32 b)) f = b := by
    unfold fIndirect
    rw [get32_set32, toNat_ofNat_block hb]
  rw [hind] at ha'
  obtain rfl := diskaddr_eq ha'
  refine ⟨rfl, ?_⟩
  rw [diskaddr_eq ha'', slotAddr, if_neg hd]

/-- A block was had, or not: the file has a shadow again, and its old blocks. -/
def Gets (f i : ℕ) (M m₁ : Bytes) (r : Except ℤ ℕ) : Prop :=
  ∃ M₁, Shadow f M₁ m₁ ∧ SlotsKept f M M₁ ∧
    ∀ blk, r = .ok blk → blockOf M₁ f i ≠ 0 ∧ blk = blockAddr (blockOf M₁ f i)

namespace Shadow

variable (h : Shadow f M m)
include h

lemma getSlot (hi : HasSlot M f i) (hg : Fs.getSlot f i m = .ok (m₁, r)) : Gets f i M m₁ r := by
  have heq := blockOf_eq (h.hasSlot_iff.mpr hi)
  rw [h.view.2.2] at heq
  unfold Fs.getSlot at hg
  by_cases h0 : blockOf M f i = 0
  · have hz : get32 m (slotAddr m f i) = 0 := BitVec.eq_of_toNat_eq (heq.symm.trans h0)
    rw [if_pos hz] at hg
    rcases allocBlock_cases m with ⟨b, hb, ha⟩ | ⟨-, ha⟩
    · have hbM := (h.blockIsFree_iff b).mp hb
      have hne := h.exclusive.ne_zero_of_free hbM
      rw [ha] at hg
      dsimp only at hg
      rw [if_neg hne] at hg
      obtain ⟨blk, hblk, hg⟩ := bind_eq_ok.mp hg
      cases hg
      have hblk := diskaddr_eq hblk
      rw [get32_set32, toNat_ofNat_block hb.1] at hblk
      have hown : blockOf (Fs.attach f i b M) f i = b := by
        rw [(attach_view h.exclusive h.reachable hi hbM).2.2 i, if_pos rfl]
      refine ⟨_, h.attach hi h0 hbM, attach_slotsKept h.exclusive h.reachable hi h0 hbM, ?_⟩
      rintro _ ⟨⟩
      rw [hown]
      exact ⟨hne, hblk⟩
    · rw [ha] at hg
      dsimp only at hg
      rw [if_pos rfl] at hg
      cases hg
      exact ⟨M, h, .refl f M, nofun⟩
  · have hz : get32 m (slotAddr m f i) ≠ 0 := fun hz => h0 (by rw [heq, hz]; rfl)
    rw [if_neg hz] at hg
    obtain ⟨blk, hblk, hg⟩ := bind_eq_ok.mp hg
    cases hg
    refine ⟨M, h, .refl f M, ?_⟩
    rintro _ ⟨⟩
    rw [← heq] at hblk
    exact ⟨h0, diskaddr_eq hblk⟩

/-- **`file_get_block`** does what it does in the shadow. -/
lemma fileGetBlock (hg : Fs.fileGetBlock f i m = .ok (m₁, r)) : Gets f i M m₁ r := by
  by_cases hr : i < nDirect + nIndirect
  swap
  · rw [fileGetBlock_of_error (fileBlockWalk_range true (by omega))] at hg
    cases hg
    exact ⟨M, h, .refl f M, nofun⟩
  by_cases hi : HasSlot M f i
  · -- the slot is there
    have hwalk : fileBlockWalk f i true m = .ok (m, .ok (slotAddr m f i)) := by
      unfold fileBlockWalk slotAddr
      rw [if_neg (by omega)]
      by_cases hd : i < nDirect
      · rw [if_pos hd, if_pos hd]
      · have hind : fIndirect M f ≠ 0 := (hi.resolve_left hd).2
        have hlt := h.exclusive.owned_lt h.reachable (s := .indirect) hind
        rw [if_neg hd, if_neg hd, h.view.2.1, if_neg hind, diskaddr_ok hind (by rw [h.nblocks_eq]; exact hlt)]
        rfl
    rw [fileGetBlock_of_walk hwalk] at hg
    exact h.getSlot hi hg
  · obtain ⟨hd, h0⟩ := (not_hasSlot_iff hr).mp hi
    have h0m : fIndirect m f = 0 := by rw [h.view.2.1, h0]
    rcases allocBlock_cases m with ⟨b, hb, ha⟩ | ⟨hfull, -⟩
    · have hbM := (h.blockIsFree_iff b).mp hb
      have hne := h.exclusive.ne_zero_of_free hbM
      have hgrown := h.attachIndirect h0 hbM
      have hi₁ := hasSlot_attachIndirect h.exclusive h.reachable hr h0 hbM
      have hbind := hg
      unfold Fs.fileGetBlock at hbind
      obtain ⟨⟨m₂, r₂⟩, hwalk, -⟩ := bind_eq_ok.mp hbind
      obtain ⟨rfl, rfl⟩ := walk_takes hr hd h0m hb.1 hne ha hwalk
      rw [fileGetBlock_of_walk hwalk] at hg
      obtain ⟨M₁, h₁, hk, hblk⟩ := hgrown.getSlot hi₁ hg
      exact ⟨M₁, h₁, (attachIndirect_slotsKept h.exclusive h.reachable h0 hbM).trans hk, hblk⟩
    · have hslot : ¬ HasSlot m f i := h.hasSlot_iff.not.mpr hi
      rw [fileGetBlock_of_error (fileBlockWalk_full hr hslot hfull)] at hg
      cases hg
      exact ⟨M, h, .refl f M, nofun⟩

end Shadow

end Jos.Fs
