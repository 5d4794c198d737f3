import Jos.FsArray
import Jos.FsOwners

/-!
Reading after writing, on a disk with enough free blocks.

A call needs a free block for every block of its range that the file does not have, and one more if
the file gets its indirect block. With that many, every round of its loop succeeds.
-/

namespace Jos.Fs

open ByteMem CArray Nat Finset

variable {m m' m₀ m₁ : Bytes} {f g buf count stop p q o n i b c blk : ℕ} {S : Finset ℕ} {v : BitVec 32}

def freeBlocksOf (m : Bytes) : Finset ℕ := (Finset.range (nblocks m)).filter fun b => blockIsFree m b

lemma mem_freeBlocksOf : b ∈ freeBlocksOf m ↔ blockIsFree m b := by
  rw [freeBlocksOf, mem_filter, mem_range]
  exact ⟨And.right, fun h => ⟨h.1, h⟩⟩

/-- The blocks of the range of `n` bytes from `o` on. -/
def blocksOf (o n : ℕ) : Finset ℕ := (Finset.Ico o (o + n)).image (· / blkSize)

lemma mem_blocksOf (h : o ≤ p) (h' : p < o + n) : p / blkSize ∈ blocksOf o n :=
  mem_image.mpr ⟨p, mem_Ico.mpr ⟨h, h'⟩, rfl⟩

def holes (m : Bytes) (f : ℕ) (S : Finset ℕ) : Finset ℕ := S.filter fun i => blockOf m f i = 0

def needed (m : Bytes) (f : ℕ) (S : Finset ℕ) : ℕ :=
  (holes m f S).card + if fIndirect m f = 0 ∧ ∃ i ∈ S, nDirect ≤ i then 1 else 0

def Enough (m : Bytes) (f : ℕ) (S : Finset ℕ) : Prop := needed m f S ≤ (freeBlocksOf m).card
  deriving Decidable

lemma Enough.mono {T : Finset ℕ} (h : Enough m f T) (hS : S ⊆ T) : Enough m f S := by
  refine le_trans (Nat.add_le_add (card_le_card (filter_subset_filter _ hS)) ?_) h
  split_ifs with h1 h2
  · exact le_rfl
  · obtain ⟨h0, i, hi, hd⟩ := h1
    exact absurd ⟨h0, i, hS hi, hd⟩ h2
  · exact zero_le _
  · exact le_rfl

lemma Enough.congr (h : Enough m f S) (hfree : ∀ b, blockIsFree m' b ↔ blockIsFree m b)
    (hown : ∀ s, owned m' f s = owned m f s) : Enough m' f S := by
  have h1 : freeBlocksOf m' = freeBlocksOf m := by
    ext b
    rw [mem_freeBlocksOf, mem_freeBlocksOf, hfree]
  have h2 : holes m' f S = holes m f S := filter_congr fun i _ => by
    rw [← owned_data, hown, owned_data]
  rw [Enough, needed, h1, h2, ← owned_indirect, hown]
  exact h

lemma card_freeBlocksOf (hb : blockIsFree m b) (h : ∀ c, blockIsFree m' c ↔ blockIsFree m c ∧ c ≠ b) :
    (freeBlocksOf m').card + 1 = (freeBlocksOf m).card := by
  have heq : freeBlocksOf m' = (freeBlocksOf m).erase b := by
    ext c
    rw [mem_erase, mem_freeBlocksOf, mem_freeBlocksOf, h, and_comm]
  rw [heq]
  exact card_erase_add_one (mem_freeBlocksOf.mpr hb)

lemma card_holes (hi : i ∈ S) (h0 : blockOf m f i = 0) (hne : b ≠ 0)
    (h : ∀ k, blockOf m' f k = if k = i then b else blockOf m f k) :
    (holes m' f S).card + 1 = (holes m f S).card := by
  have heq : holes m' f S = (holes m f S).erase i := by
    ext k
    rw [mem_erase, holes, holes, mem_filter, mem_filter, h]
    split_ifs with hk
    · simp [hk, hne]
    · simp [hk]
  rw [heq]
  exact card_erase_add_one (mem_filter.mpr ⟨hi, h0⟩)

lemma not_enough (hS : i ∈ S) (h0 : blockOf m f i = 0) (hfull : ∀ b, ¬ blockIsFree m b) : ¬ Enough m f S := by
  intro h
  have h1 : freeBlocksOf m = ∅ := eq_empty_of_forall_notMem fun b hb => hfull b (mem_freeBlocksOf.mp hb)
  have h2 : 0 < (holes m f S).card := card_pos.mpr ⟨i, mem_filter.mpr ⟨hS, h0⟩⟩
  rw [Enough, needed, h1, card_empty] at h
  omega

section Get

variable (hm : Exclusive m) (hf : Reachable m f)

include hm hf

lemma attach_enough (hS : i ∈ S) (hi : HasSlot m f i) (h0 : blockOf m f i = 0) (hb : blockIsFree m b)
    (h : Enough m f S) : Enough (attach f i b m) f S := by
  obtain ⟨-, h2, h3⟩ := attach_view hm hf hi hb
  have h4 := card_freeBlocksOf hb (attach_blockIsFree hm hf hi hb)
  have h5 := card_holes hS h0 (hm.ne_zero_of_free hb) h3
  rw [Enough, needed] at h ⊢
  rw [h2]
  omega

lemma attachIndirect_enough (hS : i ∈ S) (hi : nDirect ≤ i) (h0 : fIndirect m f = 0)
    (hb : blockIsFree m b) (h : Enough m f S) : Enough (attachIndirect f b m) f S := by
  obtain ⟨-, h2, h3⟩ := attachIndirect_view hm hf h0 hb
  have h4 := card_freeBlocksOf hb (attachIndirect_blockIsFree hm hf hb)
  have h5 : holes (attachIndirect f b m) f S = holes m f S := filter_congr fun k _ => by rw [h3]
  rw [Enough, needed] at h ⊢
  rw [if_pos ⟨h0, i, hS, hi⟩] at h
  rw [h5, h2, if_neg fun hc => hm.ne_zero_of_free hb hc.1]
  omega

/-- **With enough free blocks `file_get_block` succeeds**, and there are enough for the others. -/
lemma fileGetBlock_enough (hS : i ∈ S) (hr : i < nDirect + nIndirect) (h : Enough m f S) :
    ∃ m' blk, fileGetBlock f i m = .ok (m', .ok blk) ∧ Enough m' f S := by
  obtain ⟨m', r, hget, hg⟩ := fileGetBlock_cases hm hf i
  cases hg with
  | range h1 => omega
  | found h1 => exact ⟨_, _, hget, h⟩
  | taken b hi h0 hb => exact ⟨_, _, hget, attach_enough hm hf hS hi h0 hb h⟩
  | full _ h0 hfull => exact absurd h (not_enough hS h0 hfull)
  | takenTwo c b _ hn hc hb =>
    obtain ⟨hnd, h0⟩ := (not_hasSlot_iff hr).mp hn
    have hgr := attachIndirect_grows hm hf h0 hc
    have hen := attachIndirect_enough hm hf hS (by omega) h0 hc h
    refine ⟨_, _, hget, attach_enough hgr.exclusive ((hgr.reach f).mpr hf) hS
      (hasSlot_attachIndirect hm hf hr h0 hc) ?_ hb hen⟩
    rw [(attachIndirect_view hm hf h0 hc).2.2 i, blockOf_of_not hn]
  | indirectOnly c _ hn hc hfull =>
    obtain ⟨hnd, h0⟩ := (not_hasSlot_iff hr).mp hn
    have hen := attachIndirect_enough hm hf hS (by omega) h0 hc h
    refine absurd hen (not_enough hS ?_ hfull)
    rw [(attachIndirect_view hm hf h0 hc).2.2 i, blockOf_of_not hn]

lemma DataWrite.enough (hw : DataWrite f m m') (h : Enough m f S) : Enough m' f S :=
  h.congr (hw.blockIsFree hm hf) (hw.owned hm hf)

end Get

lemma loadable_off {a len : ℕ} (h : ∀ k < len, OffDisk (a + k)) : Loadable m a len := by
  by_contra hno
  simp only [Loadable, blockAddr, diskMap, diskSize, blkSize, not_or] at hno
  rcases lt_or_ge a diskMap with hlt | hge
  · have := h (diskMap - a) (by simp only [diskMap] at hlt ⊢; omega)
    simp only [OffDisk, diskMap, diskSize] at this hlt
    omega
  · have := h 0 (by omega)
    simp only [OffDisk, diskMap, diskSize] at this hge
    omega

lemma loadable_block (hb : b < nblocks m) (p stop : ℕ) : Loadable m (blockAddr b + p % blkSize) (chunk stop p) := by
  have hc := chunk_inBlock stop p
  refine .inr (.inl ?_)
  simp only [blockAddr, blkSize] at hc ⊢
  omega

section Loops

variable (hm : Exclusive m) (hf : Reachable m f)

include hm hf

section

variable (hd : ¬ IsDir m f) (hbuf : ∀ k < count, OffDisk (buf + k)) (hfit : o + count ≤ maxFileSize)
include hd hbuf hfit

theorem writeLoop_ok (hS : blocksOf o count ⊆ S) (hen : Enough m f S) :
    ∃ m' v, transferLoop fromBuf f (o + count) rounds o buf m = ⟨m', v, .ok none⟩ ∧
      Written f buf o m (o + count) m' ∧ Enough m' f S := by
  have hbuf' : ∀ k < o + count - o, OffDisk (buf + k) := by
    rwa [Nat.add_sub_cancel_left]
  suffices key : ∃ m' v, transferLoop fromBuf f (o + count) rounds o (buf + (o - o)) m = ⟨m', v, .ok none⟩ ∧
      Written f buf o m (o + count) m' ∧ Enough m' f S by
    simpa using key
  refine transferLoop_ok (I := fun p m' => Written f buf o m p m' ∧ Enough m' f S) hfit ?_ le_rfl (by omega)
    (by simp only [rounds]; omega) ⟨.refl hm f buf o, hen⟩
  · intro p m' hop hp ⟨hw, hen'⟩
    have hx := hw.stays.exclusive
    have hf' := (hw.stays.reach f).mpr hf
    have hd' : ¬ IsDir m' f := mt (hw.stays.isDir f hf).mp hd
    obtain ⟨m₁, blk, hget, hen₁⟩ := fileGetBlock_enough hx hf' (hS (mem_blocksOf hop hp)) (by
      simp only [maxFileSize, blkSize] at hfit ⊢
      omega) hen'
    have hg := fileGetBlock_grows hx hf' (fun h => absurd h hd') hget
    obtain ⟨hne, rfl⟩ := fileGetBlock_blockOf hx hf' hget
    have hx₁ := hg.exclusive
    have hf₁ := (hg.reach f).mpr hf'
    have hd₁ : ¬ IsDir m₁ f := mt (hg.isDir f hf').mp hd'
    have hle := chunk_le (o + count) p
    refine ⟨m₁, _, hget, ⟨?_, ?_⟩, hw.round hf hd (fun k hk _ => hbuf' k hk) hop hp hget,
      DataWrite.enough hx₁ hf₁ (dataWrite_block hd₁ hne) hen₁⟩
    · exact loadable_block (hx₁.owned_lt hf₁ (s := .data (p / blkSize)) hne) p (o + count)
    · refine loadable_off fun k hk => ?_
      simp only [moveAt, fromBuf] at hk ⊢
      rw [add_assoc]
      exact hbuf _ (by omega)

theorem readLoop_ok (hS : blocksOf o count ⊆ S) (hen : Enough m f S) :
    ∃ m' v, transferLoop toBuf f (o + count) rounds o buf m = ⟨m', v, .ok none⟩ ∧
      Copied f buf o m (o + count) m' := by
  have hbuf' : ∀ k < o + count - o, OffDisk (buf + k) := by
    rwa [Nat.add_sub_cancel_left]
  suffices key : ∃ m' v, transferLoop toBuf f (o + count) rounds o (buf + (o - o)) m = ⟨m', v, .ok none⟩ ∧
      Copied f buf o m (o + count) m' ∧ Enough m' f S by
    obtain ⟨m', v, h1, h2, -⟩ := key
    exact ⟨m', v, by simpa using h1, h2⟩
  refine transferLoop_ok (I := fun p m' => Copied f buf o m p m' ∧ Enough m' f S) hfit ?_ le_rfl (by omega)
    (by simp only [rounds]; omega) ⟨.refl hm f buf o, hen⟩
  · intro p m' hop hp ⟨hw, hen'⟩
    have hx := hw.stays.exclusive
    have hf' := (hw.stays.reach f).mpr hf
    have hd' : ¬ IsDir m' f := mt (hw.stays.isDir f hf).mp hd
    obtain ⟨m₁, blk, hget, hen₁⟩ := fileGetBlock_enough hx hf' (hS (mem_blocksOf hop hp)) (by
      simp only [maxFileSize, blkSize] at hfit ⊢
      omega) hen'
    have hg := fileGetBlock_grows hx hf' (fun h => absurd h hd') hget
    have hround := hw.round hf (fun h => absurd h hd) (fun h => absurd h hd) hbuf' hop hp hget
    obtain ⟨hne, rfl⟩ := fileGetBlock_blockOf hx hf' hget
    have hx₁ := hg.exclusive
    have hf₁ := (hg.reach f).mpr hf'
    have hle := chunk_le (o + count) p
    have hoff : ∀ k < chunk (o + count) p, OffDisk (buf + (p - o) + k) := by
      intro k hk
      rw [add_assoc]
      exact hbuf _ (by omega)
    refine ⟨m₁, _, hget, ⟨loadable_off hoff, ?_⟩, hround, DataWrite.enough hx₁ hf₁ (dataWrite_off hoff) hen₁⟩
    exact loadable_block (hx₁.owned_lt hf₁ (s := .data (p / blkSize)) hne) p (o + count)

end

end Loops

/-- The file `g` has the size, the blocks and the bytes it had, but for the size and the block numbers of
`f`, if it is its directory. -/
structure Untouched (f g : ℕ) (m m' : Bytes) : Prop where
  size : fSize m' g = fSize m g
  blocks : ∀ i, blockOf m' g i = blockOf m g i
  bytes : ∀ q, blockOf m g (q / blkSize) ≠ 0 →
    ¬ Field f (blockAddr (blockOf m g (q / blkSize)) + q % blkSize) → byteAt m' g q = byteAt m g q

lemma Stays.untouched (h : Stays f m m') (hg : Reachable m g) (hne : g ≠ f) : Untouched f g m m' where
  size := h.size g hg
  blocks i := h.other g hg hne (.data i)
  bytes q hq hfield := by
    have hb : blockOf m' g (q / blkSize) = blockOf m g (q / blkSize) := h.other g hg hne (.data _)
    unfold byteAt
    rw [hb]
    exact h.byte g hg hne _ hq _ (inBlock_pos _ q) hfield

lemma Untouched.trans (h : Untouched f g m m') (h' : Untouched f g m' m₁) : Untouched f g m m₁ where
  size := h'.size.trans h.size
  blocks i := (h'.blocks i).trans (h.blocks i)
  bytes q hq hfield := by
    have hb := h.blocks (q / blkSize)
    rw [h'.bytes q (hb ▸ hq) (hb ▸ hfield), h.bytes q hq hfield]

/-- The size of the file has become `z`, and all else is as it was. -/
structure Sized (f : ℕ) (z : ℤ) (m m' : Bytes) : Prop where
  exclusive : Exclusive m'
  reach : ∀ g, Reachable m' g ↔ Reachable m g
  isDir : ¬ IsDir m' f
  size : fSize m' f = z
  owned : ∀ s, owned m' f s = owned m f s
  free : ∀ b, blockIsFree m' b ↔ blockIsFree m b
  bytes : ∀ q, blockOf m f (q / blkSize) ≠ 0 → byteAt m' f q = byteAt m f q
  other : ∀ g, Reachable m g → g ≠ f → Untouched f g m m'
  off : ∀ x, OffDisk x → m' x = m x

lemma Sized.refl (hm : Exclusive m) (hd : ¬ IsDir m f) : Sized f (fSize m f) m m :=
  ⟨hm, fun _ => Iff.rfl, hd, rfl, fun _ => rfl, fun _ => Iff.rfl, fun _ _ => rfl,
    fun _ _ _ => ⟨rfl, fun _ => rfl, fun _ _ _ => rfl⟩, fun _ _ => rfl⟩

lemma resize_sized (hm : Exclusive m) (hf : Reachable m f) (hd : ¬ IsDir m f) : Sized f v.toInt m (resize f v m) where
  exclusive := resize_exclusive hm hf fun h => absurd h hd
  reach g := ⟨resize_touch.reachable_inv hm hf fun h => absurd h hd,
    resize_touch.reachable_of hm hf fun h => absurd h hd⟩
  isDir := by
    obtain ⟨b, hb⟩ := hf.home
    exact mt (resize_touch.isDir hm hf hb).mp hd
  size := (resize_view hm hf).1
  owned := resize_owned hm hf
  free := resize_blockIsFree hm hf
  bytes q hq := by
    have hin := inBlock_pos (blockOf m f (q / blkSize)) q
    have hout := hm.words_not_inBlock hf (words_sizeField m f) (.inr ⟨hd, _, hq, rfl⟩)
    unfold byteAt
    rw [(resize_view hm hf).2.2]
    unfold InBlock at hin
    exact set32_of_out (by omega)
  other g hg hne :=
    { size := resize_touch.fSize hm hf hg hne
      blocks := resize_touch.blockOf hm hf hg hne
      bytes := fun q hq hfield => by
        unfold byteAt
        rw [resize_touch.blockOf hm hf hg hne]
        exact resize_touch.byte hm hf hg hne (s := .data _) hq (inBlock_pos _ q) hfield }
  off x hx := by
    have hw := hm.words_onDisk hf (words_sizeField m f)
    unfold OffDisk at hx
    exact set32_of_out (by omega)

lemma fileSetSize_grow {z : ℤ} (h : fSize m f ≤ z) : fileSetSize f z m = .ok (resize f (BitVec.ofInt 32 z) m) := by
  unfold fileSetSize
  rw [if_neg (by omega)]
  rfl

lemma fileWrite_sized (buf : ℕ) (hm : Exclusive m) (hf : Reachable m f) (hd : ¬ IsDir m f) (hn : o + count < 2 ^ 31) :
    ∃ m₀ z, Sized f z m m₀ ∧ (0 ≤ fSize m f → z = max (fSize m f) (o + count)) ∧
      fileWrite f buf count o m = (transferLoop fromBuf f (o + count) rounds o buf m₀).returns count := by
  have hlt := fSize_lt m f
  have hle : -(2 ^ 31) ≤ fSize m f := BitVec.le_toInt _
  rw [fileWrite_eq rfl (by omega), mod_eq_of_lt (by omega)]
  split_ifs with hgrow
  · have hpos : 0 ≤ fSize m f := by
      by_contra hneg
      obtain ⟨d, hd⟩ : ∃ d : ℕ, fSize m f = -(d : ℤ) := ⟨(-fSize m f).toNat, by omega⟩
      rw [hd, intToSize_of_neg] at hgrow
      omega
    obtain ⟨z, hz⟩ := Int.eq_ofNat_of_zero_le hpos
    rw [hz, intToSize_of_nonneg] at hgrow
    rw [sizeToInt_of_lt hn, fileSetSize_grow (by omega)]
    refine ⟨_, _, resize_sized hm hf hd, fun _ => ?_, rfl⟩
    rw [toInt_ofInt_size (by omega) (by omega)]
    omega
  · refine ⟨m, _, .refl hm hd, fun hpos => ?_, rfl⟩
    obtain ⟨z, hz⟩ := Int.eq_ofNat_of_zero_le hpos
    rw [hz, intToSize_of_nonneg] at hgrow
    omega

/-- **`file_write` with enough free blocks** writes all its bytes. -/
theorem fileWrite_ok (hm : Exclusive m) (hf : Reachable m f) (hd : ¬ IsDir m f) (h0 : 0 ≤ fSize m f)
    (hbuf : ∀ k < count, OffDisk (buf + k)) (hfit : o + count ≤ maxFileSize)
    (hS : blocksOf o count ⊆ S) (hen : Enough m f S) :
    ∃ m₀ m₁ v, fileWrite f buf count o m = ⟨m₁, v, .ok count⟩ ∧
      Sized f (max (fSize m f) (o + count)) m m₀ ∧ Written f buf o m₀ (o + count) m₁ ∧ Enough m₁ f S := by
  have hmax : maxFileSize = 4235264 := rfl
  have hret : Int.bmod (count : ℤ) (2 ^ 64) = count := Int.bmod_eq_of_le (by omega) (by omega)
  obtain ⟨m₀, z, hs, hz, hcall⟩ := fileWrite_sized buf hm hf hd (show o + count < 2 ^ 31 by omega)
  obtain ⟨m₁, v, hl, hw, hen₁⟩ := writeLoop_ok hs.exclusive ((hs.reach f).mpr hf) hs.isDir hbuf hfit hS
    (hen.congr hs.free hs.owned)
  refine ⟨m₀, m₁, v, ?_, hz h0 ▸ hs, hw, hen₁⟩
  rw [hcall, hl, Transfer.returns]
  simp only [Except.map, Option.getD_none, hret]

/-- **`file_read` with enough free blocks** copies all the bytes there are. -/
theorem fileRead_ok (buf : ℕ) (hm : Exclusive m) (hf : Reachable m f) (hd : ¬ IsDir m f)
    (hmax : fSize m f ≤ maxFileSize) (hbuf : ∀ k < readCount m f count o, OffDisk (buf + k))
    (hen : Enough m f (blocksOf o (readCount m f count o))) :
    ∃ m' v, fileRead f buf count o m = ⟨m', v, .ok (readCount m f count o)⟩ ∧
      Copied f buf o m (o + readCount m f count o) m' := by
  rcases le_or_gt (fSize m f) o with hle | hlt
  · have h0 : readCount m f count o = 0 := by
      unfold readCount
      omega
    refine ⟨m, [], ?_, ?_⟩
    · rw [fileRead_end hle, h0]
      rfl
    · rw [h0]
      exact .refl hm f buf o
  have hle := readCount_le count hlt
  have hret : Int.bmod (readCount m f count o : ℤ) (2 ^ 64) = readCount m f count o := by
    have := fSize_lt m f
    exact Int.bmod_eq_of_le (by omega) (by omega)
  obtain ⟨m', v, hl, hc⟩ := readLoop_ok hm hf hd hbuf (by omega) (Finset.Subset.refl _) hen
  refine ⟨m', v, ?_, hc⟩
  rw [fileRead_eq hlt, hl, Transfer.returns]
  simp only [Except.map, Option.getD_none, hret]

structure ReadBack (f buf count o dst start len : ℕ) (m m' : Bytes) : Prop where
  new : ∀ q, start ≤ q → q < start + len → o ≤ q → q < o + count → m' (dst + (q - start)) = m (buf + (q - o))
  old : ∀ q, start ≤ q → q < start + len → ¬ (o ≤ q ∧ q < o + count) → (q : ℤ) < fSize m f →
    blockOf m f (q / blkSize) ≠ 0 → m' (dst + (q - start)) = byteAt m f q

/-- **A file is an array of bytes.** For a file that is no directory and has a valid size, and with enough
free blocks for the ranges of the two calls: `file_write` writes all its bytes, the size is what it has
to be, a `file_read` after it finds the new bytes where they were written and the old ones elsewhere,
and every other file is as it was, but for the record of the file in its directory. -/
theorem file_read_after_write (hm : Exclusive m) (hf : Reachable m f) (hd : ¬ IsDir m f)
    (hsize : 0 ≤ fSize m f ∧ fSize m f ≤ maxFileSize) (hbuf : ∀ k < count, OffDisk (buf + k))
    (hfit : o + count ≤ maxFileSize) {dst len start : ℕ} (hdst : ∀ k < len, OffDisk (dst + k))
    (hen : Enough m f (blocksOf o count ∪
      blocksOf start (min len (max (fSize m f) (o + count) - start).toNat))) :
    ∃ m₁ v, fileWrite f buf count o m = ⟨m₁, v, .ok count⟩ ∧
      fSize m₁ f = max (fSize m f) (o + count) ∧
      (∀ g, Reachable m g → g ≠ f → Untouched f g m m₁) ∧
      ∃ m₂ w, fileRead f dst len start m₁ = ⟨m₂, w, .ok (readCount m₁ f len start)⟩ ∧
        ReadBack f buf count o dst start (readCount m₁ f len start) m m₂ ∧
        ∀ g, Reachable m g → g ≠ f → Untouched f g m m₂ := by
  obtain ⟨m₀, m₁, v, hwrite, hs, hw, hen₁⟩ := fileWrite_ok hm hf hd hsize.1 hbuf hfit
    subset_union_left hen
  have hf₀ := (hs.reach f).mpr hf
  have hf₁ := (hw.stays.reach f).mpr hf₀
  have hd₁ : ¬ IsDir m₁ f := mt (hw.stays.isDir f hf₀).mp hs.isDir
  have hsize₁ : fSize m₁ f = max (fSize m f) (o + count) := (hw.stays.size f hf₀).trans hs.size
  have hother₁ : ∀ g, Reachable m g → g ≠ f → Untouched f g m m₁ := fun g hg hne =>
    (hs.other g hg hne).trans (hw.stays.untouched ((hs.reach g).mpr hg) hne)
  refine ⟨m₁, v, hwrite, hsize₁, hother₁, ?_⟩
  have hcount : min len (max (fSize m f) (o + count) - start).toNat = readCount m₁ f len start := by
    rw [readCount, hsize₁]
  rw [hcount] at hen₁
  obtain ⟨m₂, w, hread, hc⟩ := fileRead_ok dst hw.stays.exclusive hf₁ hd₁ (by omega)
    (fun k hk => hdst k (by unfold readCount at hk; omega)) (hen₁.mono subset_union_right)
  refine ⟨m₂, w, hread, ⟨?_, ?_⟩, fun g hg hne => (hother₁ g hg hne).trans
    (hc.stays.untouched ((hw.stays.reach g).mpr ((hs.reach g).mpr hg)) hne)⟩
  · intro q h1 h2 h3 h4
    obtain ⟨hb, hval⟩ := hw.new q h3 h4
    rw [(hc.copied q h1 h2).2, hc.old q hb, hval, hs.off _ (hbuf (q - o) (by omega))]
  · intro q h1 h2 hout hq hb
    have hb₀ : blockOf m₀ f (q / blkSize) = blockOf m f (q / blkSize) := hs.owned (.data _)
    have hb₁ : blockOf m₁ f (q / blkSize) = blockOf m₀ f (q / blkSize) := hw.stays.blockOf_ne hf₀ (hb₀ ▸ hb)
    rw [(hc.copied q h1 h2).2, hc.old q (by rwa [hb₁, hb₀]), hw.old q hout (hb₀ ▸ hb), hs.bytes q hb]

open FsOwners Runs in
/-- On a new disk with one file in it. -/
theorem file_read_after_write_newDisk :
    ∃ m, run step (newDisk 5) [.create [97]] = .ok m ∧ ∃ m₁ v,
      fileWrite firstFile 0x1000 3 0 m = ⟨m₁, v, .ok 3⟩ ∧ fSize m₁ firstFile = 3 ∧
      ∃ m₂ w, fileRead firstFile 0x2000 4 1 m₁ = ⟨m₂, w, .ok 2⟩ ∧ m₂ 0x2001 = m 0x1002 := by
  have hrun : ∃ m, run step (newDisk 5) [.create [97]] = .ok m ∧ HasFirst m ∧ fSize m firstFile = 0 ∧
      Enough m firstFile (blocksOf 0 3 ∪ blocksOf 1 2) := by decide
  obtain ⟨m, hm, hfirst, hsize, hen⟩ := hrun
  have hcons := step_consistent consistent_newDisk (c := .create [97]) (show 0 ∉ [97] by decide)
    (.inl freeZero_newDisk) ((run_singleton _ _).symm.trans hm)
  have hoff : ∀ a k : ℕ, a ≤ 0x2000 → k < 4 → OffDisk (a + k) := by
    intro a k ha hk
    refine .inl ?_
    simp only [diskMap]
    omega
  obtain ⟨m₁, v, h1, h2, -, m₂, w, h3, h4, -⟩ := @file_read_after_write m firstFile 0x1000 3 0
    hcons.toExclusive hfirst.reachable hfirst.2.2.2.2 (by rw [hsize]; decide)
    (fun k hk => hoff _ k (by omega) (by omega)) (by decide) 0x2000 4 1
    (fun k hk => hoff _ k (by omega) hk) (by rw [hsize]; exact hen)
  rw [hsize] at h2
  have hcount : readCount m₁ firstFile 4 1 = 2 := by rw [readCount, h2]; rfl
  rw [hcount] at h3 h4
  exact ⟨m, hm, m₁, v, h1, h2, m₂, w, h3, h4.new 2 (by omega) (by omega) (by omega) (by omega)⟩

open FsOwners Runs in
/-- The write changes what the root directory holds: the size of the file is one of its bytes. -/
theorem write_changes_directory :
    ∃ m, run step (newDisk 5) [.create [97]] = .ok m ∧ Exclusive m ∧ Reachable m firstFile ∧
      Enough m firstFile (blocksOf 0 3) ∧ (fileWrite firstFile 0x1000 3 0 m).result = .ok 3 ∧
      Reachable m rootFile ∧ rootFile ≠ firstFile ∧ (128 : ℤ) < fSize m rootFile ∧
      blockOf m rootFile (128 / blkSize) ≠ 0 ∧
      byteAt (fileWrite firstFile 0x1000 3 0 m).mem rootFile 128 ≠ byteAt m rootFile 128 := by
  have hrun : ∃ m, run step (newDisk 5) [.create [97]] = .ok m ∧ HasFirst m ∧
      Enough m firstFile (blocksOf 0 3) ∧
      (fileWrite firstFile 0x1000 3 0 m).result.toOption = some 3 ∧ rootFile ≠ firstFile ∧
      (128 : ℤ) < fSize m rootFile ∧ blockOf m rootFile (128 / blkSize) ≠ 0 ∧
      byteAt (fileWrite firstFile 0x1000 3 0 m).mem rootFile 128 ≠ byteAt m rootFile 128 := by
    decide
  obtain ⟨m, hm, hfirst, hen, hres, hne, hs, hb, hbyte⟩ := hrun
  have hcons := step_consistent consistent_newDisk (c := .create [97]) (show 0 ∉ [97] by decide)
    (.inl freeZero_newDisk) ((run_singleton _ _).symm.trans hm)
  refine ⟨m, hm, hcons.toExclusive, hfirst.reachable, hen, ?_, reachable_root m, hne, hs, hb, hbyte⟩
  cases hr : (fileWrite firstFile 0x1000 3 0 m).result with
  | error e =>
    rw [hr] at hres
    cases hres
  | ok z =>
    rw [hr] at hres
    cases hres
    rfl

end Jos.Fs
