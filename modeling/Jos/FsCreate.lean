import Jos.FsDirectory

/-!
What `dir_alloc_file` and `file_create` do: a directory with no free record gets one more block, and
a free record gets a name.
-/

namespace Jos.Fs

open ByteMem CArray BitVec

variable {m m' : Bytes} {f g d e b c i k n x : ℕ} {name path : List UInt8}

/-- The record `e`, which was free, is that of a new file that holds nothing. -/
structure Created (e : ℕ) (m m' : Bytes) : Prop where
  consistent : Consistent m'
  freeZero : FreeZero m → FreeZero m'
  keeps : ∀ g, Reachable m g → Reachable m' g
  back : ∀ g, Reachable m' g → Reachable m g ∨ g = e
  fresh : ¬ Reachable m e
  isDir : ∀ g, Reachable m g → (IsDir m' g ↔ IsDir m g)
  size : ∀ g, Reachable m g → fSize m' g = fSize m g
  owned : ∀ g, Reachable m g → ∀ s, owned m' g s = owned m g s
  byte : ∀ g, Reachable m g → ¬ IsDir m g → ∀ i, blockOf m g i ≠ 0 → ∀ x, InBlock (blockOf m g i) x →
    m' x = m x
  blank : Blank m' e

/-- Only bytes of the name of `e` differ. -/
def NameOnly (e : ℕ) (m m' : Bytes) : Prop := ∀ x, ¬ (e ≤ x ∧ x < e + maxNameLen) → m' x = m x

section Name

variable (hm : Consistent m) (hd : Reachable m d) (hc : Cell m d e) (h0 : m e = 0) (hn : NameOnly e m m')

include hd hc

lemma name_inBlock : ∃ b, Home m b e ∧ ∀ x, e ≤ x → x < e + maxNameLen → InBlock b x := by
  obtain ⟨b, hb⟩ := hc.home hd
  exact ⟨b, hb, fun x h1 h2 => hb.inBlock h1 (by simp only [maxNameLen, sizeofFile] at h2 ⊢; omega)⟩

include hn

lemma name_byte {b : ℕ} (hb : ∀ e, ¬ Home m b e) (hx : InBlock b x) : m' x = m x := by
  refine hn x fun h => ?_
  obtain ⟨c, hhome, hin⟩ := name_inBlock hd hc
  exact hb e ((hin x h.1 h.2).unique hx ▸ hhome)

include hm

lemma name_not_free (hb : blockIsFree m b) (hx : InBlock b x) : m' x = m x :=
  name_byte hd hc hn (fun _ h => hm.toExclusive.home_not_free h hb) hx

lemma name_data (hg : Reachable m g) (hnd : ¬ IsDir m g) (hx : InBlock (blockOf m g i) x) : m' x = m x :=
  name_byte hd hc hn (fun _ h => hnd (hm.toExclusive.home_owner h hg (s := .data i) rfl).1) hx

lemma name_indirect (hg : Reachable m g) (hx : InBlock (fIndirect m g) x) : m' x = m x := by
  refine name_byte hd hc hn (fun _ h => ?_) hx
  obtain ⟨-, i, hi⟩ := hm.toExclusive.home_owner h hg (s := .indirect) rfl
  cases hi

lemma name_bitmap (h1 : bitmapAddr ≤ x) (h2 : x < blockAddr (firstData m)) : m' x = m x := by
  refine hn x fun h => ?_
  obtain ⟨c, hhome, hin⟩ := name_inBlock hd hc
  exact hm.toExclusive.home_not_bitmap hhome (hin x h.1 h.2) ⟨h1, h2⟩

lemma name_nblocks : nblocks m' = nblocks m := by
  refine congrArg BitVec.toNat (Same.get32 fun x h1 h2 => hn x fun h => ?_)
  obtain ⟨c, hhome, hin⟩ := name_inBlock hd hc
  obtain ⟨i, j, hdir, hi, hb, hj⟩ := hc
  have h3 := hm.toExclusive.firstData_le hd (s := .data i) hb
  have h4 := two_le_firstData m
  simp only [owned_data, superAddr, blockAddr, diskMap, blkSize, sizeofFile, blkFiles] at h h1 h2 h3 hj
  omega

lemma name_blockIsFree (b : ℕ) : blockIsFree m' b ↔ blockIsFree m b :=
  blockIsFree_congr (name_nblocks hm hd hc hn) (fun _ h1 h2 => name_bitmap hm hd hc hn h1 h2) b

include h0

section

variable (hg : g = e ∨ Reachable m g)
include hg

lemma name_record : Same m m' (g + maxNameLen) maxNameLen := by
  intro x h1 h2
  refine hn x fun h => ?_
  rcases hg with rfl | hg
  · omega
  · obtain ⟨b, hb⟩ := hg.home
    obtain ⟨c, hhome, -⟩ := name_inBlock hd hc
    have := hm.toExclusive.home_disjoint hhome hb (hm.toExclusive.cell_ne hg hd hc h0)
    simp only [maxNameLen, sizeofFile] at h h1 h2 this
    omega

lemma name_isDir : IsDir m' g ↔ IsDir m g := by
  have : fType m' g = fType m g := ((name_record hm hd hc h0 hn hg).mono
    (by simp only [maxNameLen]; omega) (by simp only [maxNameLen]; omega)).get32
  rw [IsDir, IsDir, this]

lemma name_fSize : fSize m' g = fSize m g := congrArg BitVec.toInt ((name_record hm hd hc h0 hn hg).mono
    (by simp only [maxNameLen, sizeField]; omega) (by simp only [maxNameLen, sizeField]; omega)).get32

lemma name_fIndirect : fIndirect m' g = fIndirect m g := congrArg BitVec.toNat ((name_record hm hd hc h0 hn hg).mono
    (by simp only [maxNameLen, indirectField]; omega) (by simp only [maxNameLen, indirectField]; omega)).get32

lemma name_direct (hi : i < nDirect) : get32 m' (directField g i) = get32 m (directField g i) :=
  ((name_record hm hd hc h0 hn hg).mono (by simp only [maxNameLen, directField]; omega)
    (by simp only [maxNameLen, directField, nDirect] at hi ⊢; omega)).get32

end

lemma name_blockOf (hg : Reachable m g) (i : ℕ) : blockOf m' g i = blockOf m g i := by
  unfold blockOf
  rw [name_fIndirect hm hd hc h0 hn (.inr hg)]
  split
  · rename_i hi
    rw [name_direct hm hd hc h0 hn (.inr hg) hi]
  · split
    · rename_i hi hind
      refine congrArg BitVec.toNat (Same.get32 fun x h1 h2 => name_indirect hm hd hc hn hg ?_)
      simp only [InBlock, blockAddr, blkSize, nDirect, nIndirect] at hind h1 h2 ⊢
      omega
    · rfl

lemma name_owned (hg : Reachable m g) (s : Slot) : owned m' g s = owned m g s := by
  cases s with
  | data i => exact name_blockOf hm hd hc h0 hn hg i
  | indirect => exact name_fIndirect hm hd hc h0 hn (.inr hg)

lemma name_blank : Blank m' e := by
  obtain ⟨h1, h2⟩ := hm.blank d hd e hc h0
  refine .of_direct ?_ ?_ fun i hi => ?_
  · rw [name_fSize hm hd hc h0 hn (.inl rfl), h1]
  · rw [name_fIndirect hm hd hc h0 hn (.inl rfl)]
    exact h2 .indirect
  · have h3 := h2 (.data i)
    rw [owned_data, blockOf, if_pos hi] at h3
    rw [name_direct hm hd hc h0 hn (.inl rfl) hi]
    exact eq_of_toNat_eq h3

lemma name_cell (hg : Reachable m g) : Cell m' g k ↔ Cell m g k := by
  have hdir := name_isDir hm hd hc h0 hn (.inr hg)
  have hsize := name_fSize hm hd hc h0 hn (.inr hg)
  have hbl := name_blockOf hm hd hc h0 hn hg
  constructor
  · rintro ⟨i, j, h1, h2, h3, h4⟩
    rw [Covers, hsize] at h2
    rw [hbl i] at h3 ⊢
    exact .mk i j (hdir.mp h1) h2 h3 h4
  · rintro ⟨i, j, h1, h2, h3, h4⟩
    rw [← hbl i] at h3 ⊢
    exact .mk i j (hdir.mpr h1) (by rwa [Covers, hsize]) h3 h4

omit h0 in
lemma name_head (hg : Reachable m g) (hk : Cell m g k) (hne : k ≠ e) : m' k = m k := by
  refine hn k fun h => ?_
  obtain ⟨b, hb⟩ := hk.home hg
  obtain ⟨c, hhome, -⟩ := name_inBlock hd hc
  have := hm.toExclusive.home_disjoint hhome hb (Ne.symm hne)
  simp only [maxNameLen, sizeofFile] at h this
  omega

lemma name_keeps (hg : Reachable m g) : Reachable m' g := by
  induction hg with
  | refl => exact .refl
  | @tail a k ha hk ih =>
    have hne : k ≠ e := by
      rintro rfl
      exact hk.2 h0
    exact .tail ih ⟨(name_cell hm hd hc h0 hn ha).mpr hk.1, (name_head hm hd hc hn ha hk.1 hne).symm ▸ hk.2⟩

lemma name_back (hg : Reachable m' g) : Reachable m g ∨ g = e := by
  induction hg with
  | refl => exact .inl .refl
  | @tail a k _ hk ih =>
    rcases ih with ha | rfl
    · by_cases hne : k = e
      · exact .inr hne
      · have hcell := (name_cell hm hd hc h0 hn ha).mp hk.1
        exact .inl (.tail ha ⟨hcell, name_head hm hd hc hn ha hcell hne ▸ hk.2⟩)
    · -- the new file has no block, so it has no records in it
      obtain ⟨i, j, -, -, hb, -⟩ := hk.1
      exact absurd ((name_blank hm hd hc h0 hn).2 (.data i)) hb

lemma name_exclusive : Exclusive m' := by
  have hx := hm.toExclusive
  have hnb := name_nblocks hm hd hc hn
  have hfd : firstData m' = firstData m := by rw [firstData, firstData, hnb]
  have hfree := name_blockIsFree hm hd hc hn
  -- a file with a block is one of the old files
  have hold : ∀ g, Reachable m' g → ∀ s, owned m' g s ≠ 0 → Reachable m g := by
    intro g hg s hs
    rcases name_back hm hd hc h0 hn hg with h | rfl
    · exact h
    · exact absurd ((name_blank hm hd hc h0 hn).2 s) hs
  refine ⟨hnb ▸ hx.small, ?_, ?_, ?_⟩
  · intro b hb hfr
    exact hx.reserved b (hfd ▸ hb) ((hfree b).mp hfr)
  · intro g h hg hh s t hs heq
    have hg' := hold g hg s hs
    have hh' := hold h hh t (heq ▸ hs)
    rw [name_owned hm hd hc h0 hn hg'] at hs heq
    rw [name_owned hm hd hc h0 hn hh'] at heq
    exact hx.single g h hg' hh' s t hs heq
  · intro g hg s hs
    have hg' := hold g hg s hs
    rw [name_owned hm hd hc h0 hn hg'] at hs ⊢
    rw [hfd, hnb, hfree]
    exact hx.inUse g hg' s hs

/-- **Naming a free record** makes a new file of it. -/
theorem created_of_nameOnly : Created e m m' := by
  have hx := hm.toExclusive
  have hblank := name_blank hm hd hc h0 hn
  have hback : ∀ g, Reachable m' g → Reachable m g ∨ g = e := fun g => name_back hm hd hc h0 hn
  refine ⟨⟨name_exclusive hm hd hc h0 hn, ?_, ?_, ?_⟩, ?_, fun g => name_keeps hm hd hc h0 hn, hback, ?_,
    fun g hg => name_isDir hm hd hc h0 hn (.inr hg), fun g hg => name_fSize hm hd hc h0 hn (.inr hg),
    fun g hg => name_owned hm hd hc h0 hn hg, fun g hg hnd i _ x hin => name_data hm hd hc hn hg hnd hin,
    hblank⟩
  · intro g hg hdir
    rcases hback g hg with h | rfl
    · rw [name_fSize hm hd hc h0 hn (.inr h)]
      exact hm.size g h ((name_isDir hm hd hc h0 hn (.inr h)).mp hdir)
    · exact hblank.1.ge
  · intro g hg hdir i hi
    rcases hback g hg with h | rfl
    · rw [Covers, name_fSize hm hd hc h0 hn (.inr h)] at hi
      rw [name_blockOf hm hd hc h0 hn h]
      exact hm.tail g h ((name_isDir hm hd hc h0 hn (.inr h)).mp hdir) i hi
    · exact hblank.2 (.data i)
  · intro g hg k hk hk0
    rcases hback g hg with h | rfl
    · have hcell := (name_cell hm hd hc h0 hn h).mp hk
      by_cases hne : k = e
      · exact hne ▸ hblank
      · have hk0' : m k = 0 := (name_head hm hd hc hn h hcell hne).symm.trans hk0
        obtain ⟨b, hb⟩ := hcell.home h
        obtain ⟨c, hhome, -⟩ := name_inBlock hd hc
        refine (hm.blank g h k hcell hk0').same fun x h1 h2 => hn x fun hin => ?_
        have := hx.home_disjoint hhome hb (Ne.symm hne)
        simp only [maxNameLen, sizeofFile] at hin h1 h2 this
        omega
    · obtain ⟨i, j, -, -, hb, -⟩ := hk
      exact absurd (hblank.2 (.data i)) hb
  · intro hz b hb x hin
    have hb' := (name_blockIsFree hm hd hc hn b).mp hb
    rw [name_not_free hm hd hc hn hb' hin]
    exact hz b hb' x hin
  · exact fun h => hx.cell_ne h hd hc h0 rfl

end Name

/-- The directory `d`, whose blocks are all there, is one block longer. -/
structure Lengthened (d : ℕ) (m m' : Bytes) : Prop where
  consistent : Consistent m'
  freeZero : FreeZero m'
  reachable : Reachable m d
  dir : IsDir m d
  blocks : ∃ n ≤ nDirect + nIndirect, fSize m d = (blkSize * n : ℕ)
  grown : fSize m' d = fSize m d + blkSize
  reach : ∀ g, Reachable m' g ↔ Reachable m g
  isDir : ∀ g, Reachable m g → (IsDir m' g ↔ IsDir m g)
  size : ∀ g, Reachable m g → g ≠ d → fSize m' g = fSize m g
  owned : ∀ g, Reachable m g → ∀ s, owned m' g s = owned m g s
  byte : ∀ g, Reachable m g → ¬ IsDir m g → ∀ i, blockOf m g i ≠ 0 → ∀ x, InBlock (blockOf m g i) x →
    m' x = m x

lemma toInt_add_blkSize {v : BitVec 32} (h : 0 ≤ v.toInt) (h' : v.toInt + blkSize < 2 ^ 31) :
    (v + BitVec.ofNat 32 blkSize).toInt = v.toInt + blkSize := by
  have h1 : (BitVec.ofNat 32 blkSize).toInt = blkSize := by decide
  rw [toInt_add, h1, Int.bmod_eq_of_le (by omega) (by omega)]

lemma lengthened_resize {v : BitVec 32} (hm : Consistent m) (hz : FreeZero m) (hd : Reachable m d)
    (hdir : IsDir m d) (hn : n ≤ nDirect + nIndirect) (hsize : fSize m d = (blkSize * n : ℕ))
    (hv : v.toInt = fSize m d + blkSize) : Lengthened d m (resize d v m) := by
  have hx := hm.toExclusive
  have hr := resize_released (v := v) hm hd (fun _ => by omega) (fun _ i hi =>
    hm.tail d hd hdir i fun hcov => by simp only [Covers] at hcov; omega) 0
  obtain ⟨h1, -, h3⟩ := resize_view (v := v) hx hd
  rw [hv] at h1
  have ht := resize_touch (f := d) (v := v) (m := m)
  have hkept : CellsKept d m (resize d v m) := by
    intro _ i hi _
    refine ⟨?_, h3 i⟩
    rw [Covers, h1]
    simp only [Covers] at hi
    omega
  have hreach : ∀ g, Reachable m g → Reachable (resize d v m) g := fun g => ht.reachable_of hx hd hkept
  have howned : ∀ g, Reachable m g → ∀ s, owned (resize d v m) g s = owned m g s := by
    intro g hg s
    by_cases hgd : g = d
    · subst hgd
      exact resize_owned hx hd s
    · exact hr.other g (hreach g hg) hgd s
  refine ⟨hr.consistent, ?_, hd, hdir, ⟨n, hn, hsize⟩, h1, fun g => ⟨hr.back g, hreach g⟩,
    fun g hg => hr.isDir g (hreach g hg), fun g hg => hr.size g (hreach g hg), howned, ?_⟩
  · intro b hb x hin
    have hb' := (resize_blockIsFree hx hd b).mp hb
    have := hx.words_not_inBlock hd (words_sizeField m d) (.inl hb')
    rw [resize, set32_of_out (by unfold InBlock at hin; omega)]
    exact hz b hb' x hin
  · intro g hg hnd i hi x hin
    have hbl : blockOf (resize d v m) g i = blockOf m g i := howned g hg (.data i)
    exact hr.byte g (hreach g hg) i (by rwa [hbl]) x (by rwa [hbl]) (hx.data_not_field hd hg hnd hin)

lemma fileGetBlock_new {blk : ℕ} (hm : Consistent m) (hz : FreeZero m) (hd : Reachable m d)
    (h0 : blockOf m d i = 0) (h : fileGetBlock d i m = .ok (m', .ok blk)) :
    blk = blockAddr (blockOf m' d i) ∧ blockOf m' d i ≠ 0 ∧ m' blk = 0 := by
  obtain ⟨hne, hblk⟩ := fileGetBlock_blockOf hm.toExclusive hd h
  have hg := fileGetBlock_grows hm.toExclusive hd (fun _ => .inl hz) h
  have hin : InBlock (blockOf m' d i) blk := by
    rw [InBlock, blockAddr_succ, hblk, blkSize]
    omega
  refine ⟨hblk, hne, ?_⟩
  rw [hg.fresh i h0 hne blk hin]
  exact hz _ (hg.taken (.data i) h0 hne) blk hin

def Room (m : Bytes) : Prop := ∀ d, Reachable m d → IsDir m d → ∃ e, Cell m d e ∧ m e = 0

def Creatable (m : Bytes) : Prop := FreeZero m ∨ (Whole m ∧ Room m)

lemma Creatable.settled (h : Creatable m) : Settled m := h.imp id And.left

lemma Enlarged.creatable (h : Enlarged m m') (hz : Creatable m) : Creatable m' := by
  rcases hz with hz | hw
  · exact .inl (h.freeZero hz)
  · rw [h.whole hw.1]
    exact .inr hw

lemma Creatable.freeZero_of_none (hz : Creatable m) (hm : Consistent m) (hd : Reachable m d)
    (hdir : IsDir m d) (hmod : (fSize m d).tmod blkSize = 0)
    (h : dirScan d (fun m f => m f = 0) (dirBlocks m d) 0 m = .ok (m', .ok none)) : FreeZero m := by
  rcases hz with hz | ⟨hw, hroom⟩
  · exact hz
  have hsize := hm.size d hd hdir
  obtain ⟨e, hc, h0⟩ := hroom d hd hdir
  obtain ⟨i, j, -, hi, hb, hj⟩ := hc
  have hlt : i < dirBlocks m d := by
    have h1 := dirBlocks_eq hsize
    rw [Int.tmod_eq_emod_of_nonneg hsize] at hmod
    simp only [Covers, blkSize] at hi h1 hmod
    omega
  have hscan := dirScan_none hm.toExclusive hd (fun k _ hk =>
    hw d hd hdir k (covers_of_lt_dirBlocks hsize (by omega))) h i (by omega) (by omega) j hj
  exact absurd h0 (of_decide_eq_false hscan)

section

variable {r : Except ℤ ℕ} (hm : Consistent m) (hz : Creatable m)
include hm hz

/-- **`dir_alloc_file` and its cases**: the blocks of the directory are searched; if there is no free
record in them, the directory gets longer, and then gets a block there. -/
theorem dirAllocFile_cases (hd : Reachable m d)
    (hdir : IsDir m d) (h : dirAllocFile d m = .ok (m', r)) :
    ∃ m₁ m₂, Enlarged m m₁ ∧ (m₂ = m₁ ∨ Lengthened d m₁ m₂) ∧ Enlarged m₂ m' ∧
      ∀ e, r = .ok e → Cell m' d e ∧ m' e = 0 := by
  have hsize := hm.size d hd hdir
  obtain ⟨m₁, r₁, hscan, hen, hcell, hend⟩ := dirScan_enlarged (p := fun m f => m f = 0) (i := 0)
    (n := dirBlocks m d) hm hz.settled hd hdir fun k hk => covers_of_lt_dirBlocks hsize (by omega)
  unfold dirAllocFile at h
  split at h
  swap
  · cases h
  rename_i hmod
  simp only [hscan, ok_bind] at h
  rcases r₁ with _ | _ | e
  · cases h
    refine ⟨m', m', hen, .inl rfl, .refl hen.consistent, ?_⟩
    intro _ he
    cases he
  · have hz₁ := hen.freeZero (hz.freeZero_of_none hm hd hdir hmod hscan)
    have hd₁ := (hen.reach d).mpr hd
    have hdir₁ := (hen.isDir d hd).mpr hdir
    have hn : dirBlocks m d ≤ nDirect + nIndirect := by
      rcases hend rfl with h0 | h0 <;> omega
    have hblocks : fSize m d = (blkSize * dirBlocks m d : ℕ) := by
      have h1 := dirBlocks_eq hsize
      rw [Int.tmod_eq_emod_of_nonneg hsize] at hmod
      simp only [blkSize] at h1 hmod ⊢
      omega
    have hsize₁ := (hen.size d hd).trans hblocks
    have hlen := lengthened_resize (v := get32 m₁ (sizeField d) + BitVec.ofNat 32 blkSize) hen.consistent
      hz₁ hd₁ hdir₁ hn hsize₁ (toInt_add_blkSize (hen.consistent.size d hd₁ hdir₁) (by
        show fSize m₁ d + blkSize < 2 ^ 31
        simp only [hsize₁, blkSize, nDirect, nIndirect] at hn ⊢
        omega))
    have hd₂ := (hlen.reach d).mpr hd₁
    have hdir₂ := (hlen.isDir d hd₁).mpr hdir₁
    have h0 : blockOf (resize d (get32 m₁ (sizeField d) + BitVec.ofNat 32 blkSize) m₁) d (dirBlocks m d) = 0 := by
      refine (hlen.owned d hd₁ (.data _)).trans (hen.consistent.tail d hd₁ hdir₁ _ ?_)
      rw [Covers, hen.size d hd, hblocks]
      simp
    have hcov : Covers (resize d (get32 m₁ (sizeField d) + BitVec.ofNat 32 blkSize) m₁) d (dirBlocks m d) := by
      rw [Covers, hlen.grown, hen.size d hd, hblocks]
      simp only [blkSize]
      omega
    have hen₂ := fileGetBlock_enlarged hlen.consistent (.inl hlen.freeZero) hd₂ hdir₂ hcov h
    refine ⟨m₁, _, hen, .inr hlen, hen₂, ?_⟩
    rintro e rfl
    obtain ⟨hblk, hne, hzero⟩ := fileGetBlock_new hlen.consistent hlen.freeZero hd₂ h0 h
    refine ⟨?_, hzero⟩
    have hcell' : Cell m' d (blockAddr (blockOf m' d (dirBlocks m d)) + sizeofFile * 0) := by
      refine .mk _ 0 ((hen₂.isDir d hd₂).mpr hdir₂) ?_ hne (by decide)
      rwa [Covers, hen₂.size d hd₂]
    rwa [hblk]
  · cases h
    refine ⟨m', m', hen, .inl rfl, .refl hen.consistent, ?_⟩
    rintro _ ⟨⟩
    obtain ⟨hc, hp⟩ := hcell e rfl
    exact ⟨hc, of_decide_eq_true hp⟩

/-- **`file_create` and its cases.** -/
theorem fileCreate_cases (h0 : 0 ∉ path)
    (h : fileCreate path m = .ok (m', r)) :
    ∃ m₁ m₂ m₃, Enlarged m m₁ ∧ (m₂ = m₁ ∨ ∃ d, Lengthened d m₁ m₂) ∧ Enlarged m₂ m₃ ∧
      (m' = m₃ ∨ ∃ e, r = .ok e ∧ Created e m₃ m') := by
  obtain ⟨⟨m₁, w⟩, hwalk, h⟩ := bind_eq_ok.mp h
  obtain ⟨hen, hw⟩ := walkPath_enlarged hm hz.settled h0 hwalk
  have hrefl := Enlarged.refl hen.consistent
  cases w with
  | found f | fails e =>
    cases h
    exact ⟨m', m', m', hen, .inl rfl, hrefl, .inl rfl⟩
  | missing d name =>
    obtain ⟨hd, hdir, -, -, hlen⟩ := hw
    obtain ⟨⟨m₃, r₃⟩, halloc, h⟩ := bind_eq_ok.mp h
    obtain ⟨n₁, n₂, h1, h2, h3, h4⟩ := dirAllocFile_cases hen.consistent (hen.creatable hz) hd hdir halloc
    refine ⟨n₁, n₂, m₃, hen.trans h1, h2.imp id fun h => ⟨d, h⟩, h3, ?_⟩
    cases r₃ with
    | error e =>
      cases h
      exact .inl rfl
    | ok e =>
      cases h
      obtain ⟨hc, he⟩ := h4 e rfl
      refine .inr ⟨e, rfl, created_of_nameOnly (d := d) h3.consistent ?_ hc he fun x hx => ?_⟩
      · rcases h2 with rfl | h2
        · exact (h3.reach d).mpr ((h1.reach d).mpr hd)
        · exact (h3.reach d).mpr ((h2.reach d).mpr ((h1.reach d).mpr hd))
      · refine put_of_out ?_
        simp only [List.length_append, List.length_singleton, maxNameLen] at hlen hx ⊢
        omega

/-- **`file_create` keeps the disk consistent**, if no directory takes a block that is not empty. -/
theorem fileCreate_consistent (h0 : 0 ∉ path)
    (h : fileCreate path m = .ok (m', r)) : Consistent m' := by
  obtain ⟨m₁, m₂, m₃, -, -, h3, rfl | ⟨e, -, h4⟩⟩ := fileCreate_cases hm hz h0 h
  · exact h3.consistent
  · exact h4.consistent

end

end Jos.Fs
