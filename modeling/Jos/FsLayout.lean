import Jos.FsModel
import Mathlib.Logic.Relation

/-!
Which block of the disk belongs to which file.

A file has a block for each of its slots that is not `0`: its direct slots, its indirect block
and the slots in it. The records of the files lie in the blocks of the directories, but for that
of the root, which lies in the superblock.
-/

namespace Jos.Fs

open ByteMem

variable {m m' : Bytes} {f g d e b c i x : ℕ}

/-- The block number in slot `i` of the file, `0` if there is none. -/
def blockOf (m : Bytes) (f i : ℕ) : ℕ :=
  if i < nDirect then (get32 m (directField f i)).toNat
  else if i < nDirect + nIndirect ∧ fIndirect m f ≠ 0 then
    (get32 m (blockAddr (fIndirect m f) + 4 * (i - nDirect))).toNat
  else 0

/-- The places where a file keeps a block number. -/
inductive Slot
  | data (i : ℕ)
  | indirect
  deriving DecidableEq

def owned (m : Bytes) (f : ℕ) : Slot → ℕ
  | .data i => blockOf m f i
  | .indirect => fIndirect m f

@[simp] lemma owned_data (m : Bytes) (f i : ℕ) : owned m f (.data i) = blockOf m f i := rfl
@[simp] lemma owned_indirect (m : Bytes) (f : ℕ) : owned m f .indirect = fIndirect m f := rfl

def IsDir (m : Bytes) (f : ℕ) : Prop := fType m f = ftypeDir
  deriving Decidable

/-- Block `i` of the file begins below its size. -/
def Covers (m : Bytes) (f i : ℕ) : Prop := (blkSize : ℤ) * i < fSize m f
  deriving Decidable

inductive Cell (m : Bytes) (d : ℕ) : ℕ → Prop
  | mk (i j : ℕ) (hd : IsDir m d) (hi : Covers m d i) (hb : blockOf m d i ≠ 0) (hj : j < blkFiles) :
    Cell m d (blockAddr (blockOf m d i) + sizeofFile * j)

def Entry (m : Bytes) (d e : ℕ) : Prop := Cell m d e ∧ m e ≠ 0

def Reachable (m : Bytes) : ℕ → Prop := Relation.ReflTransGen (Entry m) rootFile

lemma reachable_root (m : Bytes) : Reachable m rootFile := .refl

lemma Reachable.entry (hd : Reachable m d) (he : Entry m d e) : Reachable m e := .tail hd he

def InBlock (b x : ℕ) : Prop := blockAddr b ≤ x ∧ x < blockAddr (b + 1)

def firstData (m : Bytes) : ℕ := 2 + (nblocks m + (8 * blkSize - 1)) / (8 * blkSize)

/-- Every block has one owner, and the bitmap knows which blocks have one. -/
structure Exclusive (m : Bytes) : Prop where
  small : nblocks m ≤ diskSize / blkSize
  reserved : ∀ b < firstData m, ¬ blockIsFree m b
  single : ∀ f g, Reachable m f → Reachable m g → ∀ s t,
    owned m f s ≠ 0 → owned m f s = owned m g t → f = g ∧ s = t
  inUse : ∀ f, Reachable m f → ∀ s, owned m f s ≠ 0 →
    firstData m ≤ owned m f s ∧ owned m f s < nblocks m ∧ ¬ blockIsFree m (owned m f s)

lemma blockAddr_succ (b : ℕ) : blockAddr (b + 1) = blockAddr b + blkSize := by
  rw [blockAddr, blockAddr, Nat.mul_add_one, Nat.add_assoc]

lemma InBlock.unique (h : InBlock b x) (h' : InBlock c x) : b = c := by
  simp only [InBlock, blockAddr, blkSize] at h h'
  omega

lemma InBlock.onDisk (h : InBlock b x) (hb : b < diskSize / blkSize) : diskMap ≤ x ∧ x < diskMap + diskSize := by
  simp only [InBlock, blockAddr, diskMap, diskSize, blkSize] at h hb ⊢
  omega

lemma two_le_firstData (m : Bytes) : 2 ≤ firstData m := Nat.le_add_right _ _

/-- Where the record of a file may lie: in block `b`, at address `e`. -/
inductive Home (m : Bytes) : ℕ → ℕ → Prop
  | root : Home m 1 rootFile
  | cell (d i j : ℕ) (hr : Reachable m d) (hd : IsDir m d) (hi : Covers m d i)
    (hb : blockOf m d i ≠ 0) (hj : j < blkFiles) :
    Home m (blockOf m d i) (blockAddr (blockOf m d i) + sizeofFile * j)

lemma Cell.home (h : Cell m d e) (hd : Reachable m d) : ∃ b, Home m b e := by
  obtain ⟨i, j, hdir, hi, hb, hj⟩ := h
  exact ⟨_, .cell d i j hd hdir hi hb hj⟩

lemma Reachable.home (h : Reachable m f) : ∃ b, Home m b f := by
  cases h with
  | refl => exact ⟨1, .root⟩
  | tail hd he => exact he.1.home hd

lemma Home.inBlock (h : Home m b e) (hx : e ≤ x) (hx' : x < e + sizeofFile) : InBlock b x := by
  cases h with
  | root =>
    simp only [InBlock, rootFile, superAddr, blockAddr, diskMap, blkSize, sizeofFile] at hx hx' ⊢
    omega
  | cell d i j hr hd hi hb hj =>
    simp only [InBlock, blockAddr, diskMap, blkSize, sizeofFile, blkFiles] at hx hx' hj ⊢
    omega

namespace Exclusive

variable (hm : Exclusive m)

include hm

variable {s : Slot}

lemma firstData_le (hf : Reachable m f) (hb : owned m f s ≠ 0) :
    firstData m ≤ owned m f s := (hm.inUse f hf s hb).1

lemma owned_lt (hf : Reachable m f) (hb : owned m f s ≠ 0) :
    owned m f s < nblocks m := (hm.inUse f hf s hb).2.1

lemma not_free (hf : Reachable m f) (hb : owned m f s ≠ 0) :
    ¬ blockIsFree m (owned m f s) := (hm.inUse f hf s hb).2.2

lemma firstData_le_of_free (hb : blockIsFree m b) : firstData m ≤ b := by
  by_contra h
  exact hm.reserved b (by omega) hb

lemma ne_zero_of_free (hb : blockIsFree m b) : b ≠ 0 := by
  have := hm.firstData_le_of_free hb
  have := two_le_firstData m
  omega

lemma owned_ne_of_free (hf : Reachable m f) (hb : blockIsFree m b) (s : Slot) : owned m f s ≠ b := by
  rintro rfl
  exact hm.not_free hf (hm.ne_zero_of_free hb) hb

section

variable (h : Home m b e)
include h

lemma home_cases : (b = 1 ∧ e = rootFile) ∨ (firstData m ≤ b ∧ b < nblocks m ∧ ∃ d i, Reachable m d ∧ IsDir m d ∧
      Covers m d i ∧ blockOf m d i = b) := by
  cases h with
  | root => exact .inl ⟨rfl, rfl⟩
  | cell d i j hr hd hi hb hj =>
    exact .inr ⟨hm.firstData_le hr (s := .data i) hb, hm.owned_lt hr (s := .data i) hb, d, i, hr, hd, hi, rfl⟩

lemma home_lt : b < diskSize / blkSize := by
  rcases hm.home_cases h with ⟨rfl, -⟩ | ⟨-, hb, -⟩
  · decide
  · exact lt_of_lt_of_le hb hm.small

lemma home_ne_zero : b ≠ 0 := by
  have := two_le_firstData m
  rcases hm.home_cases h with ⟨rfl, -⟩ | ⟨hb, -⟩ <;> omega

lemma home_not_free : ¬ blockIsFree m b := by
  rcases hm.home_cases h with ⟨rfl, -⟩ | ⟨-, -, d, i, hr, -, -, rfl⟩
  · exact hm.reserved 1 (by have := two_le_firstData m; omega)
  · exact hm.not_free hr (s := .data i) (hm.home_ne_zero h)

lemma home_not_bitmap (hx : InBlock b x) : ¬ (bitmapAddr ≤ x ∧ x < blockAddr (firstData m)) := by
  rcases hm.home_cases h with ⟨rfl, -⟩ | ⟨hb, -⟩ <;>
    simp only [InBlock, bitmapAddr, blockAddr, blkSize] at hx ⊢ <;> omega

lemma home_owner (hf : Reachable m f) (hs : owned m f s = b) : IsDir m f ∧ ∃ i, s = .data i := by
  subst hs
  rcases hm.home_cases h with ⟨h1, -⟩ | ⟨-, -, d, i, hr, hd, -, hb⟩
  · have := hm.firstData_le hf (s := s) (by omega)
    have := two_le_firstData m
    omega
  · obtain ⟨rfl, rfl⟩ := hm.single d f hr hf (.data i) s (by rw [owned_data, hb]; exact hm.home_ne_zero h) hb
    exact ⟨hd, i, rfl⟩

lemma home_disjoint {e' : ℕ} (h' : Home m c e') (hne : e ≠ e') : e + sizeofFile ≤ e' ∨ e' + sizeofFile ≤ e := by
  have hx := h.inBlock le_rfl (by simp [sizeofFile])
  have hx' := h'.inBlock le_rfl (by simp [sizeofFile])
  rcases hm.home_cases h with ⟨rfl, rfl⟩ | ⟨hb, -⟩
  · rcases hm.home_cases h' with ⟨-, rfl⟩ | ⟨hc, -⟩
    · exact absurd rfl hne
    · have := two_le_firstData m
      simp only [InBlock, rootFile, superAddr, blockAddr, blkSize, sizeofFile] at hx hx' ⊢
      omega
  · have := two_le_firstData m
    rcases hm.home_cases h' with ⟨rfl, rfl⟩ | ⟨hc, -⟩
    · simp only [InBlock, rootFile, superAddr, blockAddr, blkSize, sizeofFile] at hx hx' ⊢
      omega
    · cases h with
      | root => omega
      | cell d i j hr hd hi hb hj =>
        cases h' with
        | root => omega
        | cell d' i' j' hr' hd' hi' hb' hj' =>
          simp only [blockAddr, blkSize, sizeofFile, blkFiles] at hne hj hj' ⊢
          omega

end

end Exclusive

def Field (f x : ℕ) : Prop := (f + 128 ≤ x ∧ x < f + 132) ∨ (f + 136 ≤ x ∧ x < f + 180)

/-- The bytes that are of no file but `f`: of the bitmap, of its size and block numbers, of free blocks, of
its indirect block, and of its data unless that is made of records. -/
inductive Zone (m : Bytes) (f x : ℕ) : Prop
  | bitmap (h : bitmapAddr ≤ x) (h' : x < blockAddr (firstData m))
  | field (h : Field f x)
  | free (b : ℕ) (hx : InBlock b x) (h : blockIsFree m b)
  | indirect (hx : InBlock (fIndirect m f) x) (h : fIndirect m f ≠ 0)
  | data (i : ℕ) (hx : InBlock (blockOf m f i) x) (h : blockOf m f i ≠ 0) (hd : ¬ IsDir m f)

/-- On the disk only bytes of the zone of `f` differ. -/
def Touch (f : ℕ) (m m' : Bytes) : Prop :=
  ∀ x, diskMap ≤ x → x < diskMap + diskSize → ¬ Zone m f x → m' x = m x

namespace Exclusive

variable (hm : Exclusive m) (hf : Reachable m f)

include hm hf

lemma home_not_zone (h : Home m b e) (hx : InBlock b x) (hfield : ¬ Field f x) : ¬ Zone m f x := by
  intro hz
  cases hz with
  | bitmap h1 h2 => exact hm.home_not_bitmap h hx ⟨h1, h2⟩
  | field h1 => exact hfield h1
  | free c hc h1 => exact hm.home_not_free h (hx.unique hc ▸ h1)
  | indirect hc h1 =>
    obtain ⟨-, i, hi⟩ := hm.home_owner h hf (s := .indirect) (hc.unique hx)
    cases hi
  | data i hc h1 hd => exact hd (hm.home_owner h hf (s := .data i) (hc.unique hx)).1

lemma cell_not_zone (h : Home m b e) (hne : e ≠ f) (h1 : e ≤ x) (h2 : x < e + sizeofFile) : ¬ Zone m f x := by
  refine hm.home_not_zone hf h (h.inBlock h1 h2) fun hx => ?_
  obtain ⟨c, hc⟩ := hf.home
  have := hm.home_disjoint h hc hne
  simp only [Field, sizeofFile] at hx this h2
  omega

lemma owned_not_zone (hg : Reachable m g) (hne : g ≠ f) (hs : owned m g s ≠ 0)
    (hx : InBlock (owned m g s) x) (hfield : ¬ Field f x) : ¬ Zone m f x := by
  intro hz
  cases hz with
  | bitmap h1 h2 =>
    have := hm.firstData_le hg hs
    simp only [InBlock, blockAddr, blkSize] at hx h2
    omega
  | field h1 => exact hfield h1
  | free c hc h1 => exact hm.not_free hg hs (hx.unique hc ▸ h1)
  | indirect hc h1 => exact hne (hm.single g f hg hf s .indirect hs (hx.unique hc)).1
  | data i hc h1 hd => exact hne (hm.single g f hg hf s (.data i) hs (hx.unique hc)).1

lemma indirect_not_field (hg : Reachable m g) (hx : InBlock (fIndirect m g) x) : ¬ Field f x := by
  intro hfield
  obtain ⟨c, hc⟩ := hf.home
  have hin : InBlock c x := hc.inBlock (by unfold Field at hfield; omega)
    (by simp only [Field, sizeofFile] at hfield ⊢; omega)
  obtain ⟨-, i, hi⟩ := hm.home_owner hc hg (s := .indirect) (hx.unique hin)
  cases hi

end Exclusive

section Touch

variable (hm : Exclusive m) (hf : Reachable m f) (ht : Touch f m m')

include hm hf ht

lemma Touch.cell (h : Home m b e) (hne : e ≠ f) : Same m m' e sizeofFile := by
  intro x h1 h2
  have hd := (h.inBlock h1 h2).onDisk (hm.home_lt h)
  exact ht x hd.1 hd.2 (hm.cell_not_zone hf h hne h1 h2)

lemma Touch.kept (h1 : f ≤ x) (h2 : x < f + sizeofFile) (h3 : ¬ Field f x) : m' x = m x := by
  obtain ⟨b, h⟩ := hf.home
  have hd := (h.inBlock h1 h2).onDisk (hm.home_lt h)
  exact ht x hd.1 hd.2 (hm.home_not_zone hf h (h.inBlock h1 h2) h3)

lemma Touch.name (h : Home m b e) : Same m m' e maxNameLen := by
  intro x h1 h2
  simp only [maxNameLen] at h2
  by_cases hne : e = f
  · subst hne
    exact ht.kept hm hf h1 (by simp only [sizeofFile]; omega) (by unfold Field; omega)
  · exact ht.cell hm hf h hne x h1 (by simp only [sizeofFile]; omega)

lemma Touch.fType (h : Home m b e) : fType m' e = fType m e := by
  refine Same.get32 fun x h1 h2 => ?_
  by_cases hne : e = f
  · subst hne
    exact ht.kept hm hf (by omega) (by simp only [sizeofFile]; omega) (by unfold Field; omega)
  · exact ht.cell hm hf h hne x (by omega) (by simp only [sizeofFile]; omega)

lemma Touch.isDir (h : Home m b e) : IsDir m' e ↔ IsDir m e := by
  rw [IsDir, IsDir, ht.fType hm hf h]

lemma Touch.nblocks : nblocks m' = nblocks m := by
  refine congrArg BitVec.toNat (Same.get32 fun x h1 h2 => ?_)
  have hx : InBlock 1 x := by
    simp only [InBlock, superAddr, blockAddr, blkSize] at h1 h2 ⊢
    omega
  have hd := hx.onDisk (by decide)
  refine ht x hd.1 hd.2 (hm.home_not_zone hf .root hx fun hfield => ?_)
  obtain ⟨c, hc⟩ := hf.home
  have h3 := two_le_firstData m
  have h4 := hc.inBlock le_rfl (by simp [sizeofFile])
  rcases hm.home_cases hc with ⟨rfl, rfl⟩ | ⟨hb, -⟩ <;>
    simp only [InBlock, Field, rootFile, superAddr, blockAddr, blkSize] at h4 hfield h1 h2 <;> omega

lemma Touch.firstData : firstData m' = firstData m := by
  rw [Fs.firstData, Fs.firstData, ht.nblocks hm hf]

section

variable (hg : Reachable m g) (hne : g ≠ f)
include hg hne

lemma Touch.fSize : fSize m' g = fSize m g := by
  obtain ⟨b, h⟩ := hg.home
  exact congrArg BitVec.toInt ((ht.cell hm hf h hne).mono (by simp [sizeField]) (by
    simp [sizeField, sizeofFile])).get32

lemma Touch.fIndirect : fIndirect m' g = fIndirect m g := by
  obtain ⟨b, h⟩ := hg.home
  exact congrArg BitVec.toNat ((ht.cell hm hf h hne).mono (by simp [indirectField]) (by
    simp [indirectField, sizeofFile])).get32

lemma Touch.byte (hs : owned m g s ≠ 0)
    (hx : InBlock (owned m g s) x) (hfield : ¬ Field f x) : m' x = m x := by
  have hd := hx.onDisk (lt_of_lt_of_le (hm.owned_lt hg hs) hm.small)
  exact ht x hd.1 hd.2 (hm.owned_not_zone hf hg hne hs hx hfield)

lemma Touch.blockOf (i : ℕ) : blockOf m' g i = blockOf m g i := by
  obtain ⟨b, h⟩ := hg.home
  unfold Fs.blockOf
  rw [ht.fIndirect hm hf hg hne]
  split
  · rename_i hi
    refine congrArg BitVec.toNat ((ht.cell hm hf h hne).mono ?_ ?_).get32 <;>
      simp only [directField, sizeofFile, nDirect] at hi ⊢ <;> omega
  · split
    · rename_i hi hind
      refine congrArg BitVec.toNat (Same.get32 fun x h1 h2 => ?_)
      have hx : InBlock (Fs.fIndirect m g) x := by
        simp only [InBlock, blockAddr, blkSize, nDirect, nIndirect] at hind h1 h2 ⊢
        omega
      exact ht.byte hm hf hg hne (s := .indirect) hind.2 hx (hm.indirect_not_field hf hg hx)
    · rfl

lemma Touch.owned (s : Slot) : owned m' g s = owned m g s := by
  cases s with
  | data i => exact ht.blockOf hm hf hg hne i
  | indirect => exact ht.fIndirect hm hf hg hne

lemma Touch.covers (i : ℕ) : Covers m' g i ↔ Covers m g i := by
  rw [Covers, Covers, ht.fSize hm hf hg hne]

end

end Touch

/-- If `f` is a directory, its places for records are places it had before, or new and empty ones. -/
def CellsFrom (f : ℕ) (m m' : Bytes) : Prop :=
  IsDir m f → ∀ i, Covers m' f i → blockOf m' f i ≠ 0 →
    (Covers m f i ∧ blockOf m' f i = blockOf m f i) ∨ ∀ x, InBlock (blockOf m' f i) x → m' x = 0

def CellsKept (f : ℕ) (m m' : Bytes) : Prop :=
  IsDir m f → ∀ i, Covers m f i → blockOf m f i ≠ 0 → Covers m' f i ∧ blockOf m' f i = blockOf m f i

section Reach

variable (hm : Exclusive m) (hf : Reachable m f) (ht : Touch f m m')

include hm hf ht

lemma Touch.cell_inv (hc : CellsFrom f m m') (hd : Reachable m d) (h : Cell m' d e) :
    Cell m d e ∨ ∀ x, e ≤ x → x < e + sizeofFile → m' x = 0 := by
  obtain ⟨b, hhome⟩ := hd.home
  obtain ⟨i, j, hdir, hi, hb, hj⟩ := h
  rw [ht.isDir hm hf hhome] at hdir
  by_cases hne : d = f
  · subst hne
    rcases hc hdir i hi hb with ⟨hi', hb'⟩ | hz
    · exact .inl (hb' ▸ .mk i j hdir hi' (hb' ▸ hb) hj)
    · refine .inr fun x h1 h2 => hz x ?_
      simp only [InBlock, blockAddr, blkSize, sizeofFile, blkFiles] at h1 h2 hj ⊢
      omega
  · have hb' := ht.blockOf hm hf hd hne i
    exact .inl (hb' ▸ .mk i j hdir ((ht.covers hm hf hd hne i).mp hi) (hb' ▸ hb) hj)

lemma Touch.cell_of (hk : CellsKept f m m') (hd : Reachable m d) (h : Cell m d e) : Cell m' d e := by
  obtain ⟨b, hhome⟩ := hd.home
  obtain ⟨i, j, hdir, hi, hb, hj⟩ := h
  have hdir' := (ht.isDir hm hf hhome).mpr hdir
  by_cases hne : d = f
  · subst hne
    obtain ⟨hi', hb'⟩ := hk hdir i hi hb
    exact hb' ▸ .mk i j hdir' hi' (hb' ▸ hb) hj
  · have hb' := ht.blockOf hm hf hd hne i
    exact hb' ▸ .mk i j hdir' ((ht.covers hm hf hd hne i).mpr hi) (hb' ▸ hb) hj

lemma Touch.head (hd : Reachable m d) (h : Cell m d e) : m' e = m e := by
  obtain ⟨b, hhome⟩ := h.home hd
  exact ht.name hm hf hhome e le_rfl (by simp [maxNameLen])

lemma Touch.reachable_inv (hc : CellsFrom f m m') (hg : Reachable m' g) : Reachable m g := by
  induction hg with
  | refl => exact .refl
  | tail _ he ih =>
    rcases ht.cell_inv hm hf hc ih he.1 with h | h
    · exact .tail ih ⟨h, ht.head hm hf ih h ▸ he.2⟩
    · exact absurd (h _ le_rfl (by simp [sizeofFile])) he.2

lemma Touch.reachable_of (hk : CellsKept f m m') (hg : Reachable m g) : Reachable m' g := by
  induction hg with
  | refl => exact .refl
  | tail hd he ih => exact .tail ih ⟨ht.cell_of hm hf hk hd he.1, (ht.head hm hf hd he.1).symm ▸ he.2⟩

/-- What keeps ownership exclusive: the file holds blocks it held before or that were free, none of
them twice, and a block gets free only if the file gives it up. -/
theorem Exclusive.touch (hc : CellsFrom f m m') (hown : ∀ s, owned m' f s ≠ 0 → ¬ blockIsFree m' (owned m' f s) ∧
      (owned m' f s = owned m f s ∨ blockIsFree m (owned m' f s)))
    (hinj : ∀ s t, owned m' f s ≠ 0 → owned m' f s = owned m' f t → s = t)
    (hfree : ∀ b, blockIsFree m' b → blockIsFree m b ∨ ∃ s, owned m f s ≠ 0 ∧ owned m f s = b) :
    Exclusive m' := by
  have hn := ht.nblocks hm hf
  have hfd := ht.firstData hm hf
  have hreach : ∀ g, Reachable m' g → Reachable m g := fun g => ht.reachable_inv hm hf hc
  -- a block of another file is none of the file's
  have hother : ∀ g, Reachable m g → g ≠ f → ∀ s t, owned m' f s ≠ 0 → owned m' f s ≠ owned m g t := by
    intro g hg hne s t hs heq
    rcases (hown s hs).2 with h | h
    · exact hne (hm.single f g hf hg s t (h ▸ hs) (h ▸ heq)).1.symm
    · exact hm.owned_ne_of_free hg h t heq.symm
  refine ⟨hn ▸ hm.small, ?_, ?_, ?_⟩
  · intro b hb hfr
    rw [hfd] at hb
    rcases hfree b hfr with h | ⟨s, hs, rfl⟩
    · exact hm.reserved b hb h
    · have := hm.firstData_le hf hs
      omega
  · intro g h hg hh s t hs heq
    have hg' := hreach g hg
    have hh' := hreach h hh
    by_cases hgf : g = f
    · subst hgf
      by_cases hhf : h = g
      · subst hhf
        exact ⟨rfl, hinj s t hs heq⟩
      · rw [ht.owned hm hf hh' hhf] at heq
        exact absurd heq (hother h hh' hhf s t hs)
    · rw [ht.owned hm hf hg' hgf] at hs heq
      by_cases hhf : h = f
      · subst hhf
        exact absurd heq.symm (hother g hg' hgf t s (heq ▸ hs))
      · rw [ht.owned hm hf hh' hhf] at heq
        exact hm.single g h hg' hh' s t hs heq
  · intro g hg s hs
    have hg' := hreach g hg
    rw [hfd, hn]
    by_cases hgf : g = f
    · subst hgf
      refine ⟨?_, ?_, (hown s hs).1⟩
      · rcases (hown s hs).2 with h | h
        · exact h ▸ hm.firstData_le hf (h ▸ hs)
        · exact hm.firstData_le_of_free h
      · rcases (hown s hs).2 with h | h
        · exact h ▸ hm.owned_lt hf (h ▸ hs)
        · exact h.1
    · rw [ht.owned hm hf hg' hgf] at hs ⊢
      refine ⟨hm.firstData_le hg' hs, hm.owned_lt hg' hs, fun hfr => ?_⟩
      rcases hfree _ hfr with h | ⟨t, ht', heq⟩
      · exact hm.not_free hg' hs h
      · exact hgf (hm.single f g hf hg' t s ht' heq).1.symm

end Reach

end Jos.Fs
