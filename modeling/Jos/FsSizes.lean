import Jos.FsContents

/-!
The sizes of files, and what the calls of the file system do to them.

A directory whose size is not a number of blocks ends the server at the next path that goes through
it.
-/

namespace Jos.Fs

open ByteMem CArray

variable {m m' m'' : Bytes} {f g d e i n x : ℕ} {name path : List UInt8} {z : ℤ}

/-- A size that the file `f` may have. -/
def SizeOk (m : Bytes) (f : ℕ) (z : ℤ) : Prop := 0 ≤ z ∧ z ≤ maxFileSize ∧ (IsDir m f → (blkSize : ℤ) ∣ z)
  deriving Decidable

/-- **File sizes are valid.** -/
def SizesValid (m : Bytes) : Prop := ∀ f, Reachable m f → SizeOk m f (fSize m f)

structure Sound (m : Bytes) : Prop extends Consistent m where
  valid : SizesValid m

lemma SizeOk.lt (h : SizeOk m f z) : z < 2 ^ 31 := by
  have hmax := h.2.1
  simp only [maxFileSize, nDirect, nIndirect, blkSize] at hmax
  omega

def SameDisk (m m' : Bytes) : Prop := ∀ x, ¬ OffDisk x → m' x = m x

lemma SameDisk.trans (h : SameDisk m m') (h' : SameDisk m' m'') : SameDisk m m'' :=
  fun x hx => (h' x hx).trans (h x hx)

lemma sameDisk_set32 {a : ℕ} {v : BitVec 32} (h : a + 4 ≤ diskMap ∨ diskMap + diskSize ≤ a) :
    SameDisk m (set32 m a v) := fun x hx => set32_of_out (by unfold OffDisk at hx; omega)

lemma SameDisk.dataWrite (h : SameDisk m m') (f : ℕ) : DataWrite f m m' :=
  fun x h1 h2 => .inl (h x (by unfold OffDisk; omega))

lemma SameDisk.stays (h : SameDisk m m') (hm : Exclusive m) : Stays rootFile m m' :=
  (h.dataWrite rootFile).stays hm (reachable_root m)

lemma Stays.sizesValid (h : Stays f m m') (hv : SizesValid m) : SizesValid m' := by
  intro g hg
  have hg' := (h.reach g).mp hg
  rw [SizeOk, h.size g hg', h.isDir g hg']
  exact hv g hg'

lemma Sound.sameDisk (hm : Sound m) (h : SameDisk m m') : Sound m' :=
  ⟨hm.toConsistent.dataWrite (reachable_root m) (h.dataWrite rootFile), (h.stays hm.toExclusive).sizesValid hm.valid⟩

lemma Stays.whole (h : Stays f m m') (hw : Whole m) : Whole m' := by
  intro d hd hdir
  have hd' := (h.reach d).mp hd
  exact h.filled hd' (hw d hd' ((h.isDir d hd').mp hdir))

lemma Stays.settled (h : Stays f m m') (hz : Settled m) : Settled m' := hz.imp h.freeZero h.whole

lemma SameDisk.creatable (h : SameDisk m m') (hm : Exclusive m) (hz : Creatable m) : Creatable m' := by
  have hstays := h.stays hm
  refine hz.imp hstays.freeZero fun ⟨hw, hroom⟩ => ⟨hstays.whole hw, fun d hd hdir => ?_⟩
  have hd' := (hstays.reach d).mp hd
  have hdata := h.dataWrite d
  have htouch := hdata.touch
  obtain ⟨e, hc, he⟩ := hroom d hd' ((hstays.isDir d hd').mp hdir)
  exact ⟨e, htouch.cell_of hm hd' (hdata.cellsKept hm hd') hd' hc, (htouch.head hm hd' hd' hc).trans he⟩

def Extendable (m : Bytes) : Prop := ∀ d, Reachable m d → IsDir m d → fSize m d < maxFileSize

lemma Stays.extendable (h : Stays f m m') (hlt : Extendable m) : Extendable m' := by
  intro d hd hdir
  have hd' := (h.reach d).mp hd
  rw [h.size d hd']
  exact hlt d hd' ((h.isDir d hd').mp hdir)

lemma Enlarged.sound (h : Enlarged m m') (hm : Sound m) : Sound m' := by
  refine ⟨h.consistent, fun g hg => ?_⟩
  have hg' := (h.reach g).mp hg
  rw [SizeOk, h.size g hg', h.isDir g hg']
  exact hm.valid g hg'

lemma Lengthened.sound (h : Lengthened d m m') (hm : Sound m) (hlt : fSize m d < maxFileSize) : Sound m' := by
  refine ⟨h.consistent, fun g hg => ?_⟩
  have hg' := (h.reach g).mp hg
  by_cases hgd : g = d
  · subst hgd
    obtain ⟨n, -, hn⟩ := h.blocks
    rw [SizeOk, h.grown, hn]
    rw [hn] at hlt
    simp only [maxFileSize, nDirect, nIndirect, blkSize] at hlt ⊢
    omega
  · rw [SizeOk, h.size g hg' hgd, h.isDir g hg']
    exact hm.valid g hg'

lemma Created.sound (h : Created e m m') (hm : Sound m) : Sound m' := by
  refine ⟨h.consistent, fun g hg => ?_⟩
  rcases h.back g hg with hg' | rfl
  · rw [SizeOk, h.size g hg', h.isDir g hg']
    exact hm.valid g hg'
  · rw [SizeOk, h.blank.1]
    exact ⟨le_rfl, Int.natCast_nonneg _, fun _ => dvd_zero _⟩

lemma Created.settled (h : Created e m m') (hz : Settled m) : Settled m' := by
  refine hz.imp h.freeZero fun hw d hd hdir i hi => ?_
  rcases h.back d hd with hd' | rfl
  · rw [show blockOf m' d i = blockOf m d i from h.owned d hd' (.data i)]
    rw [Covers, h.size d hd'] at hi
    exact hw d hd' ((h.isDir d hd').mp hdir) i hi
  · rw [Covers, h.blank.1, blkSize] at hi
    omega

lemma Released.sound {lo hi : ℕ} (h : Released f lo hi m m') (hm : Sound m) (hsize : SizeOk m f (fSize m' f)) :
    Sound m' := by
  refine ⟨h.consistent, fun g hg => ?_⟩
  by_cases hgf : g = f
  · subst hgf
    rw [SizeOk, h.isDir g hg]
    exact hsize
  · rw [SizeOk, h.size g hg hgf, h.isDir g hg]
    exact hm.valid g (h.back g hg)

lemma fileSetSize_sound (hm : Sound m) (hf : Reachable m f) (hz : SizeOk m f z) :
    ∃ m', fileSetSize f z m = .ok m' ∧ Sound m' ∧ Reachable m' f ∧ (IsDir m' f ↔ IsDir m f) := by
  obtain ⟨m', lo, hi, h, hsize, hr⟩ := fileSetSize_released hm.toConsistent hf (fun _ => ⟨hz.1, hz.lt⟩)
  rw [toInt_ofInt_size hz.1 hz.lt] at hsize
  exact ⟨m', h, hr.sound hm (hsize ▸ hz), hr.self, hr.isDir f hr.self⟩

lemma sizeOk_zero (m : Bytes) (f : ℕ) : SizeOk m f 0 := ⟨le_rfl, Int.natCast_nonneg _, fun _ => dvd_zero _⟩

lemma resize_freeZero {v : BitVec 32} (hm : Exclusive m) (hf : Reachable m f) (hz : FreeZero m) :
    FreeZero (resize f v m) := by
  intro b hb x hin
  have hb' := (resize_blockIsFree hm hf b).mp hb
  have hout := hm.words_not_inBlock hf (words_sizeField m f) (.inl hb')
  rw [resize, set32_of_out (by unfold InBlock at hin; omega)]
  exact hz b hb' x hin

lemma truncate_settled (hm : Sound m) (hf : Reachable m f) (hz : Settled m) (h0 : fSize m f = 0 ∨ Whole m)
    (h : fileSetSize f 0 m = .ok m') : Settled m' := by
  have hwhole : Whole m → Whole m' := by
    obtain ⟨m₁, lo, hi, h₁, hsize, hr⟩ := fileSetSize_released hm.toConsistent hf
      (fun _ => ⟨le_rfl, (sizeOk_zero m f).lt⟩)
    obtain rfl := Except.ok.inj (h₁.symm.trans h)
    intro hw d hd hdir i hi
    by_cases hdf : d = f
    · subst hdf
      rw [Covers, hsize, toInt_ofInt_size le_rfl (sizeOk_zero m d).lt, blkSize] at hi
      omega
    · rw [show blockOf m₁ d i = blockOf m d i from hr.other d hd hdf (.data i)]
      rw [Covers, hr.size d hd hdf] at hi
      exact hw d (hr.back d hd) ((hr.isDir d hd).mp hdir) i hi
  rcases h0 with h0 | hw
  · refine hz.imp (fun hz => ?_) hwhole
    rw [fileSetSize_grow h0.le] at h
    obtain rfl := Except.ok.inj h
    exact resize_freeZero hm.toExclusive hf hz
  · exact .inr (hwhole hw)

def NoAssert {α : Type} (x : Except Stop α) : Prop := x ≠ .error .assertion

lemma noAssert_ok {α : Type} (a : α) : NoAssert (.ok a : Except Stop α) := by
  intro h
  cases h

lemma NoAssert.bind {α β : Type} {x : Except Stop α} {k : α → Except Stop β} (h : NoAssert x)
    (hk : ∀ a, x = .ok a → NoAssert (k a)) : NoAssert (x >>= k) := by
  cases x with
  | error e => exact fun hc => h (congrArg _ (Except.error.inj hc))
  | ok a => exact hk a rfl

lemma noAssert_diskaddr (m : Bytes) (b : ℕ) : NoAssert (diskaddr m b) := by
  unfold diskaddr
  split
  · intro h
    cases h
  · exact noAssert_ok _

lemma noAssert_fileBlockWalk (f i : ℕ) (alloc : Bool) (m : Bytes) : NoAssert (fileBlockWalk f i alloc m) := by
  unfold fileBlockWalk
  split
  · exact noAssert_ok _
  split
  · exact noAssert_ok _
  split
  · split
    · dsimp only
      split
      · exact noAssert_ok _
      · exact (noAssert_diskaddr _ _).bind fun _ _ => (noAssert_diskaddr _ _).bind fun _ _ => noAssert_ok _
    · exact noAssert_ok _
  · exact (noAssert_diskaddr _ _).bind fun _ _ => noAssert_ok _

lemma noAssert_fileGetBlock (f i : ℕ) (m : Bytes) : NoAssert (fileGetBlock f i m) := by
  refine (noAssert_fileBlockWalk f i true m).bind fun r _ => ?_
  rcases r with ⟨m, e | p⟩
  · exact noAssert_ok _
  · dsimp only
    split
    · split
      · exact noAssert_ok _
      · exact (noAssert_diskaddr _ _).bind fun _ _ => noAssert_ok _
    · exact (noAssert_diskaddr _ _).bind fun _ _ => noAssert_ok _

lemma noAssert_dirScan (d : ℕ) (p : Bytes → ℕ → Bool) (n i : ℕ) (m : Bytes) : NoAssert (dirScan d p n i m) := by
  induction n generalizing i m with
  | zero => exact noAssert_ok _
  | succ n ih =>
    refine (noAssert_fileGetBlock d i m).bind fun r _ => ?_
    rcases r with ⟨m, e | blk⟩
    · exact noAssert_ok _
    · dsimp only
      split
      · exact noAssert_ok _
      · exact ih _ _

section Directories

variable (hd : Reachable m d) (hdir : IsDir m d)

include hd hdir in
lemma Sound.tmod (hm : Sound m) : (fSize m d).tmod blkSize = 0 := by
  obtain ⟨h0, -, hdvd⟩ := hm.valid d hd
  exact Int.tmod_eq_zero_of_dvd (hdvd hdir)

include hd hdir in
lemma noAssert_dirLookup (hm : Sound m) : NoAssert (dirLookup d name m) := by
  unfold dirLookup
  rw [if_pos (hm.tmod hd hdir)]
  refine (noAssert_dirScan _ _ _ _ _).bind fun r _ => ?_
  rcases r with ⟨m, e | _ | e⟩ <;> exact noAssert_ok _

include hd hdir in
lemma noAssert_dirAllocFile (hm : Sound m) : NoAssert (dirAllocFile d m) := by
  unfold dirAllocFile
  rw [if_pos (hm.tmod hd hdir)]
  refine (noAssert_dirScan _ _ _ _ _).bind fun r _ => ?_
  rcases r with ⟨m, e | _ | e⟩
  · exact noAssert_ok _
  · exact noAssert_fileGetBlock _ _ _
  · exact noAssert_ok _

end Directories

lemma noAssert_walkOutFrom {dir : ℕ} (hm : Sound m) (hz : Settled m) (hd : Reachable m d) (h0 : 0 ∉ path)
    (hskip : Skipped path) : NoAssert (walkOutFrom n path dir d m) := by
  induction n generalizing path dir d m with
  | zero => exact noAssert_ok _
  | succ n ih =>
    cases path with
    | nil => exact noAssert_ok _
    | cons c l =>
      rw [walkOutFrom]
      swap
      · exact List.cons_ne_nil c l
      split
      · exact noAssert_ok _
      split
      · exact noAssert_ok _
      rename_i hdir
      have hdir' : IsDir m d := not_not.mp hdir
      have hne : (c :: l).takeWhile (· != slash) ≠ [] := by
        simp [show c ≠ slash from hskip]
      refine (noAssert_dirLookup hd hdir' hm).bind fun r hlook => ?_
      obtain ⟨m₁, r⟩ := r
      obtain ⟨hen, hfound⟩ := dirLookup_enlarged hm.toConsistent hz hd hdir' hne (not_mem_takeWhile h0) hlook
      cases r with
      | ok f =>
        exact ih (hen.sound hm) (hen.settled hz) (hfound f rfl)
          (not_mem_dropWhile (not_mem_dropWhile h0)) (skipped_skipSlash _)
      | error e =>
        dsimp only
        split <;> exact noAssert_ok _

section

variable (hm : Sound m) (hz : Settled m) (h0 : 0 ∉ path)
include hm hz h0

lemma noAssert_walkPath : NoAssert (walkPath path m) :=
  (noAssert_walkOutFrom hm hz (reachable_root m) (not_mem_dropWhile h0) (skipped_skipSlash path)).bind
    fun _ _ => noAssert_ok _

lemma fileOpen_sound : NoAssert (fileOpen path m) ∧ ∀ m' r, fileOpen path m = .ok (m', r) →
      Enlarged m m' ∧ ∀ f, r = .ok f → Reachable m' f := by
  have hwalk := noAssert_walkPath hm hz h0
  constructor
  · refine hwalk.bind fun r _ => ?_
    rcases r with ⟨m, f | ⟨d, name⟩ | e⟩ <;> exact noAssert_ok _
  · intro m' r h
    obtain ⟨⟨m₁, w⟩, hw, h⟩ := bind_eq_ok.mp h
    obtain ⟨hen, hwalkOk⟩ := walkPath_enlarged hm.toConsistent hz h0 hw
    cases w with
    | found f =>
      cases h
      exact ⟨hen, fun _ hf => by cases hf; exact hwalkOk⟩
    | missing d name | fails e =>
      cases h
      exact ⟨hen, fun _ hf => by cases hf⟩

lemma noAssert_fileCreate : NoAssert (fileCreate path m) := by
  refine (noAssert_walkPath hm hz h0).bind fun r hr => ?_
  obtain ⟨m₁, w⟩ := r
  obtain ⟨hen, hw⟩ := walkPath_enlarged hm.toConsistent hz h0 hr
  cases w with
  | found f | fails e => exact noAssert_ok _
  | missing d name =>
    obtain ⟨hd, hdir, -⟩ := hw
    refine (noAssert_dirAllocFile hd hdir (hen.sound hm)).bind fun r _ => ?_
    rcases r with ⟨m, e | filp⟩ <;> exact noAssert_ok _

end

lemma dirAllocFile_error {c : ℤ} (h : dirAllocFile d m = .ok (m', .error c)) : IsCode c := by
  unfold dirAllocFile at h
  split at h
  · obtain ⟨⟨m₁, r⟩, hscan, h⟩ := bind_eq_ok.mp h
    rcases r with c' | _ | e
    · cases h
      exact dirScan_error hscan
    · exact fileGetBlock_error h
    · cases h
  · cases h

lemma fileCreate_new (hm : Consistent m) (hz : Creatable m) (h0 : 0 ∉ path)
    (h : fileCreate path m = .ok (m', .ok e)) : Reachable m' e ∧ fSize m' e = 0 := by
  obtain ⟨⟨m₁, w⟩, hwalk, h⟩ := bind_eq_ok.mp h
  obtain ⟨hen, hw⟩ := walkPath_enlarged hm hz.settled h0 hwalk
  cases w with
  | found f | fails c => cases h
  | missing d name =>
    obtain ⟨hd, hdir, hne, hname, hlen⟩ := hw
    obtain ⟨⟨m₃, r₃⟩, halloc, h⟩ := bind_eq_ok.mp h
    obtain ⟨n₁, n₂, h1, h2, h3, h4⟩ := dirAllocFile_cases hen.consistent (hen.creatable hz) hd hdir halloc
    cases r₃ with
    | error c => cases h
    | ok e' =>
      cases h
      obtain ⟨hc, he⟩ := h4 e rfl
      have hd₃ : Reachable m₃ d := by
        rcases h2 with rfl | h2
        · exact (h3.reach d).mpr ((h1.reach d).mpr hd)
        · exact (h3.reach d).mpr ((h2.reach d).mpr ((h1.reach d).mpr hd))
      have hn : NameOnly e m₃ (put m₃ e (name ++ [0])) := fun x hx => by
        refine put_of_out ?_
        simp only [List.length_append, List.length_singleton, maxNameLen] at hlen hx ⊢
        omega
      refine ⟨(name_keeps h3.consistent hd₃ hc he hn hd₃).entry ⟨(name_cell h3.consistent hd₃ hc he hn hd₃).mpr hc, ?_⟩,
        (name_blank h3.consistent hd₃ hc he hn).1⟩
      obtain ⟨c, l, rfl⟩ := List.exists_cons_of_ne_nil hne
      rw [put_of_in le_rfl (by simp), Nat.sub_self]
      rintro rfl
      exact hname (List.mem_cons_self ..)

/-- **`file_create` and the sizes.** -/
lemma fileCreate_sound {r : Except ℤ ℕ} (hm : Sound m) (hz : Creatable m) (hlt : Extendable m) (h0 : 0 ∉ path)
    (h : fileCreate path m = .ok (m', r)) :
    Sound m' ∧ Settled m' ∧ (∀ e, r = .ok e → Reachable m' e ∧ fSize m' e = 0) ∧
      (r = .error (-eFileExists) → Enlarged m m') := by
  obtain ⟨m₁, m₂, m₃, h1, h2, h3, h4⟩ := fileCreate_cases hm.toConsistent hz h0 h
  have hs₁ := h1.sound hm
  have hs₂ : Sound m₂ ∧ Settled m₂ := by
    rcases h2 with rfl | ⟨d, hlen⟩
    · exact ⟨hs₁, h1.settled hz.settled⟩
    · have hd := (h1.reach d).mp hlen.reachable
      refine ⟨hlen.sound hs₁ ?_, .inl hlen.freeZero⟩
      rw [h1.size d hd]
      exact hlt d hd ((h1.isDir d hd).mp hlen.dir)
  have hs₃ := h3.sound hs₂.1
  have hz₃ := h3.settled hs₂.2
  refine and_assoc.mp ⟨?_, ?_, ?_⟩
  · rcases h4 with rfl | ⟨e, -, hc⟩
    · exact ⟨hs₃, hz₃⟩
    · exact ⟨hc.sound hs₃, hc.settled hz₃⟩
  · rintro e rfl
    exact fileCreate_new hm.toConsistent hz h0 h
  · rintro rfl
    obtain ⟨⟨m₄, w⟩, hwalk, h⟩ := bind_eq_ok.mp h
    obtain ⟨hen, hw⟩ := walkPath_enlarged hm.toConsistent hz.settled h0 hwalk
    cases w with
    | found f | fails c =>
      cases h
      exact hen
    | missing d name =>
      obtain ⟨⟨m₅, r⟩, halloc, h⟩ := bind_eq_ok.mp h
      cases r with
      | ok e => cases h
      | error c =>
        cases h
        -- no such code comes from the block functions
        rcases dirAllocFile_error halloc with hcode | hcode | hcode <;> exact absurd hcode (by decide)

end Jos.Fs
