import Jos.FsSize

/-!
`file_read` and `file_write`, for positions that are not negative: what they keep, however they end.
-/

namespace Jos.Fs

open ByteMem CArray

variable {m m' m₁ : Bytes} {f buf count stop p o n : ℕ}

/-- The bytes `file_read` asks its loop for. -/
def readCount (m : Bytes) (f count o : ℕ) : ℕ := min count (fSize m f - o).toNat

lemma fileRead_end {offset : ℤ} (h : fSize m f ≤ offset) : fileRead f buf count offset m = ⟨m, [], .ok 0⟩ := if_pos h

lemma readCount_le (count : ℕ) (h : (o : ℤ) < fSize m f) : (o : ℤ) + readCount m f count o ≤ fSize m f := by
  unfold readCount
  omega

lemma fileRead_eq (h : (o : ℤ) < fSize m f) : fileRead f buf count o m =
      (transferLoop toBuf f (o + readCount m f count o) rounds o buf m).returns (readCount m f count o) := by
  have hlt := fSize_lt m f
  have hle := readCount_le count h
  obtain ⟨k, hk⟩ : ∃ k : ℕ, fSize m f - o = k := Int.eq_ofNat_of_zero_le (by omega)
  have h1 : intToSize (Int.bmod (fSize m f - o) (2 ^ 32)) = k := by
    rw [Int.bmod_eq_of_le (by omega) (by omega), hk, intToSize_of_nonneg]
  have h2 : min count k = readCount m f count o := by rw [readCount, hk, Int.toNat_natCast]
  rw [fileRead, if_neg (by omega)]
  simp only [h1, h2]
  rw [intToSize_of_nonneg, Nat.mod_eq_of_lt (by omega)]

lemma fileWrite_eq {offset : ℤ} (h : offset = o) (ho : o < 2 ^ 31) : fileWrite f buf count offset m =
      match if intToSize (fSize m f) < (o + count) % 2 ^ 64 then
          fileSetSize f (sizeToInt ((o + count) % 2 ^ 64)) m else .ok m with
      | .error e => ⟨m, [], .error e⟩
      | .ok m => (transferLoop fromBuf f ((o + count) % 2 ^ 64) rounds o buf m).returns count := by
  subst h
  have h0 : intToSize (o : ℤ) = o := intToSize_of_nonneg
  unfold fileWrite
  generalize intToSize (o : ℤ) = k at h0 ⊢
  subst h0
  rfl

lemma transferLoop_far {move : ℕ → ℕ → ℕ → Move} (h : maxFileSize ≤ p) (hp : p < 2 ^ 31) (n : ℕ) :
    (transferLoop move f stop n p buf m).mem = m ∧ (transferLoop move f stop n p buf m).moves = [] := by
  cases n with
  | zero => exact ⟨rfl, rfl⟩
  | succ n =>
    have h2 : ((p : ℤ).tdiv blkSize % 2 ^ 32).toNat = p / blkSize := by
      rw [Int.tdiv_eq_ediv_of_nonneg (by omega)]
      simp only [blkSize]
      omega
    have h3 : nDirect + nIndirect ≤ p / blkSize := by
      simp only [maxFileSize, nDirect, nIndirect, blkSize] at h ⊢
      omega
    rw [transferLoop, h2, fileGetBlock_of_error (fileBlockWalk_range true h3)]
    split <;> exact ⟨rfl, rfl⟩

variable {r : Except ℤ ℕ} {i : ℕ}

section Round

variable (hm : Exclusive m) (hf : Reachable m f)

include hm hf

lemma fileGetBlock_grows (hz : IsDir m f → FreeZero m ∨ blockOf m f i ≠ 0)
    (h : fileGetBlock f i m = .ok (m', r)) : Grows f m m' := by
  obtain ⟨m₁, r₁, h1, hg⟩ := fileGetBlock_cases hm hf i
  rw [h1] at h
  cases h
  exact hg.grows hm hf hz

lemma fileGetBlock_blockOf {i blk : ℕ} (h : fileGetBlock f i m = .ok (m', .ok blk)) :
    blockOf m' f i ≠ 0 ∧ blk = blockAddr (blockOf m' f i) := by
  obtain ⟨m₁, r₁, h1, hg⟩ := fileGetBlock_cases hm hf i
  rw [h1] at h
  cases h
  exact hg.blockOf hm hf

end Round

lemma fileGetBlock_consistent (hm : Consistent m) (hf : Reachable m f)
    (hs : IsDir m f → Covers m f i) (hz : IsDir m f → FreeZero m ∨ blockOf m f i ≠ 0)
    (h : fileGetBlock f i m = .ok (m', r)) : Consistent m' := by
  obtain ⟨m₁, r₁, h1, hg⟩ := fileGetBlock_cases hm.toExclusive hf i
  rw [h1] at h
  cases h
  exact hg.consistent hm hf hs hz

lemma dataWrite_off {v : Move} (h : ∀ k < v.len, OffDisk (v.dst + k)) : DataWrite f m (v.apply m) := by
  intro x h1 h2
  refine .inl (move_of_out ?_)
  by_contra hin
  have := h (x - v.dst) (by omega)
  unfold OffDisk at this
  omega

lemma dataWrite_block {i buf : ℕ} (hd : ¬ IsDir m f) (hi : blockOf m f i ≠ 0) :
    DataWrite f m ((fromBuf (blockAddr (blockOf m f i) + p % blkSize) buf (chunk stop p)).apply m) := by
  intro x _ _
  by_cases hx : blockAddr (blockOf m f i) + p % blkSize ≤ x ∧
      x < blockAddr (blockOf m f i) + p % blkSize + chunk stop p
  · have h1 := chunk_inBlock stop p
    refine .inr ⟨hd, i, hi, ?_⟩
    rw [InBlock, blockAddr_succ]
    omega
  · exact .inl (move_of_out (by simp only [fromBuf]; omega))

def Keeps (f : ℕ) (m m' : Bytes) : Prop := Stays f m m' ∧ (Consistent m → Consistent m')

lemma Keeps.refl (hm : Exclusive m) (f : ℕ) : Keeps f m m := ⟨.refl hm f, id⟩

section Keeps

variable (hm : Exclusive m) (hf : Reachable m f)

include hf

lemma Keeps.get (h : Keeps f m m') (hs : IsDir m f → Covers m f i)
    (hz : IsDir m f → FreeZero m ∨ Filled m f) (hg : fileGetBlock f i m' = .ok (m₁, r)) :
    Keeps f m m₁ := by
  have hf' := (h.1.reach f).mpr hf
  have hs' : IsDir m' f → Covers m' f i := by
    rw [h.1.isDir f hf, Covers, h.1.size f hf]
    exact hs
  have hz' : IsDir m' f → FreeZero m' ∨ blockOf m' f i ≠ 0 := by
    intro hd
    exact (hz ((h.1.isDir f hf).mp hd)).imp h.1.freeZero fun hfill => h.1.filled hf hfill i (hs' hd)
  exact ⟨h.1.trans hf (fileGetBlock_grows h.1.exclusive hf' hz' hg).toStays,
    fun hc => fileGetBlock_consistent (h.2 hc) hf' hs' hz' hg⟩

lemma Keeps.dataWrite (h : Keeps f m m') (hw : DataWrite f m' m₁) : Keeps f m m₁ := by
  have hf' := (h.1.reach f).mpr hf
  exact ⟨h.1.trans hf (hw.stays h.1.exclusive hf'), fun hc => (h.2 hc).dataWrite hf' hw⟩

include hm

/-- **`file_read` loses nothing**, into a buffer off the disk. -/
theorem fileRead_keeps (hz : IsDir m f → FreeZero m ∨ Filled m f)
    (hbuf : ∀ k < readCount m f count o, OffDisk (buf + k)) :
    Keeps f m (fileRead f buf count o m).mem := by
  rcases le_or_gt (fSize m f) o with hle | hlt
  · rw [fileRead_end hle]
    exact .refl hm f
  rw [fileRead_eq hlt]
  show Keeps f m (transferLoop toBuf f (o + readCount m f count o) rounds o buf m).mem
  have h1 := fSize_lt m f
  have h2 := readCount_le count hlt
  rcases le_or_gt maxFileSize o with hfar | hnear
  · rw [(transferLoop_far hfar (by omega) rounds).1]
    exact .refl hm f
  have hcov : ∀ p, p < o + readCount m f count o → Covers m f (p / blkSize) := by
    intro p hp
    simp only [Covers, blkSize]
    omega
  suffices h : Keeps f m (transferLoop toBuf f (o + readCount m f count o) rounds o (buf + (o - o)) m).mem by
    simpa using h
  refine transferLoop_inv (I := Keeps f m) (by omega) ?_ ?_ le_rfl hnear.le (.refl hm f)
  · exact fun p m' m₁ r _ hp hk hg => hk.get hf (fun _ => hcov p hp) hz hg
  · intro p m' m₁ blk hop hp hk hg
    have hk₁ := hk.get hf (fun _ => hcov p hp) hz hg
    refine hk₁.dataWrite hf (dataWrite_off fun k hk' => ?_)
    have h3 := chunk_le (o + readCount m f count o) p
    change k < chunk (o + readCount m f count o) p at hk'
    show OffDisk (buf + (p - o) + k)
    rw [Nat.add_assoc]
    exact hbuf _ (by omega)

/-- **The loop of `file_write` loses nothing**, for a file that is no directory. -/
theorem writeLoop_keeps (hd : ¬ IsDir m f) (ho : o < 2 ^ 31) (hs : stop < 2 ^ 64) (n : ℕ) :
    Keeps f m (transferLoop fromBuf f stop n o buf m).mem := by
  rcases le_or_gt maxFileSize o with hfar | hnear
  · rw [(transferLoop_far hfar ho n).1]
    exact .refl hm f
  suffices h : Keeps f m (transferLoop fromBuf f stop n o (buf + (o - o)) m).mem by
    simpa using h
  refine transferLoop_inv (I := Keeps f m) hs ?_ ?_ le_rfl hnear.le (.refl hm f)
  · exact fun p m' m₁ r _ hp hk hg => hk.get hf (fun h => absurd h hd) (fun h => absurd h hd) hg
  · intro p m' m₁ blk _ hp hk hg
    have hk₁ := hk.get hf (fun h => absurd h hd) (fun h => absurd h hd) hg
    obtain ⟨hne, rfl⟩ := fileGetBlock_blockOf hk.1.exclusive ((hk.1.reach f).mpr hf) hg
    exact hk₁.dataWrite hf (dataWrite_block (fun h => hd ((hk₁.1.isDir f hf).mp h)) hne)

end Keeps

/-- **`file_write` keeps the disk consistent**, for a file that is no directory. -/
theorem fileWrite_consistent (buf count : ℕ) (hm : Consistent m) (hf : Reachable m f) (hd : ¬ IsDir m f) (ho : o < 2 ^ 31) :
    Consistent (fileWrite f buf count o m).mem := by
  have hstop : (o + count) % 2 ^ 64 < 2 ^ 64 := Nat.mod_lt _ (by decide)
  rw [fileWrite_eq rfl ho]
  split_ifs with hgrow
  · obtain ⟨m₁, lo, hi, h, -, hr⟩ := fileSetSize_released hm hf
      (z := sizeToInt ((o + count) % 2 ^ 64)) fun h => absurd h hd
    rw [h]
    exact (writeLoop_keeps hr.consistent.toExclusive hr.self (fun h => hd ((hr.isDir f hr.self).mp h)) ho
      hstop rounds).2 hr.consistent
  · exact (writeLoop_keeps hm.toExclusive hf hd ho hstop rounds).2 hm

end Jos.Fs
