import Jos.FsCreate
import Jos.Runs

/-!
Who owns a block of the disk, over all sequences of calls of the file system.

A block has one owner as long as no directory gets bytes that are no records: by a write to it, or by
a block from the free ones, as `file_get_block` does not clear the blocks it takes.
-/

namespace Jos.FsOwners

open ByteMem Fs Runs

inductive Call
  /-- A caller puts bytes into a buffer. -/
  | store (a : ℕ) (l : List UInt8)
  | create (path : List UInt8)
  | read (f buf count : ℕ) (offset : ℤ)
  | write (f buf count : ℕ) (offset : ℤ)
  | setSize (f : ℕ) (size : ℤ)

variable {m t : Bytes} {calls : List Call}

def step (m : Bytes) : Call → Except Stop Bytes
  | .store a l => .ok (put m a l)
  | .create path => (fileCreate path m).map Prod.fst
  | .read f buf count offset =>
    let t := fileRead f buf count offset m
    t.result.map fun _ => t.mem
  | .write f buf count offset =>
    let t := fileWrite f buf count offset m
    t.result.map fun _ => t.mem
  | .setSize f size => fileSetSize f size m

/-- Buffers are not on the disk, paths are strings, files can be reached, offsets and sizes are not
negative. -/
def Valid (m : Bytes) : Call → Prop
  | .store a l => ∀ k < l.length, OffDisk (a + k)
  | .create path => 0 ∉ path
  | .read f buf count offset =>
    Reachable m f ∧ ∃ o : ℕ, offset = o ∧ ∀ k < readCount m f count o, OffDisk (buf + k)
  | .write f _ _ offset => Reachable m f ∧ 0 ≤ offset ∧ offset < 2 ^ 31
  | .setSize f size => Reachable m f ∧ 0 ≤ size ∧ size < 2 ^ 31

/-- No directory gets bytes that are no records. -/
def Safe (m : Bytes) : Call → Prop
  | .create _ => Creatable m
  | .read f _ _ _ => IsDir m f → FreeZero m ∨ Filled m f
  | .write f _ _ _ => ¬ IsDir m f
  | .store _ _ | .setSize _ _ => True

/-- No block number is in two places, and the bitmap has every block that is somewhere as in use. -/
def OneOwner (m : Bytes) : Prop :=
  (∀ f g, Reachable m f → Reachable m g → ∀ s t, owned m f s ≠ 0 → owned m f s = owned m g t →
    f = g ∧ s = t) ∧
  ∀ f, Reachable m f → ∀ s, owned m f s ≠ 0 → owned m f s < nblocks m ∧ ¬ tstbit m (owned m f s)

lemma oneOwner_of_consistent (hm : Consistent m) : OneOwner m := by
  refine ⟨hm.single, fun f hf s hs => ?_⟩
  have hlt := hm.owned_lt hf hs
  exact ⟨hlt, fun hbit => hm.not_free hf hs ⟨hlt, hbit⟩⟩

lemma step_consistent {c : Call} (hm : Consistent m) (hv : Valid m c) (hs : Safe m c)
    (h : step m c = .ok t) : Consistent t := by
  cases c with
  | store a l =>
    cases h
    refine hm.dataWrite (reachable_root m) fun x h1 h2 => .inl (put_of_out ?_)
    by_contra hin
    have := hv (x - a) (by omega)
    unfold OffDisk at this
    omega
  | create path =>
    rw [step] at h
    cases hc : fileCreate path m with
    | error e =>
      rw [hc] at h
      cases h
    | ok r =>
      rw [hc] at h
      cases h
      exact fileCreate_consistent hm hs hv hc
  | read f buf count offset =>
    obtain ⟨hf, o, rfl, hbuf⟩ := hv
    have hk := (fileRead_keeps hm.toExclusive hf hs hbuf).2 hm
    rw [step] at h
    cases hr : (fileRead f buf count o m).result with
    | error e =>
      simp only [hr] at h
      cases h
    | ok r =>
      simp only [hr] at h
      cases h
      exact hk
  | write f buf count offset =>
    obtain ⟨hf, h0, hlt⟩ := hv
    obtain ⟨o, rfl⟩ := Int.eq_ofNat_of_zero_le h0
    have hk := fileWrite_consistent buf count hm hf hs (show o < 2 ^ 31 by omega)
    rw [step] at h
    cases hr : (fileWrite f buf count o m).result with
    | error e =>
      simp only [hr] at h
      cases h
    | ok r =>
      simp only [hr] at h
      cases h
      exact hk
  | setSize f size =>
    obtain ⟨hf, h0, hlt⟩ := hv
    obtain ⟨m', lo, hi, h1, -, hr⟩ := fileSetSize_released hm hf fun _ => ⟨h0, hlt⟩
    rw [step, h1] at h
    cases h
    exact hr.consistent

/-- **A block has one owner** after every run from a consistent disk in which no directory gets bytes
that are no records. -/
theorem one_owner_of_safe (hm : Consistent m) (hv : Meets step Valid m calls)
    (hs : Meets step Safe m calls) (h : run step m calls = .ok t) : OneOwner t := by
  have hC : ∀ pre c u, pre ++ [c] <+: calls → run step m pre = .ok u → Valid u c ∧ Safe u c :=
    fun pre c u hpre hu => ⟨hv.along pre c u hpre hu, hs.along pre c u hpre hu⟩
  exact oneOwner_of_consistent (run_inv_when (C := fun u c => Valid u c ∧ Safe u c)
    (fun s c s' hi hc hstep => step_consistent hi hc.1 hc.2 hstep) hm hC h)

def newDisk (n : ℕ) : Bytes :=
  set32 (set32 (set32 (fun _ => 0) (superAddr + 4) (BitVec.ofNat 32 n)) bitmapAddr 0xFFFFFFF8#32)
    (rootFile + 132) ftypeDir

def oldRecord : Bytes :=
  set32 (put (newDisk 4) (blockAddr 3 + 256) [120]) (blockAddr 3 + 256 + 136) 3#32

lemma eq_root_of_blank {g : ℕ} (hb : Blank m rootFile) (hg : Reachable m g) : g = rootFile := by
  induction hg with
  | refl => rfl
  | tail _ he ih =>
    subst ih
    obtain ⟨i, j, -, -, hi, -⟩ := he.1
    exact absurd (hb.2 (.data i)) hi

lemma consistent_of_blank (hn : nblocks m ≤ diskSize / blkSize) (hb : Blank m rootFile)
    (hr : ∀ b < firstData m, ¬ blockIsFree m b) : Consistent m := by
  have hroot : ∀ g, Reachable m g → g = rootFile := fun g hg => eq_root_of_blank hb hg
  refine ⟨⟨hn, hr, ?_, ?_⟩, ?_, ?_, ?_⟩
  · intro f g hf _ s t hs
    exact absurd (hroot f hf ▸ hb.2 s) hs
  · intro f hf s hs
    exact absurd (hroot f hf ▸ hb.2 s) hs
  · intro f hf _
    exact hroot f hf ▸ hb.1.ge
  · intro f hf _ i _
    exact hroot f hf ▸ hb.2 (.data i)
  · intro d hd e he
    obtain ⟨i, j, -, -, hi, -⟩ := he
    exact absurd (hroot d hd ▸ hb.2 (.data i)) hi

lemma blank_newDisk : Blank (newDisk 5) rootFile :=
  .of_direct (by decide) (by decide) (by decide)

lemma consistent_newDisk : Consistent (newDisk 5) :=
  consistent_of_blank (by decide) blank_newDisk (by decide)

lemma freeZero_newDisk_of {n : ℕ} (h : ∀ b < 3, ¬ blockIsFree (newDisk n) b) : FreeZero (newDisk n) := by
  intro b hb x hx
  have h3 : 3 ≤ b := not_lt.mp fun hlt => h b hlt hb
  simp only [InBlock, blockAddr, diskMap, blkSize] at hx
  unfold newDisk
  simp only [rootFile, superAddr, bitmapAddr, blockAddr, diskMap, blkSize]
  rw [set32_of_out (by omega), set32_of_out (by omega), set32_of_out (by omega)]

lemma freeZero_newDisk : FreeZero (newDisk 5) := freeZero_newDisk_of (by decide)

def firstFile : ℕ := blockAddr 3

def HasFirst (m : Bytes) : Prop :=
  IsDir m rootFile ∧ Covers m rootFile 0 ∧ blockOf m rootFile 0 = 3 ∧ m firstFile ≠ 0 ∧ ¬ IsDir m firstFile
  deriving Decidable

lemma reachable_of_root {j : ℕ} (hd : IsDir m rootFile) (hs : Covers m rootFile 0)
    (hb : blockOf m rootFile 0 = 3) (hj : j < blkFiles) (hn : m (blockAddr 3 + sizeofFile * j) ≠ 0) :
    Reachable m (blockAddr 3 + sizeofFile * j) := by
  refine (reachable_root m).entry ⟨?_, hn⟩
  rw [← hb]
  exact .mk 0 j hd hs (by rw [hb]; decide) hj

lemma HasFirst.reachable (h : HasFirst m) : Reachable m firstFile :=
  reachable_of_root (j := 0) h.1 h.2.1 h.2.2.1 (by decide) h.2.2.2.1

def session : List Call :=
  [.create [97], .store 0x1000 [1, 2, 3], .write firstFile 0x1000 3 0, .setSize firstFile 1]

theorem one_owner_of_safe_session : ∃ t, run step (newDisk 5) session = .ok t ∧ OneOwner t := by
  have hend : ∃ t, run step (newDisk 5) session = .ok t ∧ True := by decide
  have h1 : ∃ t, run step (newDisk 5) (session.take 1) = .ok t ∧ HasFirst t := by decide
  have h2 : ∃ t, run step (newDisk 5) (session.take 2) = .ok t ∧ HasFirst t := by decide
  have h3 : ∃ t, run step (newDisk 5) (session.take 3) = .ok t ∧ HasFirst t := by decide
  obtain ⟨t, ht, -⟩ := hend
  obtain ⟨m₁, h1, f1⟩ := h1
  obtain ⟨m₂, h2, f2⟩ := h2
  obtain ⟨m₃, h3, f3⟩ := h3
  have hsteps : step (newDisk 5) (.create [97]) = .ok m₁ ∧ step m₁ (.store 0x1000 [1, 2, 3]) = .ok m₂ ∧
      step m₂ (.write firstFile 0x1000 3 0) = .ok m₃ := by
    have hs1 := (run_singleton _ _).symm.trans h1
    have hs2 := (run_singleton _ _).symm.trans ((run_cons_ok hs1).symm.trans h2)
    exact ⟨hs1, hs2, (run_singleton _ _).symm.trans
      ((run_cons_ok hs2).symm.trans ((run_cons_ok hs1).symm.trans h3))⟩
  obtain ⟨hs1, hs2, hs3⟩ := hsteps
  refine ⟨t, ht, one_owner_of_safe consistent_newDisk ?_ ?_ ht⟩
  · refine .cons (show 0 ∉ [97] by decide) hs1 (.cons ?_ hs2 (.cons ?_ hs3 (.single ?_)))
    · intro k hk
      refine .inl ?_
      simp only [List.length_cons, List.length_nil, diskMap] at hk ⊢
      omega
    · exact ⟨f2.reachable, by decide⟩
    · exact ⟨f3.reachable, by decide⟩
  · exact .cons (.inl freeZero_newDisk) hs1 (.cons trivial hs2 (.cons f2.2.2.2.2 hs3 (.single trivial)))

/-- Creating a file on the other disk makes the old record one of the root directory, and the block is
both the directory's and the old file's. -/
theorem old_record_doubles_block :
    Consistent oldRecord ∧ Meets step Valid oldRecord [.create [97]] ∧
      ∃ t, run step oldRecord [.create [97]] = .ok t ∧ ¬ OneOwner t := by
  refine ⟨consistent_of_blank (by decide) ?_ (by decide), .single (show 0 ∉ [97] by decide), ?_⟩
  · exact .of_direct (by decide) (by decide) (by decide)
  have hrun : ∃ t, run step oldRecord [.create [97]] = .ok t ∧ IsDir t rootFile ∧ Covers t rootFile 0 ∧
      blockOf t rootFile 0 = 3 ∧ t (blockAddr 3 + sizeofFile * 1) ≠ 0 ∧
      blockOf t (blockAddr 3 + sizeofFile * 1) 0 = 3 := by decide
  obtain ⟨t, ht, hd, hs, hb, hn, hb'⟩ := hrun
  refine ⟨t, ht, fun h => ?_⟩
  have hr := reachable_of_root hd hs hb (by decide) hn
  have := (h.1 rootFile _ (reachable_root t) hr (.data 0) (.data 0) (by rw [owned_data, hb]; decide)
    (hb.trans hb'.symm)).1
  revert this
  decide

end Jos.FsOwners
