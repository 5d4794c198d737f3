import Jos.FsServe
import Jos.FsSizes

/-!
Which bytes `serve_read` and `serve_write` copy.

Neither of them looks at the number of bytes a client asks for: it goes on to `file_read` and
`file_write`, and only the size of the file bounds what is read. The request page ends where the
disk begins.
-/

namespace Jos.FsServe

open ByteMem CArray Fs List Nat

variable {s : Server} {m m₁ m₂ : Bytes} {i f buf stop o d n count b₁ b₂ : ℕ} {move : ℕ → ℕ → ℕ → Move} {v : Move}

def InPage (a len : ℕ) : Prop := fsreq ≤ a ∧ a + len ≤ fsreq + pageSize
  deriving Decidable

def ReadsInPage (s : Server) (i f : ℕ) : Prop := ∀ v ∈ (readCall s i f).moves, InPage v.dst v.len

def WritesFromPage (s : Server) (i f : ℕ) : Prop := ∀ v ∈ (writeCall s i f).moves, InPage v.src v.len

/-- `req_n`. -/
def reqN (s : Server) : ℕ := get64 s.mem (fsreq + 8)

def ReadFits (s : Server) (i f : ℕ) : Prop :=
  ∀ o : ℕ, fdOffset s.mem i = o → (o : ℤ) < fSize s.mem f → readCount s.mem f (reqN s) o ≤ pageSize

/-- No more is to be written than `req_buf` holds. -/
def WriteFits (s : Server) : Prop := reqN s ≤ pageSize - 16

lemma moves_of_neg (hd : 0 < d) (hd' : d ≤ 2 ^ 31) (hc : count < 2 ^ 64)
    (hv : v ∈ (transferLoop move f ((intToSize (-(d : ℤ)) + count) % 2 ^ 64) rounds (-(d : ℤ)) buf m).moves) :
    count < d ∧ d < blkSize ∧ ∃ a, v = move a buf count := by
  rw [show rounds = maxFileSize + 2 from rfl] at hv
  by_cases hnone : count = 0 ∨ d ≤ count
  · rw [transferLoop_neg_wrapped hd hd' hc hnone] at hv
    cases hv
  by_cases hfar : blkSize ≤ d
  · rw [transferLoop_neg_far hfar hd' (by omega) (by omega)] at hv
    cases hv
  refine ⟨by omega, by omega, ?_⟩
  rw [transferLoop_neg_near (by omega) (by omega) (by omega)] at hv
  split at hv
  · cases hv
  · cases hv
  · dsimp only at hv
    split at hv
    all_goals exact ⟨_, mem_singleton.mp hv⟩

lemma neg_or_nat (z : ℤ) (h : -(2 ^ 31) ≤ z) : (∃ o : ℕ, z = o) ∨ ∃ d : ℕ, z = -(d : ℤ) ∧ 0 < d ∧ d ≤ 2 ^ 31 := by
  rcases lt_or_ge z 0 with hneg | hpos
  · exact .inr ⟨(-z).toNat, by omega, by omega, by omega⟩
  · exact .inl ⟨z.toNat, by omega⟩

lemma le_fdOffset (m : Bytes) (i : ℕ) : -(2 ^ 31) ≤ fdOffset m i := BitVec.le_toInt _

lemma fdOffset_lt (m : Bytes) (i : ℕ) : fdOffset m i < 2 ^ 31 := BitVec.toInt_lt

lemma reqN_lt (s : Server) : reqN s < 2 ^ 64 := by
  have h1 := (get32 s.mem (fsreq + 8)).isLt
  have h2 := (get32 s.mem (fsreq + 8 + 4)).isLt
  unfold reqN get64
  omega

lemma moves_of_nat (ho : o < 2 ^ 31) (hs : stop < 2 ^ 64) (hv : v ∈ (transferLoop move f stop rounds o buf m).moves) :
    ∃ q blk, o ≤ q ∧ q < stop ∧ v = moveAt move o stop buf q blk := by
  rcases le_or_gt maxFileSize o with hfar | hnear
  · rw [(transferLoop_far hfar ho rounds).2] at hv
    cases hv
  · rw [← Nat.add_zero buf, ← Nat.sub_self o] at hv
    exact mem_moves hs le_rfl hnear.le hv

theorem readsInPage_of_fits (h : ReadFits s i f) : ReadsInPage s i f := by
  intro v hv
  rw [readCall] at hv
  rcases neg_or_nat _ (le_fdOffset s.mem i) with ⟨o, ho⟩ | ⟨d, hd, hpos, hle⟩
  · rw [ho] at hv
    rcases le_or_gt (fSize s.mem f) o with hend | hlt
    · rw [fileRead_end hend] at hv
      cases hv
    have h1 := h o ho hlt
    have h2 := fSize_lt s.mem f
    have h3 := readCount_le (reqN s) hlt
    rw [fileRead_eq hlt] at hv
    obtain ⟨q, blk, hq, hq', rfl⟩ := moves_of_nat (by omega) (by rw [reqN] at h3; omega) hv
    have h4 := chunk_le (o + readCount s.mem f (reqN s) o) q
    simp only [moveAt, toBuf, InPage, reqN] at h1 h3 h4 hq' ⊢
    omega
  · rw [hd, fileRead] at hv
    split at hv
    · cases hv
    · obtain ⟨h1, h2, a, rfl⟩ := moves_of_neg hpos hle (by
        have := reqN_lt s
        unfold reqN at this
        omega) hv
      simp only [toBuf, InPage, blkSize, pageSize] at h1 h2 ⊢
      omega

theorem writesFromPage_of_fits (h : WriteFits s) : WritesFromPage s i f := by
  intro v hv
  have hlt : get64 s.mem (fsreq + 8) < 2 ^ 64 := reqN_lt s
  have hn : get64 s.mem (fsreq + 8) ≤ pageSize - 16 := h
  rw [writeCall] at hv
  unfold fileWrite at hv
  simp only at hv
  split at hv
  · cases hv
  rename_i m₀ hm₀
  change v ∈ (transferLoop fromBuf f _ rounds _ _ m₀).moves at hv
  rcases neg_or_nat _ (le_fdOffset s.mem i) with ⟨o, ho⟩ | ⟨d, hd, hpos, hle⟩
  · have ho' := fdOffset_lt s.mem i
    rw [ho] at hv ho'
    rw [intToSize_of_nonneg, mod_eq_of_lt (by simp only [pageSize] at hn; omega)] at hv
    obtain ⟨q, blk, hq, hq', rfl⟩ := moves_of_nat (by omega) (by simp only [pageSize] at hn; omega) hv
    have h4 := chunk_le (o + get64 s.mem (fsreq + 8)) q
    simp only [moveAt, fromBuf, InPage, pageSize] at hn h4 hq' ⊢
    omega
  · rw [hd] at hv
    obtain ⟨h1, h2, a, rfl⟩ := moves_of_neg hpos hle hlt hv
    simp only [fromBuf, InPage, pageSize] at hn ⊢
    omega

lemma first_move (move : ℕ → ℕ → ℕ → Move) (buf : ℕ) (ho : o ≤ maxFileSize) (hs : stop < 2 ^ 64) (hlt : o < stop)
    (h : fileGetBlock f (o / blkSize) m = .ok (m₁, .ok b₁)) :
    moveAt move o stop buf o b₁ ∈ (transferLoop move f stop rounds o buf m).moves := by
  rw [show rounds = maxFileSize + 1 + 1 from rfl, transferLoop_succ ho hs, if_pos hlt, Fs.round, h]
  simp only
  rw [moveAt, Nat.sub_self, Nat.add_zero]
  split
  · exact mem_cons_self ..
  · exact mem_singleton_self _

lemma second_move (move : ℕ → ℕ → ℕ → Move) (buf : ℕ) (ho : o ≤ maxFileSize) (hs : stop < 2 ^ 64)
    (hlt : o + chunk stop o < stop) (h : fileGetBlock f (o / blkSize) m = .ok (m₁, .ok b₁)) (hl : (moveAt move o stop buf o b₁).Loads m₁)
    (h' : fileGetBlock f ((o + chunk stop o) / blkSize) ((moveAt move o stop buf o b₁).apply m₁) =
      .ok (m₂, .ok b₂)) :
    moveAt move o stop buf (o + chunk stop o) b₂ ∈ (transferLoop move f stop rounds o buf m).moves := by
  have hp := add_chunk_le stop (fileGetBlock_range h)
  rw [moveAt, Nat.sub_self, Nat.add_zero] at hl h'
  rw [show rounds = maxFileSize + 1 + 1 from rfl, transferLoop_succ ho hs, if_pos (by omega), Fs.round, h]
  simp only
  rw [if_pos hl]
  refine mem_cons_of_mem _ ?_
  rw [transferLoop_succ hp hs, if_pos hlt, Fs.round, h']
  simp only
  rw [moveAt, show o + chunk stop o - o = chunk stop o by omega]
  split
  · exact mem_cons_self ..
  · exact mem_singleton_self _

/-- The file is in order, and has the block of position `o` and the next one. -/
structure TwoBlocks (m : Bytes) (f o : ℕ) : Prop where
  exclusive : Exclusive m
  reachable : Reachable m f
  first : blockOf m f (o / blkSize) ≠ 0
  second : blockOf m f (o / blkSize + 1) ≠ 0

lemma TwoBlocks.le (h : TwoBlocks m f o) : o ≤ maxFileSize := by
  have hs := hasSlot_of_ne h.first
  have : o / blkSize < nDirect + nIndirect := by
    unfold HasSlot at hs
    omega
  simp only [maxFileSize, blkSize] at this ⊢
  omega

lemma add_chunk_div (h : o + (blkSize - o % blkSize) < stop) :
    chunk stop o = blkSize - o % blkSize ∧ (o + chunk stop o) / blkSize = o / blkSize + 1 := by
  have hc : chunk stop o = blkSize - o % blkSize := by
    unfold chunk
    omega
  refine ⟨hc, ?_⟩
  rw [hc]
  simp only [blkSize] at h ⊢
  omega

/-- **A read of more than a page leaves the page.** -/
theorem fits_of_readsInPage (hb : TwoBlocks s.mem f o) (ho : fdOffset s.mem i = o) (h : ReadsInPage s i f) :
    ReadFits s i f := by
  intro o' ho' hlt
  obtain rfl : o' = o := by
    rw [ho] at ho'
    omega
  by_contra hbig
  have hx := hb.exclusive
  have hf := hb.reachable
  have h1 := fSize_lt s.mem f
  have h2 := readCount_le (reqN s) hlt
  have hlow : o' % blkSize < blkSize := mod_lt _ (by decide)
  have hpage : pageSize = blkSize := rfl
  obtain ⟨hc, hdiv⟩ := add_chunk_div (show o' + (blkSize - o' % blkSize) <
    o' + readCount s.mem f (reqN s) o' by omega)
  have hget := fileGetBlock_found hx hf hb.first
  have hoff : ∀ k < chunk (o' + readCount s.mem f (reqN s) o') o', OffDisk (fsreq + (o' - o') + k) := by
    intro k hk
    refine .inl ?_
    simp only [fsreq, diskMap, blkSize] at hc hk ⊢
    omega
  have hw := dataWrite_off (f := f) (m := s.mem) (v := moveAt toBuf o' (o' + readCount s.mem f (reqN s) o')
    fsreq o' (blockAddr (blockOf s.mem f (o' / blkSize)))) hoff
  have hst := hw.stays hx hf
  have hb₂ := (hw.view hx hf).2.2 (o' / blkSize + 1)
  have hget₂ := fileGetBlock_found hst.exclusive ((hst.reach f).mpr hf) (hb₂ ▸ hb.second)
  have hmem := second_move toBuf fsreq hb.le (by omega) (by omega) hget
    ⟨loadable_off hoff, loadable_block (hx.owned_lt hf (s := .data (o' / blkSize)) hb.first) o' _⟩
    (by rw [hdiv]; exact hget₂)
  have := h _ (by rw [readCall, ho, fileRead_eq hlt]; exact hmem)
  simp only [InPage, moveAt, toBuf] at this
  unfold chunk at this hc
  simp only [blkSize, pageSize] at this hc hbig hlow
  omega

/-- **A write of more than `req_buf` holds leaves the page.** -/
theorem fits_of_writesFromPage (hb : TwoBlocks s.mem f o) (hd : ¬ IsDir s.mem f) (ho : fdOffset s.mem i = o)
    (hn : o + reqN s < 2 ^ 31) (h : WritesFromPage s i f) : WriteFits s := by
  by_contra hbig
  have hlow : o % blkSize < blkSize := mod_lt _ (by decide)
  -- the size is set, if at all, and the file has its blocks as before
  obtain ⟨m₀, z, hs, -, hwrite⟩ := fileWrite_sized (fsreq + 16) hb.exclusive hb.reachable hd hn
  have hcall : (writeCall s i f).moves = (transferLoop fromBuf f (o + reqN s) rounds o (fsreq + 16) m₀).moves := by
    rw [writeCall, ho, ← reqN, hwrite]
    rfl
  have hx := hs.exclusive
  have hf := (hs.reach f).mpr hb.reachable
  have hfirst : blockOf m₀ f (o / blkSize) ≠ 0 := by
    rw [← owned_data, hs.owned]
    exact hb.first
  have hsecond : blockOf m₀ f (o / blkSize + 1) ≠ 0 := by
    rw [← owned_data, hs.owned]
    exact hb.second
  have hget := fileGetBlock_found hx hf hfirst
  have hmem := first_move fromBuf (fsreq + 16) hb.le (show o + reqN s < 2 ^ 64 by omega)
    (by simp only [WriteFits, pageSize] at hbig; omega) hget
  have hin := h _ (hcall ▸ hmem)
  simp only [WriteFits, pageSize] at hbig
  -- the first move stays in the page only if it ends with its block
  have hc1 : chunk (o + reqN s) o ≤ pageSize - 16 := by
    simp only [InPage, moveAt, fromBuf, pageSize] at hin ⊢
    omega
  obtain ⟨hc, hdiv⟩ := add_chunk_div (show o + (blkSize - o % blkSize) < o + reqN s by
    unfold chunk at hc1
    simp only [pageSize] at hc1
    omega)
  have hw : DataWrite f m₀ ((moveAt fromBuf o (o + reqN s) (fsreq + 16) o
      (blockAddr (blockOf m₀ f (o / blkSize)))).apply m₀) := dataWrite_block hs.isDir hfirst
  have hst := hw.stays hx hf
  have hb₂ := (hw.view hx hf).2.2 (o / blkSize + 1)
  have hget₂ := fileGetBlock_found hst.exclusive ((hst.reach f).mpr hf) (hb₂ ▸ hsecond)
  have hlt := hx.owned_lt hf (s := .data (o / blkSize)) hfirst
  have hmem₂ := second_move fromBuf (fsreq + 16) hb.le (show o + reqN s < 2 ^ 64 by omega)
    (by simp only [pageSize, blkSize] at hc hc1 hlow; omega) hget
    ⟨loadable_block hlt o _, loadable_off fun k hk => .inl (by
      simp only [moveAt, fromBuf, fsreq, diskMap, pageSize] at hk hc1 ⊢
      omega)⟩ (by rw [hdiv]; exact hget₂)
  have hin₂ := h _ (hcall ▸ hmem₂)
  simp only [InPage, moveAt, fromBuf] at hin₂
  unfold chunk at hin₂ hc
  simp only [blkSize, pageSize] at hin₂ hc hlow
  omega

/-- **The server and the page of the request.** Nothing is moved for a file id that is not known. A read that fits stays
in the page, and so does a write, whatever the request, the file and the position are; and for a file that has the first
two blocks of the range, those that do not fit do not stay. -/
theorem serve_in_page_iff (s : Server) (i f : ℕ) :
    (∀ r, openfileLookup r s (get32 s.mem fsreq) = none →
      serveRead r s = .ok (s, -eInval) ∧ serveWrite r s = .ok (s, -eInval)) ∧
    (ReadFits s i f → ReadsInPage s i f) ∧ (WriteFits s → WritesFromPage s i f) ∧
      ∀ o : ℕ, fdOffset s.mem i = o → TwoBlocks s.mem f o →
        (ReadsInPage s i f ↔ ReadFits s i f) ∧
        (¬ IsDir s.mem f → o + reqN s < 2 ^ 31 → (WritesFromPage s i f ↔ WriteFits s)) := by
  refine ⟨fun r hr => ?_, readsInPage_of_fits, writesFromPage_of_fits, fun o ho hb => ⟨?_, fun hd hn => ?_⟩⟩
  · simp only [serveRead, serveWrite, withFile, hr, and_self]
  · exact ⟨fits_of_readsInPage hb ho, readsInPage_of_fits⟩
  · exact ⟨fits_of_writesFromPage hb hd ho hn, writesFromPage_of_fits⟩

lemma sameDisk_receive (m : Bytes) (r : Request) : SameDisk m (receive m r) := by
  intro x hx
  unfold OffDisk at hx
  simp only [diskMap, diskSize] at hx
  unfold receive
  rw [if_neg, if_neg]
  · simp only [fileBase, pageSize, maxOpen]
    omega
  · simp only [fsreq, pageSize]
    omega

def ask (req : BitVec 32) (n : ℕ) : Request where
  req := req
  page := set32 (fun _ => 0) 8 (BitVec.ofNat 32 n)
  fds := fun _ => 0
  refs := fun _ => 2
  alloc := 0

open FsOwners Runs in
def opened (m : Bytes) (r : Request) : Server := ⟨receive m r, fun _ => ⟨0, firstFile⟩⟩

open FsOwners Runs in
/-- A file of 4097 bytes: a page of it can be read, and one byte more neither read nor written. -/
theorem serve_in_page_of_two_blocks :
    ∃ m, run step (newDisk 8) [.create [97], .write firstFile 0x1000 4097 0] = .ok m ∧
      ReadsInPage (opened m (ask 3 4096)) 0 firstFile ∧ ¬ReadsInPage (opened m (ask 3 4097)) 0 firstFile ∧
      ¬WritesFromPage (opened m (ask 4 4097)) 0 firstFile := by
  have hrun : ∃ m, run step (newDisk 8) [.create [97]] = .ok m ∧ HasFirst m ∧
      ∃ m', run step m [.write firstFile 0x1000 4097 0] = .ok m' ∧ HasFirst m' ∧
        ((blockOf m' firstFile 0 ≠ 0 ∧ blockOf m' firstFile 1 ≠ 0) ∧ reqN (opened m' (ask 3 4096)) ≤ pageSize) ∧
        (fdOffset (opened m' (ask 3 4097)).mem 0 = 0 ∧ fSize (opened m' (ask 3 4097)).mem firstFile = 4097 ∧
          reqN (opened m' (ask 3 4097)) = 4097) ∧
        fdOffset (opened m' (ask 4 4097)).mem 0 = 0 ∧ reqN (opened m' (ask 4 4097)) = 4097 := by decide
  obtain ⟨m₁, h₁, hfirst₁, m, h₂, hfirst, ⟨⟨hb0, hb1⟩, hn⟩, ⟨ho, hsize, hn'⟩, ho', hn''⟩ := hrun
  rw [run_singleton] at h₁ h₂
  have hdisk : Consistent (newDisk 8) :=
    consistent_of_blank (by decide) (.of_direct (by decide) (by decide) (by decide)) (by decide)
  have hm₁ := step_consistent (c := .create [97]) hdisk (show 0 ∉ [97] by decide)
    (.inl (freeZero_newDisk_of (by decide))) h₁
  have hm := step_consistent (c := .write firstFile 0x1000 4097 0) hm₁ ⟨hfirst₁.reachable, by decide⟩
    hfirst₁.2.2.2.2 h₂
  have hblocks : ∀ r, TwoBlocks (receive m r) firstFile 0 ∧ ¬IsDir (receive m r) firstFile := fun r => by
    have hstays := (sameDisk_receive m r).stays hm.toExclusive
    have hkeep : ∀ i, blockOf m firstFile i ≠ 0 → blockOf (receive m r) firstFile i ≠ 0 := fun i hi => by
      rwa [hstays.blockOf_ne hfirst.reachable hi]
    exact ⟨⟨hstays.exclusive, (hstays.reach _).mpr hfirst.reachable, hkeep 0 hb0, hkeep 1 hb1⟩,
      fun hd => hfirst.2.2.2.2 ((hstays.isDir _ hfirst.reachable).mp hd)⟩
  refine ⟨m, (run_cons_ok h₁).trans (run_cons_ok h₂), (serve_in_page_iff _ _ _).2.1 fun o _ _ =>
    le_trans (min_le_left _ _) hn, fun hread => ?_, fun hwrite => ?_⟩
  · have hfits := ((serve_in_page_iff _ _ _).2.2.2 0 ho (hblocks _).1).1.mp hread 0 ho (by rw [hsize]; decide)
    rw [readCount, hn', hsize] at hfits
    exact absurd hfits (by decide)
  · have hfits := (((serve_in_page_iff _ _ _).2.2.2 0 ho' (hblocks _).1).2 (hblocks _).2 (by rw [hn'']; decide)).mp hwrite
    unfold WriteFits at hfits
    rw [hn''] at hfits
    exact absurd hfits (by decide)

open FsOwners Runs in
/-- A client that asks for three pages gets them all, and the third one is put where the server has the
superblock. -/
theorem read_overwrites_superblock :
    ∃ m, run step (newDisk 8) [.create [97], .setSize firstFile 12288] = .ok m ∧
      openfileLookup (ask 3 12288) (opened m (ask 3 12288)) 0 = some 0 ∧
      ¬ ReadsInPage (opened m (ask 3 12288)) 0 firstFile ∧ nblocks m = 8 ∧
      ∃ s, serve (opened m (ask 3 12288)) (ask 3 12288) = .ok (s, 12288) ∧ nblocks s.mem = 0 := by
  have hrun : ∃ m, run step (newDisk 8) [.create [97], .setSize firstFile 12288] = .ok m ∧
      openfileLookup (ask 3 12288) (opened m (ask 3 12288)) 0 = some 0 ∧
      (∃ v ∈ (readCall (opened m (ask 3 12288)) 0 firstFile).moves, ¬ InPage v.dst v.len) ∧
      nblocks m = 8 ∧
      (serve (opened m (ask 3 12288)) (ask 3 12288)).toOption.map (fun p => (p.2, nblocks p.1.mem)) =
        some (12288, 0) := by decide
  obtain ⟨m, hm, hlook, ⟨v, hv, hout⟩, hn, hserve⟩ := hrun
  refine ⟨m, hm, hlook, fun h => hout (h v hv), hn, ?_⟩
  cases hs : serve (opened m (ask 3 12288)) (ask 3 12288) with
  | error e =>
    rw [hs] at hserve
    cases hserve
  | ok p =>
    obtain ⟨s, n⟩ := p
    rw [hs] at hserve
    simp only [Except.toOption, Option.map_some, Option.some.injEq, Prod.mk.injEq] at hserve
    exact ⟨s, by rw [hserve.1], hserve.2⟩

end Jos.FsServe
