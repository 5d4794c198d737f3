import Mathlib.Data.List.TakeWhile
import Jos.FsPage
import Jos.FsSizes

/-!
The sizes of files, over all sequences of requests to the file server.

What a client asks for is taken as it is: `serve_set_size` sets any size, of a directory as well, and
`serve_write` and `serve_read` any position that is in the page of the descriptor.
-/

namespace Jos.FsServe

open ByteMem CArray Fs Runs

variable {s s' : Server} {r : Request} {m m' : Bytes} {f i o n count buf stop : ℕ} {rs : List Request}

def Fine (x : Except Stop (Server × ℤ)) : Prop := NoAssert x ∧ ∀ s z, x = .ok (s, z) → Sound s.mem

lemma fine_ok {z : ℤ} (h : Sound s.mem) : Fine (.ok (s, z)) := ⟨noAssert_ok _, fun _ _ he => by cases he; exact h⟩

lemma fine_bind {α : Type} {x : Except Stop α} {k : α → Except Stop (Server × ℤ)} (h : NoAssert x)
    (hk : ∀ a, x = .ok a → Fine (k a)) : Fine (x >>= k) := by
  refine ⟨h.bind fun a ha => (hk a ha).1, fun s z he => ?_⟩
  obtain ⟨a, ha, he⟩ := bind_eq_ok.mp he
  exact (hk a ha).2 s z he

lemma fdPage_off (i k : ℕ) : diskMap + diskSize ≤ fdPage i + k := by
  simp only [fdPage, fileBase, pageSize, diskMap, diskSize]
  omega

lemma fine_withFile {k : ℕ → ℕ → Except Stop (Server × ℤ)} (hm : Sound s.mem)
    (h : ∀ i, openfileLookup r s (get32 s.mem fsreq) = some i → Fine (k i (s.opentab i).file)) :
    Fine (withFile r s k) := by
  unfold withFile
  split
  · exact fine_ok hm
  next i hi =>
  split
  · refine ⟨?_, fun _ _ he => by cases he⟩
    intro he
    cases he
  · exact h i hi

lemma fine_advance {t : Transfer ℤ} (hres : NoAssert t.result) (hm : Sound t.mem) : Fine (advance s i t) := by
  unfold advance
  split
  next e he =>
    refine ⟨fun hc => hres (he.trans (congrArg _ (Except.error.inj hc))), fun _ _ hc => by cases hc⟩
  next z he =>
  split
  · exact fine_ok hm
  · exact fine_ok (hm.sameDisk (sameDisk_set32 (.inr (fdPage_off i 4))))

lemma noAssert_transferLoop (move : ℕ → ℕ → ℕ → Move) (f stop n : ℕ) (pos : ℤ) (buf : ℕ) (m : Bytes) :
    NoAssert (transferLoop move f stop n pos buf m).result := by
  induction n generalizing pos buf m with
  | zero =>
    intro h
    cases h
  | succ n ih =>
    rw [transferLoop]
    split
    · split
      next e he =>
        intro hc
        exact noAssert_fileGetBlock _ _ _ (he.trans (congrArg _ (Except.error.inj hc)))
      · exact noAssert_ok _
      · dsimp only
        split
        · exact ih _ _ _
        · intro hc
          cases hc
    · exact noAssert_ok _

lemma noAssert_returns {t : Transfer (Option ℤ)} (h : NoAssert t.result) (count : ℕ) :
    NoAssert (t.returns count).result := by
  unfold Transfer.returns
  cases ht : t.result with
  | error e => exact fun hc => h (ht.trans (congrArg _ (Except.error.inj hc)))
  | ok a => exact noAssert_ok _

lemma fine_serveSetSize (hm : Sound s.mem)
    (h : ∀ i, openfileLookup r s (get32 s.mem fsreq) = some i → Reachable s.mem (s.opentab i).file ∧
      SizeOk s.mem (s.opentab i).file (get32 s.mem (fsreq + 4)).toInt) : Fine (serveSetSize r s) := by
  refine fine_withFile hm fun i hi => ?_
  obtain ⟨hf, hz⟩ := h i hi
  obtain ⟨m', hset, hm', -⟩ := fileSetSize_sound hm hf hz
  rw [hset, ok_bind]
  exact fine_ok hm'

/-- The request is for no more than a page of a file, from a position in it on; and a directory that is read
takes no block that is not empty. -/
structure ReadSafe (s : Server) (i f : ℕ) : Prop where
  reachable : Reachable s.mem f
  offset : 0 ≤ fdOffset s.mem i
  count : readCount s.mem f (reqN s) (fdOffset s.mem i).toNat ≤ pageSize
  blocks : IsDir s.mem f → FreeZero s.mem ∨ Filled s.mem f

lemma fine_serveRead (hm : Sound s.mem)
    (h : ∀ i, openfileLookup r s (get32 s.mem fsreq) = some i → ReadSafe s i (s.opentab i).file) :
    Fine (serveRead r s) := by
  refine fine_withFile hm fun i hi => ?_
  obtain ⟨hf, ho, hcount, hz⟩ := h i hi
  obtain ⟨o, ho⟩ := Int.eq_ofNat_of_zero_le ho
  rw [ho, Int.toNat_natCast] at hcount
  refine fine_advance ?_ ?_
  · unfold readCall fileRead
    split
    · exact noAssert_ok _
    · exact noAssert_returns (noAssert_transferLoop _ _ _ _ _ _ _) _
  · rw [readCall, ho]
    have hbuf : ∀ k < readCount s.mem (s.opentab i).file (reqN s) o, OffDisk (fsreq + k) := fun k hk => by
      unfold OffDisk
      simp only [fsreq, diskMap, pageSize] at hcount hk ⊢
      omega
    have hkeeps := fileRead_keeps hm.toExclusive hf hz hbuf
    exact ⟨hkeeps.2 hm.toConsistent, hkeeps.1.sizesValid hm.valid⟩

/-- The request is for a file that is no directory, from a position in it on, and ends before the greatest
size. -/
structure WriteSafe (s : Server) (i f : ℕ) : Prop where
  reachable : Reachable s.mem f
  file : ¬ IsDir s.mem f
  offset : 0 ≤ fdOffset s.mem i
  fits : fdOffset s.mem i + reqN s ≤ maxFileSize

lemma fileWrite_sound (buf : ℕ) (hm : Sound m) (hf : Reachable m f) (hd : ¬ IsDir m f)
    (hfit : o + count ≤ maxFileSize) :
    NoAssert (fileWrite f buf count o m).result ∧ Sound (fileWrite f buf count o m).mem := by
  have hsmall : o + count < 2 ^ 31 := lt_of_le_of_lt hfit (by decide)
  rw [fileWrite_eq rfl (by omega), Nat.mod_eq_of_lt (by omega)]
  have hloop : ∀ m, Sound m → Reachable m f → ¬ IsDir m f →
      Sound (transferLoop fromBuf f (o + count) rounds o buf m).mem := by
    intro m hm hf hd
    have hkeeps : Keeps f m (transferLoop fromBuf f (o + count) rounds o buf m).mem :=
      writeLoop_keeps hm.toExclusive hf hd (by omega) (by omega) rounds
    exact ⟨hkeeps.2 hm.toConsistent, hkeeps.1.sizesValid hm.valid⟩
  by_cases hgrow : intToSize (fSize m f) < o + count
  · have hok : SizeOk m f (o + count : ℕ) := ⟨Int.natCast_nonneg _, by exact_mod_cast hfit, fun hd' => absurd hd' hd⟩
    obtain ⟨m₀, hset, hm₀, hf₀, hdir⟩ := fileSetSize_sound hm hf hok
    rw [if_pos hgrow, sizeToInt_of_lt hsmall, hset]
    exact ⟨noAssert_returns (noAssert_transferLoop _ _ _ _ _ _ _) _, hloop m₀ hm₀ hf₀ (hdir.not.mpr hd)⟩
  · rw [if_neg hgrow]
    exact ⟨noAssert_returns (noAssert_transferLoop _ _ _ _ _ _ _) _, hloop m hm hf hd⟩

lemma fine_serveWrite (hm : Sound s.mem)
    (h : ∀ i, openfileLookup r s (get32 s.mem fsreq) = some i → WriteSafe s i (s.opentab i).file) :
    Fine (serveWrite r s) := by
  refine fine_withFile hm fun i hi => ?_
  obtain ⟨hf, hd, ho, hfit⟩ := h i hi
  obtain ⟨o, ho⟩ := Int.eq_ofNat_of_zero_le ho
  rw [ho] at hfit
  have hwrite := fileWrite_sound (fsreq + 16) hm hf hd (show o + reqN s ≤ maxFileSize by exact_mod_cast hfit)
  refine fine_advance ?_ ?_
  · rw [writeCall, ho]
    exact hwrite.1
  · rw [writeCall, ho]
    exact hwrite.2

def NameEnds (m : Bytes) (f : ℕ) : Prop := ∃ k < maxNameLen, m (f + k) = 0

lemma length_cString {k : ℕ} (h : m (n + k) = 0) (c : ℕ) : (cString m c n).length ≤ k := by
  induction k generalizing n c with
  | zero =>
    cases c with
    | zero => exact le_rfl
    | succ c =>
      rw [Nat.add_zero] at h
      rw [cString, if_pos h]
      exact le_rfl
  | succ k ih =>
    cases c with
    | zero => exact Nat.zero_le _
    | succ c =>
      rw [cString]
      split
      · exact Nat.zero_le _
      · exact Nat.succ_le_succ (ih (by rwa [Nat.add_right_comm]) c)

lemma sameDisk_put {a : ℕ} {l : List UInt8} (h : a + l.length ≤ diskMap) : SameDisk m (put m a l) :=
  fun x hx => put_of_out (by unfold OffDisk at hx; omega)

lemma fine_serveStat (hm : Sound s.mem)
    (h : ∀ i, openfileLookup r s (get32 s.mem fsreq) = some i → NameEnds s.mem (s.opentab i).file) :
    Fine (serveStat r s) := by
  refine fine_withFile hm fun i hi => fine_ok ?_
  obtain ⟨k, hk, hzero⟩ := h i hi
  have hname : SameDisk s.mem (put s.mem fsreq (cString s.mem (2 ^ 64) (s.opentab i).file ++ [0])) := by
    refine sameDisk_put ?_
    have hlen := length_cString hzero (2 ^ 64)
    simp only [List.length_append, List.length_singleton, fsreq, diskMap, maxNameLen] at hk ⊢
    omega
  exact hm.sameDisk ((hname.trans (sameDisk_set32 (.inl (by decide)))).trans (sameDisk_set32 (.inl (by decide))))

lemma noAssert_flushBlock (m : Bytes) (a : ℕ) : NoAssert (flushBlock m a) := by
  unfold flushBlock
  split
  · intro h
    cases h
  split
  · intro h
    cases h
  · exact noAssert_ok _

lemma noAssert_flushData (f : ℕ) (m : Bytes) (n i : ℕ) : NoAssert (flushData f m n i) := by
  induction n generalizing i with
  | zero => exact noAssert_ok _
  | succ n ih =>
    refine (noAssert_fileBlockWalk f i false m).bind fun x _ => ?_
    rcases x with ⟨m', e | p⟩
    · exact ih _
    · dsimp only
      split
      · exact ih _
      · exact (noAssert_diskaddr _ _).bind fun _ _ => (noAssert_flushBlock _ _).bind fun _ _ =>
          (ih _).bind fun _ _ => noAssert_ok _

lemma noAssert_fileFlush (f : ℕ) (m : Bytes) : NoAssert (fileFlush f m) := by
  refine (noAssert_flushData _ _ _ _).bind fun _ _ => ?_
  split
  · exact (noAssert_flushBlock _ _).bind fun _ _ => noAssert_ok _
  · exact (noAssert_diskaddr _ _).bind fun _ _ => (noAssert_flushBlock _ _).bind fun _ _ =>
      (noAssert_flushBlock _ _).bind fun _ _ => noAssert_ok _

lemma fine_serveFlush (hm : Sound s.mem) : Fine (serveFlush r s) :=
  fine_withFile hm fun _ _ => fine_bind (noAssert_fileFlush _ _) fun _ _ => fine_ok hm

/-- `req_omode`. -/
def reqOmode (m : Bytes) : BitVec 32 := get32 m (fsreq + maxPathLen)

/-- No directory takes a block that is not empty, or gets longer than it may; and before a file is cut off,
every directory has its blocks. -/
structure OpenSafe (m : Bytes) : Prop where
  create : reqOmode m &&& oCreat ≠ 0 → Creatable m ∧ Extendable m
  lookup : reqOmode m &&& oCreat = 0 → Settled m
  trunc : reqOmode m &&& oTrunc ≠ 0 → Whole m

lemma zero_not_mem_reqPath (m : Bytes) : 0 ∉ reqPath m := by
  intro h
  have hne := List.mem_takeWhile_imp h
  exact absurd hne (by decide)

lemma openOrCreate_sound {path : List UInt8} {omode : BitVec 32} (hm : Sound m) (h0 : 0 ∉ path)
    (hcreate : omode &&& oCreat ≠ 0 → Creatable m ∧ Extendable m) (hopen : omode &&& oCreat = 0 → Settled m) :
    NoAssert (openOrCreate path omode m) ∧ ∀ m' x, openOrCreate path omode m = .ok (m', x) →
      Sound m' ∧ Settled m' ∧ ∀ f, x = .ok f → Reachable m' f ∧ (fSize m' f = 0 ∨ (Whole m → Whole m')) := by
  have hwhole : ∀ {m'}, Enlarged m m' → Whole m → Whole m' := fun hen hw => by
    rw [hen.whole hw]
    exact hw
  unfold openOrCreate
  by_cases hc : omode &&& oCreat ≠ 0
  · rw [if_pos hc]
    obtain ⟨hz, hlt⟩ := hcreate hc
    constructor
    · refine (noAssert_fileCreate hm hz.settled h0).bind fun x hx => ?_
      obtain ⟨m₁, e | f⟩ := x
      · dsimp only
        split
        next hexists =>
          obtain ⟨hm₁, hz₁, -⟩ := fileCreate_sound hm hz hlt h0 hx
          exact (fileOpen_sound hm₁ hz₁ h0).1
        · exact noAssert_ok _
      · exact noAssert_ok _
    · intro m' x h
      obtain ⟨⟨m₁, y⟩, hy, h⟩ := bind_eq_ok.mp h
      obtain ⟨hm₁, hz₁, hnew, hold⟩ := fileCreate_sound hm hz hlt h0 hy
      cases y with
      | ok f =>
        cases h
        refine ⟨hm₁, hz₁, fun f' hf => ?_⟩
        obtain ⟨hr, hsize⟩ := hnew f' hf
        exact ⟨hr, .inl hsize⟩
      | error e =>
        dsimp only at h
        split at h
        next hexists =>
          obtain ⟨hen, hr⟩ := (fileOpen_sound hm₁ hz₁ h0).2 m' x h
          have hen₁ := hold (by rw [hexists.2])
          exact ⟨hen.sound hm₁, hen.settled hz₁, fun f hf => ⟨hr f hf, .inr (hwhole (hen₁.trans hen))⟩⟩
        · cases h
          exact ⟨hm₁, hz₁, fun f hf => by cases hf⟩
  · rw [if_neg hc]
    have hz := hopen (not_not.mp hc)
    obtain ⟨hno, hspec⟩ := fileOpen_sound hm hz h0
    refine ⟨hno, fun m' x h => ?_⟩
    obtain ⟨hen, hr⟩ := hspec m' x h
    exact ⟨hen.sound hm, hen.settled hz, fun f hf => ⟨hr f hf, .inr (hwhole hen)⟩⟩

lemma fine_openEnd {path : List UInt8} {omode fileid : BitVec 32} (hm : Sound m) (hz : Settled m) (h0 : 0 ∉ path) :
    Fine (do
      match ← fileOpen path m with
      | (m, .error e) => .ok (s.set m, e)
      | (m, .ok f) =>
        let m := set32 m (fdPage i + 12) fileid
        let m := set32 m (fdPage i + 8) (omode &&& oAccMode)
        let m := set32 m (fdPage i) devfileId
        .ok (⟨m, Function.update s.opentab i ⟨fileid, f⟩⟩, 0)) := by
  obtain ⟨hno, hspec⟩ := fileOpen_sound hm hz h0
  refine fine_bind hno fun x hx => ?_
  obtain ⟨m', x⟩ := x
  have hm' := (hspec m' x hx).1.sound hm
  cases x with
  | error e => exact fine_ok hm'
  | ok f =>
    exact fine_ok (hm'.sameDisk (((sameDisk_set32 (.inr (fdPage_off i 12))).trans
      (sameDisk_set32 (.inr (fdPage_off i 8)))).trans (sameDisk_set32 (.inr (fdPage_off i 0)))))

lemma sameDisk_take (s : Server) (i : ℕ) : SameDisk s.mem (s.take i).mem := fun x hx => by
  have hoff := fdPage_off i 0
  refine fill_of_out ?_
  unfold OffDisk at hx
  omega

lemma fine_serveOpen (hm : Sound s.mem) (h : OpenSafe s.mem) : Fine (serveOpen r s) := by
  unfold serveOpen
  cases halloc : openfileAlloc r with
  | error e => exact fine_ok hm
  | ok i =>
    dsimp only
    have hdisk := sameDisk_take s i
    have hm₁ := hm.sameDisk hdisk
    split
    · exact fine_ok hm₁
    have hstays := hdisk.stays hm.toExclusive
    have hpath := zero_not_mem_reqPath s.mem
    obtain ⟨hno, hspec⟩ := openOrCreate_sound hm₁ hpath
      (fun hc => ⟨hdisk.creatable hm.toExclusive (h.create hc).1, hstays.extendable (h.create hc).2⟩)
      (fun hc => hstays.settled (h.lookup hc))
    refine fine_bind hno fun x hx => ?_
    obtain ⟨m', x⟩ := x
    obtain ⟨hm', hz', hfile⟩ := hspec m' x hx
    cases x with
    | error e => exact fine_ok hm'
    | ok f =>
      obtain ⟨hr, hsize⟩ := hfile f rfl
      dsimp only
      split
      next htrunc =>
        obtain ⟨m'', hcut, hm'', -⟩ := fileSetSize_sound hm' hr (sizeOk_zero m' f)
        have hz'' := truncate_settled hm' hr hz' (hsize.imp id fun hw => hw (hstays.whole (h.trunc htrunc))) hcut
        rw [hcut, ok_bind]
        exact fine_openEnd hm'' hz'' hpath
      · rw [ok_bind]
        exact fine_openEnd hm' hz' hpath

def serveStep (s : Server) (r : Request) : Except Stop Server := (serve s r).map Prod.fst

def ForFile (r : Request) (s : Server) (P : ℕ → ℕ → Prop) : Prop :=
  ∀ i, openfileLookup r s (get32 s.mem fsreq) = some i → P i (s.opentab i).file

/-- What a request has to meet, when it has come -/
def Harmless (s : Server) (r : Request) : Prop :=
  match r.req.toNat with
  | 1 => OpenSafe s.mem
  | 2 => ForFile r s fun _ f => Reachable s.mem f ∧ SizeOk s.mem f (get32 s.mem (fsreq + 4)).toInt
  | 3 => ForFile r s (ReadSafe s)
  | 4 => ForFile r s (WriteSafe s)
  | 5 => ForFile r s fun _ f => NameEnds s.mem f
  | _ => True

def SafeRequest (s : Server) (r : Request) : Prop := Harmless (s.set (receive s.mem r)) r

lemma fine_serve (hm : Sound s.mem) (h : SafeRequest s r) : Fine (serve s r) := by
  have hm' : Sound (s.set (receive s.mem r)).mem := hm.sameDisk (sameDisk_receive s.mem r)
  unfold SafeRequest Harmless at h
  unfold serve
  split
  next hreq =>
    rw [hreq] at h
    exact fine_serveOpen hm' h
  next hreq =>
    rw [hreq] at h
    exact fine_serveSetSize hm' h
  next hreq =>
    rw [hreq] at h
    exact fine_serveRead hm' h
  next hreq =>
    rw [hreq] at h
    exact fine_serveWrite hm' h
  next hreq =>
    rw [hreq] at h
    exact fine_serveStat hm' h
  · exact fine_serveFlush hm'
  all_goals exact fine_ok hm'

lemma serveStep_sound (hm : Sound s.mem) (h : SafeRequest s r) :
    serveStep s r ≠ .error .assertion ∧ ∀ s', serveStep s r = .ok s' → Sound s'.mem := by
  obtain ⟨hno, hok⟩ := fine_serve hm h
  unfold serveStep
  cases hs : serve s r with
  | error e =>
    refine ⟨fun hc => hno (hs.trans (congrArg _ (Except.error.inj hc))), fun s' hc => ?_⟩
    cases hc
  | ok x =>
    refine ⟨noAssert_ok x.1, fun s' hc => ?_⟩
    cases hc
    exact hok x.1 x.2 hs

/-- **File sizes stay valid**, and no assertion fails, in every run from a sound disk whose requests all
meet the condition. -/
theorem sizes_valid_of_safe (hm : Sound s.mem) (hs : Meets serveStep SafeRequest s rs) :
    run serveStep s rs ≠ .error .assertion ∧ ∀ t, run serveStep s rs = .ok t → SizesValid t.mem := by
  have hkept : ∀ (s : Server) (r : Request) (s' : Server), Sound s.mem → SafeRequest s r →
      serveStep s r = .ok s' → Sound s'.mem := fun s r s' hi hc h => (serveStep_sound hi hc).2 s' h
  have hinv : ∀ pre t, pre <+: rs → run serveStep s pre = .ok t → Sound t.mem := fun pre t hpre h =>
    run_inv_when hkept hm (fun pre' r u hpre' hu => hs.along pre' r u (hpre'.trans hpre) hu) h
  refine ⟨fun herr => ?_, fun t h => (hinv rs t (List.prefix_refl rs) h).valid⟩
  obtain ⟨pre, r, t, hpre, hrun, hstep⟩ := run_error_iff.mp herr
  have ht := hinv pre t ((List.prefix_append pre [r]).trans hpre) hrun
  exact (serveStep_sound ht (hs.along pre r t hpre hrun)).1 hstep

lemma openfileLookup_eq {fileid : BitVec 32} (h : openfileLookup r s fileid = some i) :
    i = fileid.toNat % maxOpen := by
  unfold openfileLookup at h
  dsimp only at h
  split at h
  · cases h
  · exact (Option.some.inj h).symm

open FsOwners

def started : Server := ⟨newDisk 5, fun i => ⟨BitVec.ofNat 32 i, 0⟩⟩

def openRequest (path : List UInt8) (omode : BitVec 32) : Request where
  req := 1
  page := set32 (put (fun _ => 0) 0 path) maxPathLen omode
  fds := fun _ => 0
  refs := fun _ => 0
  alloc := 0

def sizeRequest (size : BitVec 32) : Request where
  req := 2
  page := set32 (set32 (fun _ => 0) 0 512#32) 4 size
  fds := fun _ => 0
  refs := fun _ => 2
  alloc := 0

lemma sound_newDisk : Sound (newDisk 5) := by
  refine ⟨consistent_newDisk, fun f hf => ?_⟩
  rw [eq_root_of_blank blank_newDisk hf, blank_newDisk.1]
  exact sizeOk_zero _ _

lemma extendable_newDisk : Extendable (newDisk 5) := by
  intro d hd _
  rw [eq_root_of_blank blank_newDisk hd, blank_newDisk.1]
  decide

lemma safe_create : SafeRequest started (openRequest [97] 0x102#32) := by
  have hdisk := sameDisk_receive (newDisk 5) (openRequest [97] 0x102#32)
  have hstays := hdisk.stays consistent_newDisk.toExclusive
  refine ⟨fun _ => ⟨.inl (hstays.freeZero freeZero_newDisk), hstays.extendable extendable_newDisk⟩,
    fun h => absurd h ?_, fun h => absurd h ?_⟩
  · decide
  · decide

lemma run_started : (∃ t, run serveStep started [openRequest [97] 0x102#32] = .ok t ∧
      (HasFirst (receive t.mem (sizeRequest 100#32)) ∧ (t.opentab 0).file = firstFile ∧
        get32 (receive t.mem (sizeRequest 100#32)) fsreq = 512#32 ∧
        SizeOk (receive t.mem (sizeRequest 100#32)) firstFile
          (get32 (receive t.mem (sizeRequest 100#32)) (fsreq + 4)).toInt) ∧
      ∃ t', run serveStep t [sizeRequest 100#32] = .ok t' ∧ fSize t'.mem firstFile = 100) ∧
    (∃ t, run serveStep started [openRequest [47] 0, sizeRequest 1#32] = .ok t ∧ fSize t.mem rootFile = 1 ∧
      IsDir t.mem rootFile) ∧
    run serveStep started [openRequest [47] 0, sizeRequest 1#32, openRequest [97] 0] = .error .assertion := by
  decide +kernel

/-- A file is created, and gets a size. -/
theorem sizes_valid_of_safe_started :
    ∃ t, run serveStep started [openRequest [97] 0x102#32, sizeRequest 100#32] = .ok t ∧ SizesValid t.mem := by
  obtain ⟨⟨t₁, h₁, ⟨hfirst, hfile, hid, hsize⟩, t, h₂, -⟩, -⟩ := run_started
  rw [run_singleton] at h₁ h₂
  have hrun : run serveStep started [openRequest [97] 0x102#32, sizeRequest 100#32] = .ok t :=
    (run_cons_ok h₁).trans ((run_cons_ok h₂).trans rfl)
  have hsafe : SafeRequest t₁ (sizeRequest 100#32) := by
    intro i hi
    have hzero := openfileLookup_eq hi
    rw [show get32 (t₁.set (receive t₁.mem (sizeRequest 100#32))).mem fsreq = 512#32 from hid] at hzero
    obtain rfl : i = 0 := hzero
    rw [show ((t₁.set (receive t₁.mem (sizeRequest 100#32))).opentab 0).file = firstFile from hfile]
    exact ⟨hfirst.reachable, hsize⟩
  exact ⟨t, hrun, (sizes_valid_of_safe sound_newDisk (.cons safe_create h₁ (.single hsafe))).2 t hrun⟩

/-- The root directory is opened, and gets the size 1; the next file that is opened ends the server. -/
theorem set_size_breaks_directory :
    Sound started.mem ∧
      (∃ t, run serveStep started [openRequest [47] 0, sizeRequest 1#32] = .ok t ∧ ¬ SizesValid t.mem) ∧
      run serveStep started [openRequest [47] 0, sizeRequest 1#32, openRequest [97] 0] = .error .assertion := by
  obtain ⟨-, ⟨t, ht, hsize, hdir⟩, herr⟩ := run_started
  refine ⟨sound_newDisk, ⟨t, ht, fun hv => ?_⟩, herr⟩
  have hdvd := (hv rootFile (reachable_root _)).2.2 hdir
  rw [hsize] at hdvd
  exact absurd hdvd (by decide)

end Jos.FsServe
