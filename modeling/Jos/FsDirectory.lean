import Jos.FsData

/-!
Looking up and creating files.

A lookup takes blocks for the holes of the directories it goes through, and changes nothing else.
Creating a file may besides make a directory one block longer, and gives a free record a name.
-/

namespace Jos.Fs

open ByteMem CArray List

variable {m m' m'' : Bytes} {f g d e c i k n x : ℕ} {name path : List UInt8}

def Whole (m : Bytes) : Prop := ∀ d, Reachable m d → IsDir m d → Filled m d

/-- A directory that takes a block gets an empty one: the free blocks are all empty, or none is
needed. -/
def Settled (m : Bytes) : Prop := FreeZero m ∨ Whole m

/-- Directories may have got blocks; the files and their sizes stay, and so do the blocks and data of those
that are none. -/
structure Enlarged (m m' : Bytes) : Prop where
  consistent : Consistent m'
  freeZero : FreeZero m → FreeZero m'
  whole : Whole m → m' = m
  reach : ∀ g, Reachable m' g ↔ Reachable m g
  isDir : ∀ g, Reachable m g → (IsDir m' g ↔ IsDir m g)
  size : ∀ g, Reachable m g → fSize m' g = fSize m g
  owned : ∀ g, Reachable m g → ¬ IsDir m g → ∀ s, owned m' g s = owned m g s
  byte : ∀ g, Reachable m g → ¬ IsDir m g → ∀ i, blockOf m g i ≠ 0 → ∀ x, InBlock (blockOf m g i) x →
    m' x = m x

lemma Enlarged.refl (hm : Consistent m) : Enlarged m m :=
  ⟨hm, id, fun _ => rfl, fun _ => Iff.rfl, fun _ _ => Iff.rfl, fun _ _ => rfl, fun _ _ _ _ => rfl,
    fun _ _ _ _ _ _ _ => rfl⟩

lemma Enlarged.trans (h : Enlarged m m') (h' : Enlarged m' m'') : Enlarged m m'' where
  consistent := h'.consistent
  freeZero hz := h'.freeZero (h.freeZero hz)
  whole hw := by
    have h1 := h.whole hw
    rw [h'.whole (h1 ▸ hw), h1]
  reach g := (h'.reach g).trans (h.reach g)
  isDir g hg := (h'.isDir g ((h.reach g).mpr hg)).trans (h.isDir g hg)
  size g hg := (h'.size g ((h.reach g).mpr hg)).trans (h.size g hg)
  owned g hg hd s := (h'.owned g ((h.reach g).mpr hg) (mt (h.isDir g hg).mp hd) s).trans (h.owned g hg hd s)
  byte g hg hd i hi x hx := by
    have h1 : blockOf m' g i = blockOf m g i := h.owned g hg hd (.data i)
    rw [h'.byte g ((h.reach g).mpr hg) (mt (h.isDir g hg).mp hd) i (h1 ▸ hi) x (h1 ▸ hx)]
    exact h.byte g hg hd i hi x hx

lemma Enlarged.settled (h : Enlarged m m') (hz : Settled m) : Settled m' :=
  hz.imp h.freeZero fun hw => (h.whole hw).symm ▸ hw

lemma Exclusive.data_not_field (hm : Exclusive m) (hf : Reachable m f) (hg : Reachable m g)
    (hd : ¬ IsDir m g) (hx : InBlock (blockOf m g i) x) : ¬ Field f x := by
  intro hfield
  obtain ⟨c, hc⟩ := hf.home
  have hin : InBlock c x := hc.inBlock (by unfold Field at hfield; omega)
    (by simp only [Field, sizeofFile] at hfield ⊢; omega)
  exact hd (hm.home_owner hc hg (s := .data i) (hx.unique hin)).1

lemma fileGetBlock_found (hm : Exclusive m) (hd : Reachable m d) (h : blockOf m d i ≠ 0) :
    fileGetBlock d i m = .ok (m, .ok (blockAddr (blockOf m d i))) := by
  rw [fileGetBlock_of_walk (fileBlockWalk_hasSlot hm hd true (hasSlot_of_ne h))]
  exact getSlot_found hm hd h

lemma fileGetBlock_enlarged {r : Except ℤ ℕ} (hm : Consistent m) (hz : Settled m) (hd : Reachable m d)
    (hdir : IsDir m d) (hs : Covers m d i) (h : fileGetBlock d i m = .ok (m', r)) : Enlarged m m' := by
  have hx := hm.toExclusive
  have hz' : IsDir m d → FreeZero m ∨ blockOf m d i ≠ 0 := fun _ => hz.imp id fun hw => hw d hd hdir i hs
  have hg := fileGetBlock_grows hx hd hz' h
  refine ⟨fileGetBlock_consistent hm hd (fun _ => hs) hz' h, hg.freeZero, fun hw => ?_, hg.reach,
    hg.isDir, hg.size, ?_, ?_⟩
  · rw [fileGetBlock_found hx hd (hw d hd hdir i hs)] at h
    cases h
    rfl
  · intro g hgr hnd s
    exact hg.other g hgr (by rintro rfl; exact hnd hdir) s
  · intro g hgr hnd i hi x hin
    exact hg.byte g hgr (by rintro rfl; exact hnd hdir) i hi x hin (hx.data_not_field hd hgr hnd hin)

lemma mem_records {blk : ℕ} (h : e ∈ records blk) : ∃ j < blkFiles, e = blk + sizeofFile * j := by
  obtain ⟨j, hj, rfl⟩ := mem_map.mp h
  exact ⟨j, mem_range.mp hj, rfl⟩

/-- What a search in a directory finds is one of its places for records; if it comes to an end without
an error, the blocks it went through are those a file can have. -/
lemma dirScan_enlarged {p : Bytes → ℕ → Bool} (hm : Consistent m) (hz : Settled m) (hd : Reachable m d)
    (hdir : IsDir m d) (hs : ∀ k < i + n, Covers m d k) :
    ∃ m' r, dirScan d p n i m = .ok (m', r) ∧ Enlarged m m' ∧ (∀ e, r = .ok (some e) → Cell m' d e ∧ p m' e = true) ∧
      (r = .ok none → n = 0 ∨ i + n ≤ nDirect + nIndirect) := by
  induction n generalizing i m with
  | zero =>
    refine ⟨m, .ok none, rfl, .refl hm, ?_, fun _ => .inl rfl⟩
    intro e he
    cases he
  | succ n ih =>
    obtain ⟨m₁, r, hget, -⟩ := fileGetBlock_cases hm.toExclusive hd i
    have hen := fileGetBlock_enlarged hm hz hd hdir (hs i (by omega)) hget
    have hd₁ := (hen.reach d).mpr hd
    have hdir₁ := (hen.isDir d hd).mpr hdir
    have hs₁ : ∀ k < i + 1 + n, Covers m₁ d k := by
      intro k hk
      rw [Covers, hen.size d hd]
      exact hs k (by omega)
    cases r with
    | error e =>
      refine ⟨m₁, .error e, ?_, hen, ?_, ?_⟩
      · simp only [dirScan, hget, ok_bind]
      · intro e he
        cases he
      · intro he
        cases he
    | ok blk =>
      obtain ⟨hne, hblk⟩ := fileGetBlock_blockOf hm.toExclusive hd hget
      cases hfind : (records blk).find? (p m₁) with
      | some e =>
        refine ⟨m₁, .ok (some e), ?_, hen, ?_, ?_⟩
        · simp only [dirScan, hget, ok_bind, hfind]
        · rintro _ ⟨⟩
          obtain ⟨j, hj, rfl⟩ := mem_records (mem_of_find?_eq_some hfind)
          refine ⟨?_, find?_some hfind⟩
          rw [hblk]
          exact .mk i j hdir₁ (hs₁ i (by omega)) hne hj
        · intro he
          cases he
      | none =>
        obtain ⟨m₂, r₂, hscan, hen₂, hcell, hend⟩ := ih hen.consistent (hen.settled hz) hd₁ hdir₁ hs₁
        refine ⟨m₂, r₂, ?_, hen.trans hen₂, hcell, fun he => ?_⟩
        · simp only [dirScan, hget, ok_bind, hfind]
          exact hscan
        · have := fileGetBlock_range hget
          rcases hend he with h | h <;> omega

lemma dirScan_none {p : Bytes → ℕ → Bool} (hm : Exclusive m) (hd : Reachable m d)
    (hb : ∀ k, i ≤ k → k < i + n → blockOf m d k ≠ 0) (h : dirScan d p n i m = .ok (m', .ok none)) :
    ∀ k, i ≤ k → k < i + n → ∀ j < blkFiles, p m (blockAddr (blockOf m d k) + sizeofFile * j) = false := by
  induction n generalizing i with
  | zero =>
    intro k h1 h2
    omega
  | succ n ih =>
    rw [dirScan, fileGetBlock_found hm hd (hb i le_rfl (by omega)), ok_bind] at h
    simp only at h
    cases hfind : (records (blockAddr (blockOf m d i))).find? (p m) with
    | some e =>
      rw [hfind] at h
      cases h
    | none =>
      rw [hfind] at h
      intro k h1 h2 j hj
      rcases Nat.eq_or_lt_of_le h1 with rfl | hlt
      · have hmem : blockAddr (blockOf m d i) + sizeofFile * j ∈ records (blockAddr (blockOf m d i)) :=
          mem_map.mpr ⟨j, mem_range.mpr hj, rfl⟩
        exact Bool.eq_false_iff.mpr (find?_eq_none.mp hfind _ hmem)
      · exact ih (fun k h3 h4 => hb k (by omega) (by omega)) h k hlt (by omega) j hj

lemma dirBlocks_eq (h : 0 ≤ fSize m d) : (dirBlocks m d : ℤ) = fSize m d / blkSize := by
  have hlt := fSize_lt m d
  rw [dirBlocks, Int.tdiv_eq_ediv_of_nonneg h]
  simp only [blkSize]
  omega

lemma covers_of_lt_dirBlocks (h : 0 ≤ fSize m d) (hk : k < dirBlocks m d) : Covers m d k := by
  have h1 := dirBlocks_eq h
  simp only [Covers, blkSize] at h1 ⊢
  omega

lemma head_ne_zero_of_nameIs (hne : name ≠ []) (h0 : 0 ∉ name) (h : nameIs name m e) : m e ≠ 0 := by
  obtain ⟨c, l, rfl⟩ := exists_cons_of_ne_nil hne
  have h1 := h 0 (by simp)
  simp only [Nat.add_zero, getD_cons_zero] at h1
  rw [h1]
  rintro rfl
  exact h0 (mem_cons_self ..)

section Lookup

variable (hm : Consistent m) (hz : Settled m) (hd : Reachable m d) (hdir : IsDir m d)

include hm hz hd hdir

lemma dirLookup_enlarged {r : Except ℤ ℕ} (hne : name ≠ []) (h0 : 0 ∉ name)
    (h : dirLookup d name m = .ok (m', r)) : Enlarged m m' ∧ ∀ e, r = .ok e → Reachable m' e := by
  obtain ⟨m₁, r₁, hscan, hen, hcell, -⟩ := dirScan_enlarged (p := fun m f => nameIs name m f) (i := 0)
    (n := dirBlocks m d) hm hz hd hdir fun k hk => covers_of_lt_dirBlocks (hm.size d hd hdir) (by omega)
  unfold dirLookup at h
  split at h
  swap
  · cases h
  rw [hscan, ok_bind] at h
  rcases r₁ with _ | _ | e
  · cases h
    refine ⟨hen, ?_⟩
    intro _ he
    cases he
  · cases h
    refine ⟨hen, ?_⟩
    intro _ he
    cases he
  · cases h
    refine ⟨hen, ?_⟩
    rintro _ ⟨⟩
    obtain ⟨hc, hp⟩ := hcell e rfl
    exact ((hen.reach d).mpr hd).entry ⟨hc, head_ne_zero_of_nameIs hne h0 (of_decide_eq_true hp)⟩

end Lookup

def WalkOk (m : Bytes) : Walk → Prop
  | .found f => Reachable m f
  | .missing d name => Reachable m d ∧ IsDir m d ∧ name ≠ [] ∧ 0 ∉ name ∧ name.length < maxNameLen
  | .fails _ => True

lemma not_mem_takeWhile {p : UInt8 → Bool} (h : 0 ∉ path) : 0 ∉ path.takeWhile p :=
  fun h' => h ((takeWhile_sublist p).subset h')

lemma not_mem_dropWhile {p : UInt8 → Bool} (h : 0 ∉ path) : 0 ∉ path.dropWhile p :=
  fun h' => h ((dropWhile_sublist p).subset h')

def Skipped : List UInt8 → Prop
  | [] => True
  | c :: _ => c ≠ slash

lemma skipped_skipSlash (path : List UInt8) : Skipped (skipSlash path) := by
  unfold skipSlash
  cases h : path.dropWhile (· == slash) with
  | nil => trivial
  | cons c l =>
    have := head?_dropWhile_not (· == slash) path
    rw [h] at this
    simpa [Skipped] using this

lemma dirScan_error {p : Bytes → ℕ → Bool} {c : ℤ} (h : dirScan d p n i m = .ok (m', .error c)) : IsCode c := by
  induction n generalizing i m with
  | zero => cases h
  | succ n ih =>
    obtain ⟨⟨m₁, r⟩, hget, h⟩ := bind_eq_ok.mp h
    cases r with
    | error c' =>
      cases h
      exact fileGetBlock_error hget
    | ok blk =>
      dsimp only at h
      split at h
      · cases h
      · exact ih h

lemma dirLookup_error {c : ℤ} (h : dirLookup d name m = .ok (m', .error c)) : IsCode c := by
  unfold dirLookup at h
  split at h
  · obtain ⟨⟨m₁, r⟩, hscan, h⟩ := bind_eq_ok.mp h
    rcases r with c' | _ | e
    · cases h
      exact dirScan_error hscan
    · cases h
      exact .inr (.inr rfl)
    · cases h
  · cases h

lemma walk_fail {e : ℤ} (h : e ≠ 0) : (WalkOut.fail e).walk = .fails e := if_neg h

lemma walkOutFrom_enlarged {dir : ℕ} {o : WalkOut} (hm : Consistent m) (hz : Settled m) (hd : Reachable m d)
    (h0 : 0 ∉ path) (hskip : Skipped path) (h : walkOutFrom n path dir d m = .ok (m', o)) :
    Enlarged m m' ∧ WalkOk m' o.walk := by
  induction n generalizing path dir d m with
  | zero =>
    cases h
    exact ⟨.refl hm, hd⟩
  | succ n ih =>
    cases path with
    | nil =>
      cases h
      exact ⟨.refl hm, hd⟩
    | cons c l =>
      rw [walkOutFrom] at h
      swap
      · exact cons_ne_nil c l
      split at h
      · cases h
        exact ⟨.refl hm, trivial⟩
      split at h
      · cases h
        exact ⟨.refl hm, trivial⟩
      rename_i hlen hdir
      have hdir' : IsDir m d := not_not.mp hdir
      have hne : (c :: l).takeWhile (· != slash) ≠ [] := by
        simp [show c ≠ slash from hskip]
      obtain ⟨⟨m₁, r⟩, hlook, h⟩ := bind_eq_ok.mp h
      obtain ⟨hen, hfound⟩ := dirLookup_enlarged hm hz hd hdir' hne (not_mem_takeWhile h0) hlook
      cases r with
      | ok f =>
        obtain ⟨hen', hw⟩ := ih hen.consistent (hen.settled hz) (hfound f rfl)
          (not_mem_dropWhile (not_mem_dropWhile h0)) (skipped_skipSlash _) h
        exact ⟨hen.trans hen', hw⟩
      | error e =>
        simp only at h
        split at h
        · cases h
          exact ⟨hen, (hen.reach d).mpr hd, (hen.isDir d hd).mpr hdir', hne, not_mem_takeWhile h0, by omega⟩
        · cases h
          rw [walk_fail (dirLookup_error hlook).neg.ne]
          exact ⟨hen, trivial⟩

theorem walkPath_enlarged {w : Walk} (hm : Consistent m) (hz : Settled m) (h0 : 0 ∉ path)
    (h : walkPath path m = .ok (m', w)) : Enlarged m m' ∧ WalkOk m' w := by
  obtain ⟨⟨m₁, o⟩, ho, h⟩ := bind_eq_ok.mp h
  cases h
  exact walkOutFrom_enlarged hm hz (reachable_root m) (not_mem_dropWhile h0) (skipped_skipSlash path) ho

end Jos.Fs
