import Mathlib.Data.List.TakeWhile
import Jos.FsSizes

/-!
What `walk_path` makes of a path: only the names between the slashes count.
-/

namespace Jos.Fs

open ByteMem CArray List

variable {m : Bytes} {d e f dir i n : ℕ} {path p q name : List UInt8} {names : List (List UInt8)}

def components (path : List UInt8) : List (List UInt8) := (path.splitOnP (· == slash)).filter (· ≠ [])

@[simp] lemma components_nil : components [] = [] := by
  simp [components, splitOnP_nil]

lemma components_slash (path : List UInt8) : components (slash :: path) = components path := by
  unfold components
  rw [splitOnP_cons_eq_if_modifyHead, if_pos (by simp), filter_cons_of_neg (by simp)]

lemma components_skipSlash (path : List UInt8) : components (skipSlash path) = components path := by
  induction path with
  | nil => rfl
  | cons c l ih =>
    by_cases hc : c = slash
    · subst hc
      rw [components_slash, ← ih, skipSlash, skipSlash, dropWhile_cons_of_pos (by simp)]
    · rw [skipSlash, dropWhile_cons_of_neg (by simpa using hc)]

lemma components_cons {c : UInt8} {l : List UInt8} (hc : c ≠ slash) :
    components (c :: l) = (c :: l).takeWhile (· != slash) ::
      components (skipSlash ((c :: l).dropWhile (· != slash))) := by
  set w := (c :: l).takeWhile (· != slash) with hw
  have hfree : ∀ x ∈ w, (x == slash) = false := fun x hx => by
    simpa using mem_takeWhile_imp hx
  have hne : w ≠ [] := by
    rw [hw]
    simp [hc]
  have hsplit : (c :: l) = w ++ (c :: l).dropWhile (· != slash) := (takeWhile_append_dropWhile).symm
  rw [components_skipSlash]
  cases hrest : (c :: l).dropWhile (· != slash) with
  | nil =>
    rw [hrest, append_nil] at hsplit
    rw [components_nil, hsplit, components, splitOnP_eq_singleton hfree,
      filter_cons_of_pos (by simpa using hne), filter_nil]
  | cons s r =>
    have hs : s = slash := by
      have hhead := head?_dropWhile_not (· != slash) (c :: l)
      rw [hrest] at hhead
      simpa using hhead
    subst hs
    rw [hrest] at hsplit
    rw [components_slash, hsplit, components, splitOnP_append_cons _ _ (by simp),
      splitOnP_eq_singleton hfree, singleton_append, filter_cons_of_pos (by simpa using hne)]
    rfl

def dirRecords (m : Bytes) (d : ℕ) : List ℕ :=
  (List.range (dirBlocks m d)).flatMap fun i => records (blockAddr (blockOf m d i))

def lookup (m : Bytes) (d : ℕ) (name : List UInt8) : Option ℕ := (dirRecords m d).find? fun e => nameIs name m e

/-- **A directory tree**: the size of every directory is a number of blocks, and these are there and on
the disk. -/
structure DirTree (m : Bytes) : Prop where
  size : ∀ d, Reachable m d → IsDir m d → 0 ≤ fSize m d ∧ (blkSize : ℤ) ∣ fSize m d
  block : ∀ d, Reachable m d → IsDir m d → ∀ i, Covers m d i → blockOf m d i ≠ 0 ∧ blockOf m d i < nblocks m
  indirect : ∀ d, Reachable m d → IsDir m d → fIndirect m d ≠ 0 → fIndirect m d < nblocks m

section Lookup

variable (ht : DirTree m) (hd : Reachable m d) (hdir : IsDir m d)

include ht hd hdir

lemma DirTree.getBlock (hi : Covers m d i) : fileGetBlock d i m = .ok (m, .ok (blockAddr (blockOf m d i))) := by
  obtain ⟨hne, hlt⟩ := ht.block d hd hdir i hi
  have hslot := hasSlot_of_ne hne
  have heq := blockOf_eq hslot
  have hwalk : fileBlockWalk d i true m = .ok (m, .ok (slotAddr m d i)) := by
    have hr : ¬ nDirect + nIndirect ≤ i := by
      rcases hslot with h | h
      · omega
      · omega
    unfold fileBlockWalk slotAddr
    rw [if_neg hr]
    by_cases hdirect : i < nDirect
    · rw [if_pos hdirect, if_pos hdirect]
    · have hind : fIndirect m d ≠ 0 := (hslot.resolve_left hdirect).2
      rw [if_neg hdirect, if_neg hdirect, if_neg hind, diskaddr_ok hind (ht.indirect d hd hdir hind)]
      rfl
  have hword : get32 m (slotAddr m d i) ≠ 0 := fun h0 => by
    rw [heq, h0] at hne
    exact hne rfl
  rw [fileGetBlock_of_walk hwalk, getSlot, if_neg hword, ← heq, diskaddr_ok hne hlt]
  rfl

lemma DirTree.scan {p : Bytes → ℕ → Bool} (hs : ∀ j < i + n, Covers m d j) : dirScan d p n i m =
      .ok (m, .ok (((List.range' i n).flatMap fun j => records (blockAddr (blockOf m d j))).find? (p m))) := by
  induction n generalizing i with
  | zero => rfl
  | succ n ih =>
    rw [dirScan, ht.getBlock hd hdir (hs i (by omega)), ok_bind, range'_succ, flatMap_cons, find?_append]
    dsimp only
    cases hfind : (records (blockAddr (blockOf m d i))).find? (p m) with
    | some e => rfl
    | none =>
      exact ih fun j hj => hs j (by omega)

lemma DirTree.lookup_eq (name : List UInt8) : dirLookup d name m = .ok (m, match lookup m d name with
      | some e => .ok e
      | none => .error (-eNotFound)) := by
  obtain ⟨h0, hdvd⟩ := ht.size d hd hdir
  unfold dirLookup
  rw [if_pos (Int.tmod_eq_zero_of_dvd hdvd),
    ht.scan hd hdir fun j hj => covers_of_lt_dirBlocks h0 (by omega), ok_bind, ← range_eq_range']
  change _ = Except.ok (m, match (dirRecords m d).find? fun e => nameIs name m e with
    | some e => _
    | none => _)
  unfold dirRecords
  cases ((range (dirBlocks m d)).flatMap fun i => records (blockAddr (blockOf m d i))).find?
    (fun e => nameIs name m e) with
  | none => rfl
  | some e => rfl

lemma DirTree.reachable_lookup (hne : name ≠ []) (h0 : 0 ∉ name) (h : lookup m d name = some e) : Reachable m e := by
  have hname := find?_some h
  obtain ⟨i, hi, he⟩ := mem_flatMap.mp (mem_of_find?_eq_some h)
  obtain ⟨j, hj, rfl⟩ := mem_records he
  have hcov := covers_of_lt_dirBlocks (ht.size d hd hdir).1 (mem_range.mp hi)
  refine hd.entry ⟨.mk i j hdir hcov (ht.block d hd hdir i hcov).1 hj, ?_⟩
  exact head_ne_zero_of_nameIs hne h0 (of_decide_eq_true hname)

end Lookup

/-- What a walk along names comes to: `dir` is the directory of `f`. -/
def resolve (m : Bytes) : ℕ → ℕ → List (List UInt8) → WalkOut
  | dir, f, [] => ⟨0, f, dir, none⟩
  | _, f, name :: names =>
    if maxNameLen ≤ name.length then .fail (-eBadPath)
    else if IsDir m f then
      match lookup m f name with
      | some e => resolve m f e names
      | none => if names = [] then ⟨-eNotFound, 0, f, some name⟩ else .fail (-eNotFound)
    else .fail (-eNotFound)

lemma components_eq_nil (h : Skipped path) : components path = [] ↔ path = [] := by
  cases path with
  | nil => exact iff_of_true components_nil rfl
  | cons c l =>
    rw [components_cons h]
    exact iff_of_false (cons_ne_nil _ _) (cons_ne_nil _ _)

/-- **The walk along a path is that along its names.** -/
theorem walkOutFrom_eq_resolve (ht : DirTree m) (hf : Reachable m f) (h0 : 0 ∉ path) (hskip : Skipped path)
    (hn : path.length ≤ n) :
    walkOutFrom n path dir f m = .ok (m, resolve m dir f (components path)) := by
  induction n generalizing path dir f with
  | zero =>
    obtain rfl := eq_nil_of_length_eq_zero (Nat.le_zero.mp hn)
    rfl
  | succ n ih =>
    cases path with
    | nil =>
      rfl
    | cons c l =>
      rw [components_cons hskip, walkOutFrom]
      swap
      · exact cons_ne_nil c l
      have hshort : (skipSlash ((c :: l).dropWhile (· != slash))).length ≤ n := by
        rw [dropWhile_cons_of_pos (by simp [show c ≠ slash from hskip])]
        have h1 := (dropWhile_sublist (l := l) (· != slash)).length_le
        have h2 := (dropWhile_sublist (l := l.dropWhile (· != slash)) (· == slash)).length_le
        rw [length_cons] at hn
        exact (h2.trans h1).trans (by omega)
      have hne : (c :: l).takeWhile (· != slash) ≠ [] := by
        simp [show c ≠ slash from hskip]
      have hname0 : 0 ∉ (c :: l).takeWhile (· != slash) := not_mem_takeWhile h0
      have hrest0 : 0 ∉ skipSlash ((c :: l).dropWhile (· != slash)) := not_mem_dropWhile (not_mem_dropWhile h0)
      have hrestskip := skipped_skipSlash ((c :: l).dropWhile (· != slash))
      generalize (c :: l).takeWhile (· != slash) = name at *
      generalize skipSlash ((c :: l).dropWhile (· != slash)) = rest at *
      rw [resolve]
      split
      · rfl
      by_cases hdir : IsDir m f
      · rw [if_neg (not_not.mpr (show fType m f = ftypeDir from hdir)), if_pos hdir, ht.lookup_eq hf hdir, ok_bind]
        cases hlook : lookup m f name with
        | some e =>
          exact ih (ht.reachable_lookup hf hdir hne hname0 hlook) hrest0 hrestskip hshort
        | none =>
          dsimp only
          by_cases hr : rest = []
          · rw [if_pos ⟨rfl, hr⟩, if_pos ((components_eq_nil hrestskip).mpr hr)]
          · rw [if_neg fun h => hr h.2, if_neg ((components_eq_nil hrestskip).not.mpr hr)]
      · rw [if_pos (show ¬ fType m f = ftypeDir from hdir), if_neg hdir]

inductive Leads (m : Bytes) : ℕ → List (List UInt8) → ℕ → Prop
  | nil (f : ℕ) : Leads m f [] f
  | cons {d e f : ℕ} {name : List UInt8} {names : List (List UInt8)} (hd : IsDir m d)
      (h : lookup m d name = some e) (hrest : Leads m e names f) : Leads m d (name :: names) f

lemma resolve_leads (h : Leads m d names f) (hlen : ∀ name ∈ names, name.length < maxNameLen) (dir : ℕ) :
    ∃ dir', resolve m dir d names = ⟨0, f, dir', none⟩ ∧ (names = [] → dir' = dir) ∧
      ∀ init name, names = init ++ [name] → Leads m d init dir' := by
  induction h generalizing dir with
  | nil f =>
    refine ⟨dir, rfl, fun _ => rfl, fun init name h => ?_⟩
    exact absurd h.symm (append_ne_nil_of_right_ne_nil init (cons_ne_nil name []))
  | @cons d e f name names hd hlook _ ih =>
    obtain ⟨hshort, hlen⟩ := forall_mem_cons.mp hlen
    obtain ⟨dir', hres, hnil, hinit⟩ := ih hlen d
    refine ⟨dir', ?_, fun h => absurd h (cons_ne_nil _ _), fun init last h => ?_⟩
    · rw [resolve, if_neg (not_le.mpr hshort), if_pos hd, hlook]
      exact hres
    · cases init with
      | nil =>
        obtain ⟨rfl, hnames⟩ := cons.inj h
        rw [hnil hnames]
        exact .nil d
      | cons a init =>
        obtain ⟨rfl, hnames⟩ := cons.inj h
        exact .cons hd hlook (hinit init last hnames)

lemma resolve_missing (h : Leads m d names e) (hlen : ∀ n ∈ names ++ [name], n.length < maxNameLen)
    (hdir : IsDir m e) (hnone : lookup m e name = none) (dir : ℕ) :
    resolve m dir d (names ++ [name]) = ⟨-eNotFound, 0, e, some name⟩ := by
  induction h generalizing dir with
  | nil f =>
    rw [nil_append, resolve, if_neg (not_le.mpr (hlen name (mem_singleton_self _))), if_pos hdir, hnone, if_pos rfl]
  | @cons d e' f name' names hd hlook _ ih =>
    rw [cons_append] at hlen ⊢
    obtain ⟨hshort, hlen⟩ := forall_mem_cons.mp hlen
    rw [resolve, if_neg (not_le.mpr hshort), if_pos hd, hlook]
    exact ih hlen hdir hnone d

lemma walkPathOut_eq_resolve (ht : DirTree m) (h0 : 0 ∉ path) :
    walkPathOut path m = .ok (m, resolve m 0 rootFile (components path)) := by
  have hshort := (dropWhile_sublist (l := path) (· == slash)).length_le
  rw [← components_skipSlash path]
  exact walkOutFrom_eq_resolve ht (reachable_root m) (not_mem_dropWhile h0) (skipped_skipSlash path) hshort

/-- **Path evaluation depends on the names only.** -/
theorem walk_path_components (ht : DirTree m) (hp : 0 ∉ p) (hq : 0 ∉ q) (hpq : components p = components q)
    (hlen : ∀ name ∈ components p, name.length < maxNameLen) :
    walkPathOut p m = walkPathOut q m ∧
      (∀ f, Leads m rootFile (components p) f → ∃ dir, walkPathOut p m = .ok (m, ⟨0, f, dir, none⟩) ∧
        (components p = [] → dir = 0) ∧
        ∀ init name, components p = init ++ [name] → Leads m rootFile init dir) ∧
      ∀ init name dir, components p = init ++ [name] → Leads m rootFile init dir → IsDir m dir →
        lookup m dir name = none → walkPathOut p m = .ok (m, ⟨-eNotFound, 0, dir, some name⟩) := by
  have hwalk := walkPathOut_eq_resolve ht hp
  refine ⟨?_, fun f h => ?_, fun init name dir hnames h hdir hnone => ?_⟩
  · rw [hwalk, walkPathOut_eq_resolve ht hq, hpq]
  · obtain ⟨dir, hres, hrest⟩ := resolve_leads h hlen 0
    exact ⟨dir, by rw [hwalk, hres], hrest⟩
  · rw [hnames] at hlen
    rw [hwalk, hnames, resolve_missing h hlen hdir hnone]

lemma dirTree_of_flat (hsize : fSize m rootFile = blkSize) (hne : blockOf m rootFile 0 ≠ 0)
    (hlt : blockOf m rootFile 0 < nblocks m) (hind : fIndirect m rootFile = 0)
    (hflat : ∀ j < blkFiles, ¬ IsDir m (blockAddr (blockOf m rootFile 0) + sizeofFile * j)) : DirTree m := by
  have hcov : ∀ i, Covers m rootFile i → i = 0 := fun i hi => by
    unfold Covers at hi
    by_contra h0
    have : blkSize ≤ blkSize * i := Nat.le_mul_of_pos_right _ (Nat.pos_of_ne_zero h0)
    omega
  have hroot : ∀ d, Reachable m d → d = rootFile ∨ ¬ IsDir m d := by
    intro d hd
    induction hd with
    | refl => exact .inl rfl
    | tail _ he ih =>
      obtain ⟨i, j, hdir, hi, -, hj⟩ := he.1
      rcases ih with rfl | hno
      · obtain rfl := hcov i hi
        exact .inr (hflat j hj)
      · exact absurd hdir hno
  refine ⟨fun d hd hdir => ?_, fun d hd hdir i hi => ?_, fun d hd hdir h => ?_⟩
  all_goals obtain rfl := (hroot d hd).resolve_right (not_not.mpr hdir)
  · rw [hsize]
    exact ⟨by decide, dvd_rfl⟩
  · obtain rfl := hcov i hi
    exact ⟨hne, hlt⟩
  · exact absurd hind h

open FsOwners Runs in
/-- On a disk with one file, `a`: `//a/` is `a`, and `b/` is missing in the root directory. -/
theorem walk_path_components_newDisk :
    ∃ m, run step (newDisk 5) [.create [97]] = .ok m ∧
      walkPathOut [47, 47, 97, 47] m = walkPathOut [97] m ∧
      (∃ dir, walkPathOut [47, 47, 97, 47] m = .ok (m, ⟨0, firstFile, dir, none⟩) ∧
        Leads m rootFile [] dir) ∧
      walkPathOut [98, 47] m = .ok (m, ⟨-eNotFound, 0, rootFile, some [98]⟩) := by
  have hcreate : ∃ m, run step (newDisk 5) [.create [97]] = .ok m ∧ fSize m rootFile = blkSize ∧
      blockOf m rootFile 0 ≠ 0 ∧ blockOf m rootFile 0 < nblocks m ∧ fIndirect m rootFile = 0 ∧
      (∀ j < blkFiles, ¬ IsDir m (blockAddr (blockOf m rootFile 0) + sizeofFile * j)) ∧ IsDir m rootFile ∧
      lookup m rootFile [97] = some firstFile ∧ lookup m rootFile [98] = none := by
    decide
  obtain ⟨m, hm, hsize, hne, hlt, hind, hflat, hdir, hfound, hnone⟩ := hcreate
  have ht := dirTree_of_flat hsize hne hlt hind hflat
  have ha := walk_path_components (p := [47, 47, 97, 47]) (q := [97]) ht (by decide) (by decide) (by decide) (by decide)
  have hb := walk_path_components (p := [98, 47]) (q := [98]) ht (by decide) (by decide) (by decide) (by decide)
  obtain ⟨dir, hwalk, -, hparent⟩ := ha.2.1 firstFile (.cons hdir hfound (.nil _))
  exact ⟨m, hm, ha.1, ⟨dir, hwalk, hparent [] [97] (by decide)⟩,
    hb.2.2 [] [98] rootFile (by decide) (.nil _) hdir hnone⟩

end Jos.Fs
