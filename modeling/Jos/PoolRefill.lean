import Jos.AttachOrder

/-!
Refilling the stock of descriptors.

A new pool brings 127 descriptors. The page it lies in is cut out of the smallest free page there
is, and two descriptors are spent on each class in between. The stock and the pool together always
pay for that; what is left of them need not be what was asked for.
-/

namespace Jos.PmapModel

open CArray Jos.Dyadic Runs AttachOrder Phys

variable {ext : Path → ℕ} {F : Set Path} {s s' : Phys} {p peer : Path} {n m : Page} {cls count : ℕ}

/-- A page that can be cut: memory that nothing refers to and that is in one piece. -/
structure Whole (s : Phys) (p : Path) (n : Page) : Prop where
  node : s.node p = some n
  state : n.state = .allocatable
  refc : n.refc = 0
  leaf : s.Leaf p

section

variable (h : Whole s p n)
include h

lemma Whole.isFree : s.IsFree p := ⟨⟨n, h.node, h.refc⟩, h.leaf⟩

lemma Whole.needChildren (hcls : n.cls ≠ 0) (hdesc : 2 ≤ s.freeDesc) :
    (needChild ensureHeld s p false >>= fun s₁ => needChild ensureHeld s₁ p true) =
      .ok (s.split p n) := by
  have hdesc₁ : 1 ≤ s.freeDesc := by omega
  rw [needChild_absent provides_ensureHeld h.node hcls (h.leaf false) hdesc₁, ok_bind]
  refine needChild_absent provides_ensureHeld ?_ hcls ?_ ?_
  · rw [set_node_ne (by simp)]
    exact h.node
  · rw [set_node_ne (by simp)]
    exact h.leaf true
  · show 1 ≤ s.freeDesc - 1
    omega

lemma Whole.divide_eq (right : Bool) :
    s.divide p n right = ((s.split p n).listDel p).push (n.cls - 1) ((!right) :: p) := by
  rw [divide, if_pos h.leaf, if_pos ⟨h.state, h.refc⟩]

lemma Whole.lookupStep (addr : ℕ) (hcls : n.cls ≠ 0) (hmax : n.cls ≤ maxClass)
    (hdesc : (n.cls - cls + 1) * 2 ≤ s.freeDesc) :
    lookupStep ensureHeld .partialNode addr cls s p =
      .ok (s.divide p n (addr.testBit (n.cls - 1 + classBase)), addr.testBit (n.cls - 1 + classBase) :: p) := by
  have hn := deref_eq_ok.mpr h.node
  generalize hright : addr.testBit (n.cls - 1 + classBase) = right
  have hother : (s.split p n).deref ((!right) :: p) = .ok (n.half (!right)) :=
    deref_eq_ok.mpr (split_node_half s p n _)
  have hlist : ((s.split p n).listDel p).listAppend (n.cls - 1) ((!right) :: p) =
      .ok (s.divide p n right) := by
    rw [h.divide_eq]
    exact listAppend_eq_ok.mpr ⟨by omega, rfl⟩
  have hstate : (n.half !right).state = .allocatable := h.state
  have hchildren : ∀ b, (s.divide p n right).node (b :: p) ≠ none := by
    intro b
    rw [h.divide_eq]
    exact has_of_node (split_node_half s p n b)
  obtain ⟨s₁, hs₁, hs₂⟩ := bind_eq_ok.mp (h.needChildren hcls (by omega))
  unfold PmapModel.lookupStep
  rw [hn, ok_bind]
  dsimp only
  rw [hright, provides_ensureHeld.enough _ _ hdesc, ok_bind, hn, ok_bind, hs₁, ok_bind, hs₂, ok_bind,
    if_pos ⟨h.state, h.isFree⟩, hother, ok_bind, (assert_eq_ok (u := ())).mpr hstate, ok_bind, hlist, ok_bind,
    if_neg (fun hc => hc.1 rfl), (assert_eq_ok (u := ())).mpr hchildren, ok_bind]

lemma Whole.half (hs : Shape s) (b right : Bool) : Whole (s.divide p n right) (b :: p) (n.half b) where
  node := by
    rw [h.divide_eq]
    exact split_node_half s p n b
  state := h.state
  refc := if_pos h.refc
  leaf := by
    rw [h.divide_eq]
    exact (hs.split_leaf_iff h.leaf).mpr ⟨List.cons_ne_self _ _, .inl ⟨b, rfl⟩⟩

lemma Whole.divide_shape (hs : Shape s) (hcls : n.cls ≠ 0) (right : Bool) : Shape (s.divide p n right) := by
  rw [h.divide_eq]
  exact (hs.split h.node h.leaf hcls).congr fun _ => rfl

lemma Whole.divide_freeDesc (right : Bool) : (s.divide p n right).freeDesc = s.freeDesc - 2 := by
  rw [h.divide_eq]
  exact Nat.sub_sub _ _ _

end

lemma Shape.testBit_pa (hs : Shape s) (hn : s.node p = some n) (hcls : n.cls ≠ 0) :
    n.pa.testBit (n.cls - 1 + classBase) = false := by
  obtain ⟨hlen, haddr⟩ := hs.place p n hn
  obtain ⟨j, hj⟩ := size_dvd_start (H := maxClass) (p := p) (by omega)
  have hsize : maxClass - p.length = n.cls := by omega
  have hpa : n.pa = j * 2 ^ (n.cls + classBase) := by
    rw [Page.pa, haddr, hj, hsize, pow_add]
    ring
  rw [hpa, Nat.testBit_mul_two_pow, decide_eq_false (by omega), Bool.false_and]

lemma Shape.pa_mod (hs : Shape s) (hn : s.node p = some n) (hcls : cls ≤ n.cls) : n.pa % classSize cls = 0 := by
  obtain ⟨hlen, haddr⟩ := hs.place p n hn
  have hdvd := size_dvd_start (H := maxClass) (p := p) (by omega)
  have hsize : maxClass - p.length = n.cls := by omega
  rw [hsize] at hdvd
  refine Nat.mod_eq_zero_of_dvd ?_
  rw [Page.pa, haddr, classSize, pow_add]
  exact Nat.mul_dvd_mul_right ((pow_dvd_pow 2 hcls).trans hdvd) _

/-- What is left after the lowest page of a class was cut off a free page, `k` classes above. -/
structure Cut (cls k : ℕ) (n : Page) (s : Phys) (r : Phys × Path) : Prop where
  shape : Shape r.1
  page : ∃ m, Whole r.1 r.2 m ∧ m.cls = cls ∧ m.addr = n.addr
  freeDesc : r.1.freeDesc + 2 * k = s.freeDesc
  kernelEnd : r.1.kernelEnd = s.kernelEnd

/-- **Cutting**: two descriptors for each class, and two more in stock, are enough. -/
lemma Whole.lookupLoop {k : ℕ} (h : Whole s p n) (hs : Shape s) (hk : n.cls = cls + k)
    (hdesc : (k + 1) * 2 ≤ s.freeDesc) :
    ∃ r, lookupLoop ensureHeld .partialNode n.pa cls k s p = .ok r ∧ Cut cls k n s r := by
  induction k generalizing s p n with
  | zero => exact ⟨(s, p), rfl, hs, ⟨n, h, hk, rfl⟩, rfl, rfl⟩
  | succ k ih =>
    have hcls : n.cls ≠ 0 := by omega
    have hmax : n.cls ≤ maxClass := by
      have := (hs.place p n h.node).1
      omega
    have hround := h.lookupStep n.pa hcls hmax (show (n.cls - cls + 1) * 2 ≤ _ by omega)
    rw [hs.testBit_pa h.node hcls] at hround
    have hleft := h.half hs false false
    have hstock := h.divide_freeDesc false
    obtain ⟨r, hr, hcut⟩ := ih hleft (h.divide_shape hs hcls false) (show n.cls - 1 = cls + k by omega) (by omega)
    refine ⟨r, ?_, hcut.shape, hcut.page, ?_, ?_⟩
    · rw [PmapModel.lookupLoop, hround, ok_bind]
      exact hr
    · have := hcut.freeDesc
      omega
    · rw [hcut.kernelEnd, h.divide_eq]
      rfl

lemma Whole.pageLookup (h : Whole s p n) (hs : Shape s) (hcls : cls ≤ n.cls)
    (hdesc : (n.cls - cls + 1) * 2 ≤ s.freeDesc) :
    ∃ r, pageLookup ensureHeld .partialNode s p n.pa cls = .ok r ∧ Cut cls (n.cls - cls) n s r := by
  obtain ⟨r, hr, hcut⟩ := h.lookupLoop hs (show n.cls = cls + (n.cls - cls) by omega) hdesc
  obtain ⟨m, hm, -, -⟩ := hcut.page
  refine ⟨r, ?_, hcut⟩
  unfold PmapModel.pageLookup
  rw [deref_eq_ok.mpr h.node, ok_bind, (assert_eq_ok (u := ())).mpr (hs.pa_mod h.node hcls), ok_bind, hr,
    ok_bind, if_pos rfl, ok_bind, deref_eq_ok.mpr hm.node, ok_bind,
    (assert_eq_ok (u := ())).mpr (hcut.shape.pa_mod hm.node le_rfl), ok_bind]

lemma pageRefRec_rest (fuel : ℕ) (p : Path) (s : Phys) : SameRest s (pageRefRec fuel p s) := by
  induction fuel generalizing p s with
  | zero => exact ⟨rfl, rfl, rfl, rfl⟩
  | succ fuel ih =>
    rw [pageRefRec]
    split
    · exact ⟨rfl, rfl, rfl, rfl⟩
    · next n _ =>
      split
      · have hl := ih (false :: p) ((s.set p { n with refc := n.refc + 1 }).listDel p)
        have hr := ih (true :: p) (pageRefRec fuel (false :: p) ((s.set p { n with refc := n.refc + 1 }).listDel p))
        exact ⟨hr.pools.trans hl.pools, hr.freeDesc.trans hl.freeDesc,
          hr.currentSpace.trans hl.currentSpace, hr.kernelEnd.trans hl.kernelEnd⟩
      · exact ⟨rfl, rfl, rfl, rfl⟩

/-- `alloc_page(POOL_CLASS, ALLOC_POOL)` finds the page `peer`. -/
structure Finds (s : Phys) (peer : Path) (n : Page) : Prop where
  scan : scanFree s (fun n => s.currentSpace || n.pa + classSize poolClass < bootMemSize)
    (s.freeFrom poolClass) = .ok (some peer)
  node : s.node peer = some n

instance (s : Phys) (peer : Path) (n : Page) : Decidable (Finds s peer n) :=
  decidable_of_iff
    (scanFree s (fun n => s.currentSpace || n.pa + classSize poolClass < bootMemSize)
      (s.freeFrom poolClass) = .ok (some peer) ∧ s.node peer = some n)
    ⟨fun h => ⟨h.1, h.2⟩, fun h => ⟨h.scan, h.node⟩⟩

def PoolClear (s : Phys) (n : Page) : Prop :=
  s.kernelEnd ≤ n.pa ∨ n.pa + (classSize poolClass - 1) < ioPhysMem
  deriving Decidable

def withPool (s : Phys) (peer : Path) : Phys :=
  { s.listDel peer with freeDesc := s.freeDesc + poolEntries }

section

variable (h : Finds s peer n) (hi : Inv ext F s)
include h hi

lemma Finds.whole : Whole (withPool s peer) peer n ∧ poolClass ≤ n.cls ∧ n.cls < maxClass := by
  obtain ⟨c, hc, hlt, hp⟩ := mem_freeFrom (scanFree_mem h.scan).1
  obtain ⟨n', hn', hst, hcls, hleaf, hr⟩ := hi.lists.listed c peer hp
  rw [h.node] at hn'
  cases hn'
  exact ⟨⟨h.node, hst, hr (Set.notMem_empty _), hleaf⟩, by omega, by omega⟩

lemma Finds.lookup : ∃ r, pageLookup ensureHeld .partialNode (withPool s peer) peer n.pa poolClass = .ok r ∧
      Cut poolClass (n.cls - poolClass) n (withPool s peer) r := by
  obtain ⟨hwhole, hle, hlt⟩ := h.whole hi
  refine hwhole.pageLookup (hi.shape.congr fun _ => rfl) hle ?_
  show (n.cls - poolClass + 1) * 2 ≤ s.freeDesc + poolEntries
  have hentries : poolEntries = 127 := rfl
  have hmax := maxClass_eq
  omega

lemma Finds.alloc : ∃ s' q, allocPageWith ensureHeld true false s poolClass =
        (if PoolClear s n then .ok (s', some q) else .error (.assertion .allocPage)) ∧
      s'.freeDesc + 2 * (n.cls - poolClass) = s.freeDesc + poolEntries := by
  obtain ⟨r, hr, hcut⟩ := h.lookup hi
  obtain ⟨m, hm, hcls, haddr⟩ := hcut.page
  have hrest := pageRefRec_rest (maxClass + 1) r.2 r.1
  have hpa : m.pa = n.pa := congrArg (· * 2 ^ classBase) haddr
  refine ⟨{ pageRef r.2 r.1 with pools := r.2 :: r.1.pools }, r.2, ?_, ?_⟩
  · have hout : outsideKernel { pageRef r.2 r.1 with pools := r.2 :: r.1.pools } m ↔ PoolClear s n := by
      unfold outsideKernel
      rw [hpa, hcls]
      show (pageRefRec (maxClass + 1) r.2 r.1).kernelEnd ≤ _ ∨ _ ↔ _
      rw [hrest.kernelEnd, hcut.kernelEnd]
      rfl
    unfold allocPageWith
    simp only [Bool.true_or, Bool.true_and, Bool.not_not]
    rw [h.scan, ok_bind]
    dsimp only
    rw [deref_eq_ok.mpr h.node, ok_bind, if_pos trivial]
    change (PmapModel.pageLookup ensureHeld .partialNode (withPool s peer) peer n.pa poolClass >>= _) = _
    rw [hr, ok_bind, deref_eq_ok.mpr hm.node, ok_bind, (assert_eq_ok (u := ())).mpr hm.refc, ok_bind,
      if_pos trivial, (assert_eq_ok (u := ())).mpr hpa, ok_bind, ok_bind, assert]
    by_cases hclear : PoolClear s n
    · rw [if_pos (hout.mpr hclear), if_pos hclear, ok_bind]
    · rw [if_neg fun h => hclear (hout.mp h), if_neg hclear]
      rfl
  · show (pageRefRec (maxClass + 1) r.2 r.1).freeDesc + _ = _
    rw [hrest.freeDesc]
    exact hcut.freeDesc

end

/-- **Refilling the stock**: a second pool is never needed, and the request is met unless the page
that was found is too large for what there was. -/
theorem ensure_free_desc_iff (hi : Inv ext F s) (h : Finds s peer n) :
    (∃ r, pageLookup ensureHeld .partialNode (withPool s peer) peer n.pa poolClass = .ok r) ∧
      ((∃ s', ensureFreeDesc count s = .ok s' ∧ count ≤ s'.freeDesc) ↔
        count ≤ s.freeDesc ∨
          PoolClear s n ∧ count + 2 * (n.cls - poolClass) ≤ s.freeDesc + poolEntries) := by
  obtain ⟨r, hr, -⟩ := h.lookup hi
  obtain ⟨s', q, hs', hstock⟩ := h.alloc hi
  refine ⟨⟨r, hr⟩, ?_⟩
  unfold ensureFreeDesc
  by_cases hlt : s.freeDesc < count
  · rw [if_pos hlt, hs']
    constructor
    · rintro ⟨s'', h'', -⟩
      obtain ⟨r', hr', h''⟩ := bind_eq_ok.mp h''
      split at hr'
      · next hclear =>
        cases hr'
        obtain ⟨_, hcount, -⟩ := bind_eq_ok.mp h''
        have hcount : count ≤ s'.freeDesc := assert_eq_ok.mp hcount
        exact .inr ⟨hclear, by omega⟩
      · cases hr'
    · intro hcond
      obtain ⟨hclear, hle⟩ := hcond.resolve_left (by omega)
      have hcount : count ≤ s'.freeDesc := by omega
      refine ⟨s', ?_, hcount⟩
      rw [if_pos hclear, ok_bind]
      rw [(assert_eq_ok (u := ())).mpr hcount, ok_bind]
  · rw [if_neg hlt]
    exact ⟨fun _ => .inl (Nat.not_lt.mp hlt), fun _ => ⟨s, rfl, Nat.not_lt.mp hlt⟩⟩

def crowded : List Region :=
  [⟨0x80000000, 0x100000000, false⟩, ⟨0x800000000000000, 0x800000000001000, true⟩,
    ⟨0x800000000008000, 0x800000000009000, true⟩, ⟨0x400000000000000, 0x400000000001000, true⟩]

def inSpace (s : Phys) : Phys := { s with currentSpace := true }

lemma run_crowded : ∃ s, run attachStep (initAllocator 0x2000000) crowded = .ok s ∧ Inv (fun _ => 0) ∅ (inSpace s) ∧
      Finds (inSpace s) (toward maxClass (2 ^ 19) 29) ⟨.allocatable, 0, 19, 2 ^ 19⟩ ∧
      PoolClear (inSpace s) ⟨.allocatable, 0, 19, 2 ^ 19⟩ ∧ (inSpace s).freeDesc = 6 ∧
      ensureFreeDesc 98 (inSpace s) = .error (.assertion .ensureFreeDesc) := by
  have hend : ∃ s, run attachStep (initAllocator 0x2000000) crowded = .ok s ∧
      Finds (inSpace s) (toward maxClass (2 ^ 19) 29) ⟨.allocatable, 0, 19, 2 ^ 19⟩ ∧
      PoolClear (inSpace s) ⟨.allocatable, 0, 19, 2 ^ 19⟩ ∧ (inSpace s).freeDesc = 6 ∧
      run (fun s count => ensureFreeDesc count s) (inSpace s) [98] =
        .error (.assertion .ensureFreeDesc) := by
    decide +kernel
  obtain ⟨s, hs, hfinds, hclear, hdesc, hstop⟩ := hend
  have hinv : Inv (fun _ => 0) ∅ s :=
    run_inv (P := fun _ => True) (fun _ _ _ hi _ h => attach_inv hi h) (inv_initAllocator _) (fun _ _ => trivial) hs
  rw [run_singleton] at hstop
  exact ⟨s, hs, hinv.congr rfl rfl rfl, hfinds, hclear, hdesc, hstop⟩

/-- With 6 descriptors in stock, 97 can be asked for. -/
theorem ensure_free_desc_crowded :
    ∃ s, run attachStep (initAllocator 0x2000000) crowded = .ok s ∧
      ∃ s', ensureFreeDesc 97 (inSpace s) = .ok s' ∧ 97 ≤ s'.freeDesc := by
  obtain ⟨s, hs, hinv, hfinds, hclear, hdesc, -⟩ := run_crowded
  refine ⟨s, hs, (ensure_free_desc_iff hinv hfinds).2.mpr (.inr ⟨hclear, ?_⟩)⟩
  rw [hdesc]
  decide

-- the most that can be asked for
example : 97 + 2 * (19 - poolClass) = 6 + poolEntries := by decide +kernel

/-- But not 98, as `page_lookup` does at the root: 36 of the 133 there are go into the split. -/
theorem pool_spent_on_split :
    ∃ s, run attachStep (initAllocator 0x2000000) crowded = .ok s ∧
      Inv (fun _ => 0) ∅ (inSpace s) ∧
      Finds (inSpace s) (toward maxClass (2 ^ 19) 29) ⟨.allocatable, 0, 19, 2 ^ 19⟩ ∧
      PoolClear (inSpace s) ⟨.allocatable, 0, 19, 2 ^ 19⟩ ∧ 98 ≤ 2 * (maxClass + 1) ∧
      ensureFreeDesc 98 (inSpace s) = .error (.assertion .ensureFreeDesc) := by
  obtain ⟨s, hs, hinv, hfinds, hclear, -, hstop⟩ := run_crowded
  exact ⟨s, hs, hinv, hfinds, hclear, by decide, hstop⟩

end Jos.PmapModel
