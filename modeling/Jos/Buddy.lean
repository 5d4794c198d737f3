import Jos.PhysAttach
import Jos.Runs

/-!
The allocator in use: memory is attached, pages are allocated or looked up, referenced and given
back, in any order.
-/

namespace Jos.Buddy

open CArray Jos.Dyadic PmapModel Runs List Nat Phys

structure Ref where
  page : Path
  allocated : Bool
  deriving DecidableEq, Repr

structure State where
  phys : Phys
  refs : List Ref

def boot (kernelEnd : ℕ) : State := ⟨initAllocator kernelEnd, []⟩

inductive Step
  | attach (region : Region)
  /-- `current_space` is set or not. -/
  | space (current : Bool)
  /-- `alloc_page`, and `page_ref` of the page -/
  | alloc (cls : ℕ) (bootmem : Bool)
  /-- `page_lookup` with `alloc` and `PARTIAL_NODE`, and `page_ref` of the page -/
  | lookup (addr : UInt64) (cls : ℕ)
  /-- `page_unref` for a reference that is held -/
  | release (i : ℕ)
  deriving DecidableEq, Repr

def step (st : State) : Step → Except Failure State
  | .attach region => do
    let s ← region.attach st.phys
    .ok { st with phys := s }
  | .space current => .ok { st with phys := { st.phys with currentSpace := current } }
  | .alloc cls bootmem => do
    let r ← allocPage bootmem st.phys cls
    match r.2 with
    -- `page_ref` of the null pointer
    | none => .ok { st with phys := r.1 }
    | some p => .ok ⟨pageRef p r.1, ⟨p, true⟩ :: st.refs⟩
  | .lookup addr cls => do
    let r ← pageLookup ensureFreeDesc .partialNode st.phys [] addr.toNat cls
    .ok ⟨pageRef r.2 r.1, ⟨r.2, false⟩ :: st.refs⟩
  | .release i =>
    match st.refs[i]? with
    | none => .ok st
    | some ref => do
      let s ← pageUnref ref.page st.phys
      .ok ⟨s, st.refs.eraseIdx i⟩

/-- What `check_physical_tree` checks of the structure, for one page. -/
structure Checked (s : Phys) (p : Path) (n : Page) : Prop where
  aligned : n.pa % classSize n.cls = 0
  typed : n.state ≠ .partialNode → ∀ b m, s.node (b :: p) = some m → m.state = n.state
  left : ∀ m, s.node (false :: p) = some m → m.cls + 1 = n.cls ∧ n.pa = m.pa
  right : ∀ m, s.node (true :: p) = some m → m.cls + 1 = n.cls ∧ n.addr + 2 ^ (n.cls - 1) = m.addr
  parent : ∀ b q, p = b :: q → ∃ m, s.node q = some m ∧ m.cls - 1 = n.cls
  root : p = [] → n.cls = maxClass

def FreeExact (s : Phys) : Prop :=
  ∀ c, (s.free c).Nodup ∧ ∀ p, p ∈ s.free c ↔
    ∃ n, s.node p = some n ∧ n.state = .allocatable ∧ n.cls = c ∧ n.refc = 0 ∧ s.Leaf p

def Apart (a b : Ref) : Prop := ∀ x, ¬(Covers maxClass a.page x ∧ Covers maxClass b.page x)

structure Correct (st : State) : Prop where
  checked : ∀ p n, st.phys.node p = some n → Checked st.phys p n
  free : FreeExact st.phys
  apart : (st.refs.filter (·.allocated)).Pairwise Apart

def State.ext (st : State) : Path → ℕ := held (st.refs.map (·.page))

structure AllocInv (st : State) : Prop where
  inv : Inv st.ext ∅ st.phys
  apart : (st.refs.filter (·.allocated)).Pairwise Apart

variable {st st' : State} {s : Phys} {refs : List Ref} {p : Path} {n : Page} {F : Set Path}

lemma apart_of_fresh (hi : Inv (held (refs.map (·.page))) F s) (hn : s.node p = some n) (hr : n.refc = 0)
    (hl : s.Leaf p) {a : Ref} (ha : a ∈ refs) {x : ℕ} (hx : Covers maxClass p x)
    (hx' : Covers maxClass a.page x) : False := by
  have hpos : 0 < direct (held (refs.map (·.page))) s a.page :=
    Nat.add_pos_left (count_pos_iff.mpr (mem_map_of_mem ha)) _
  obtain ⟨m, hm⟩ := has_iff.mp (hi.counted.present _ hpos)
  have hap : a.page <:+ p := by
    rcases comparable_of_covers (hi.shape.length_le (has_of_node hn))
      (hi.shape.length_le (has_of_node hm)) hx hx' with h | h
    · rw [hi.shape.eq_of_leaf hl (has_of_node hm) h]
    · exact h
  have hzero := hi.counted.above hi.shape hn hr hap m hm
  have hle := hi.counted.count_le hm hi.shape
  rw [hzero] at hle
  exact absurd (lt_of_lt_of_le hpos hle) (lt_irrefl 0)

/-- **One step** keeps the invariant, as long as no counter wraps. -/
theorem step_inv {x : Step} (h : AllocInv st) (hs : step st x = .ok st') (hb : Bounded st'.ext st'.phys) :
    AllocInv st' := by
  cases x with
  | attach region =>
    obtain ⟨s, hatt, hst⟩ := bind_eq_ok.mp hs
    cases hst
    exact ⟨attach_inv h.inv hatt, h.apart⟩
  | space current =>
    cases hs
    exact ⟨h.inv.congr rfl rfl rfl, h.apart⟩
  | alloc cls bootmem =>
    obtain ⟨⟨s, o⟩, ho, hst⟩ := bind_eq_ok.mp hs
    obtain ⟨hnone, hsome⟩ := allocPage_spec h.inv ho
    cases o with
    | none =>
      cases hst
      rw [hnone rfl]
      exact h
    | some p =>
      cases hst
      obtain ⟨-, hfresh⟩ := hsome p rfl
      obtain ⟨n, hn, -, -, hr⟩ := hfresh.page
      unfold State.ext at hb
      rw [map_cons, held_cons] at hb
      refine ⟨?_, ?_⟩
      · unfold State.ext
        rw [map_cons, held_cons]
        exact hfresh.inv.ref (has_of_node hn) hb.room
      rw [filter_cons_of_pos rfl, pairwise_cons]
      refine ⟨fun a ha x hx => ?_, h.apart⟩
      exact apart_of_fresh hfresh.inv hn hr hfresh.idle.1 (mem_of_mem_filter ha) hx.1 hx.2
  | lookup addr cls =>
    obtain ⟨r, hr, hst⟩ := bind_eq_ok.mp hs
    cases hst
    obtain ⟨n, hn⟩ := has_iff.mp h.inv.shape.root
    obtain ⟨hl, -⟩ := pageLookup_spec provides_ensureFreeDesc (h.inv.mono (Set.subset_insert [] ∅)) hn hr
    unfold State.ext at hb
    rw [map_cons, held_cons] at hb
    refine ⟨?_, ?_⟩
    · unfold State.ext
      rw [map_cons, held_cons]
      exact hl.inv.ref hl.has hb.room
    rw [filter_cons_of_neg (by exact nofun)]
    exact h.apart
  | release i =>
    rw [step] at hs
    cases href : st.refs[i]? with
    | none =>
      rw [href] at hs
      cases hs
      exact h
    | some ref =>
      rw [href] at hs
      obtain ⟨s, hunref, hst⟩ := bind_eq_ok.mp hs
      cases hst
      have hinv := h.inv
      have hpage : (st.refs.map (·.page))[i]? = some ref.page := by
        rw [getElem?_map, href]
        rfl
      unfold State.ext at hinv
      rw [held_eraseIdx hpage] at hinv
      refine ⟨?_, h.apart.sublist ((eraseIdx_sublist _ _).filter _)⟩
      unfold State.ext
      rw [← eraseIdx_map]
      exact hinv.unref hunref

lemma allocInv_boot (kernelEnd : ℕ) : AllocInv (boot kernelEnd) := ⟨inv_initAllocator kernelEnd, List.Pairwise.nil⟩

lemma checked_of_shape (hs : Shape s) (hn : s.node p = some n) : Checked s p n := by
  obtain ⟨hcls, haddr⟩ := hs.place p n hn
  have hchild : ∀ b m, s.node (b :: p) = some m →
      m.cls + 1 = n.cls ∧ m.addr = n.addr + if b then 2 ^ (n.cls - 1) else 0 := by
    intro b m hm
    obtain ⟨hcls', haddr'⟩ := hs.place _ m hm
    rw [length_cons] at hcls'
    rw [haddr', start, haddr, show maxClass - (p.length + 1) = n.cls - 1 by omega]
    exact ⟨by omega, rfl⟩
  constructor
  · rw [Page.pa, classSize, pow_add, haddr, mul_mod_mul_right]
    have hdvd := size_dvd_start (H := maxClass) (p := p) (by omega)
    rw [show maxClass - p.length = n.cls by omega] at hdvd
    rw [mod_eq_zero_of_dvd hdvd, zero_mul]
  · exact fun hne b m hm => hs.uniform b p n m hn hne hm
  · intro m hm
    obtain ⟨h1, h2⟩ := hchild false m hm
    refine ⟨h1, ?_⟩
    unfold Page.pa
    rw [h2]
    rfl
  · intro m hm
    obtain ⟨h1, h2⟩ := hchild true m hm
    exact ⟨h1, h2.symm⟩
  · rintro b q rfl
    obtain ⟨m, hm⟩ := has_iff.mp (hs.parent b q (has_of_node hn))
    have := (hs.place q m hm).1
    rw [length_cons] at hcls
    exact ⟨m, hm, by omega⟩
  · rintro rfl
    exact hcls

lemma freeExact_of_lists (hl : Lists ∅ ∅ s) : FreeExact s := by
  refine fun c => ⟨hl.nodup c, fun p => ⟨fun hp => ?_, ?_⟩⟩
  · obtain ⟨n, hn, hst, hc, hleaf, hr⟩ := hl.listed c p hp
    exact ⟨n, hn, hst, hc, hr (Set.notMem_empty p), hleaf⟩
  · rintro ⟨n, hn, hst, rfl, hr, hleaf⟩
    exact hl.complete p n hn hst hr hleaf (Set.notMem_empty p) (Set.notMem_empty p)

lemma AllocInv.correct (h : AllocInv st) : Correct st :=
  ⟨fun _ _ hn => checked_of_shape h.inv.shape hn, freeExact_of_lists h.inv.lists, h.apart⟩

/-- **The allocator**: in every run without a panic, in which the references to no page come near
to what its counter can hold. -/
theorem buddy_correct (kernelEnd : ℕ) (xs : List Step) (st : State)
    (hrun : run step (boot kernelEnd) xs = .ok st)
    (hb : ∀ pre u, pre <+: xs → run step (boot kernelEnd) pre = .ok u → Bounded u.ext u.phys) : Correct st := by
  have hinv : AllocInv st := by
    refine run_inv_when (C := fun u x => ∀ u', step u x = .ok u' → Bounded u'.ext u'.phys)
      (fun u x u' hu hC hs => step_inv hu hs (hC u' hs)) (allocInv_boot kernelEnd) ?_ hrun
    intro pre x u hpre hu u' hs
    exact hb _ u' hpre ((run_snoc_ok hu x).trans hs)
  exact hinv.correct

def sample : List Step :=
  [.attach ⟨0, 0x800000000000000, false⟩, .alloc 45 false, .lookup 0x200000000000000 45, .release 1]

lemma sample_small : ∀ k ≤ 4, ∃ u, run step (boot 0) (sample.take k) = .ok u ∧
    u.refs.length + u.phys.pools.length + 1 < 2 ^ 32 := by
  decide +kernel

example : ∃ st, run step (boot 0) sample = .ok st ∧ st.refs.length = 1 := by decide +kernel

theorem buddy_correct_sample :
    ∃ st, run step (boot 0) sample = .ok st ∧ st.refs = [⟨[true, false, false], false⟩] ∧ Correct st := by
  have hend : ∃ st, run step (boot 0) sample = .ok st ∧ st.refs = [⟨[true, false, false], false⟩] := by
    decide +kernel
  obtain ⟨st, hrun, hrefs⟩ := hend
  refine ⟨st, hrun, hrefs, buddy_correct 0 sample st hrun fun pre u hpre hu => ?_⟩
  rw [prefix_iff_eq_take.mp hpre] at hu
  obtain ⟨u', hu', hlen⟩ := sample_small pre.length hpre.length_le
  rw [hu] at hu'
  cases hu'
  exact bounded_of_length (by rwa [length_map])

/-- **References are counted**: in every such run, the counter of a page says how many references are held to it
and how many pools are in it, with one more if the page above it is referenced; and a page that is held is there. -/
theorem refs_counted (kernelEnd : ℕ) (xs : List Step) (st : State)
    (hrun : run step (boot kernelEnd) xs = .ok st)
    (hb : ∀ pre u, pre <+: xs → run step (boot kernelEnd) pre = .ok u → Bounded u.ext u.phys) :
    (∀ n, st.phys.node [] = some n → n.refc.toNat = direct st.ext st.phys []) ∧
      (∀ b p n m, st.phys.node p = some n → st.phys.node (b :: p) = some m →
        m.refc.toNat = direct st.ext st.phys (b :: p) + if n.refc = 0 then 0 else 1) ∧
      ∀ r ∈ st.refs, st.phys.Has r.page := by
  have hinv : AllocInv st :=
    run_inv_when (C := fun u x => ∀ u', step u x = .ok u' → Bounded u'.ext u'.phys)
      (fun u x u' hu hC hs => step_inv hu hs (hC u' hs)) (allocInv_boot kernelEnd)
      (fun pre x u hpre hu u' hs => hb _ u' hpre ((run_snoc_ok hu x).trans hs)) hrun
  have hc := hinv.inv.counted
  refine ⟨hc.root, fun b p n m => hc.below b p n m nil_suffix, fun r hr => hc.present _ ?_⟩
  exact Nat.add_pos_left (count_pos_iff.mpr (mem_map_of_mem hr)) _

theorem refs_counted_sample :
    ∃ st, run step (boot 0) sample = .ok st ∧ ∀ r ∈ st.refs, st.phys.Has r.page := by
  obtain ⟨st, hrun, -⟩ := sample_small 4 le_rfl
  refine ⟨st, hrun, (refs_counted 0 sample st hrun fun pre u hpre hu => ?_).2.2⟩
  rw [prefix_iff_eq_take.mp hpre] at hu
  obtain ⟨u', hu', hlen⟩ := sample_small pre.length hpre.length_le
  rw [hu] at hu'
  cases hu'
  exact bounded_of_length (by rwa [length_map])

/-- The lower half of all memory is referenced again and again; `r` is what its counter says. -/
structure Wrapping (r : UInt32) (st : State) : Prop where
  root : st.phys.node [] = some ⟨.partialNode, 0, 48, 0⟩
  page : st.phys.node [false] = some ⟨.allocatable, r, 47, 0⟩
  other : st.phys.node [true] ≠ none
  leaf : st.phys.Leaf [false]
  unlisted : [false] ∉ st.phys.free 47
  desc : 4 ≤ st.phys.freeDesc

def memory : Step := .attach ⟨0, 0x800000000000000, false⟩

def again : Step := .lookup 0 47

lemma step_again {r : UInt32} (h : Wrapping r st) (hr : r ≠ 0) :
    ∃ st', step st again = .ok st' ∧ Wrapping (r + 1) st' := by
  have hall : ∀ b, st.phys.Has [b] := by
    rintro (_ | _)
    · exact has_of_node h.page
    · exact h.other
  have hround : lookupStep ensureFreeDesc .partialNode 0 47 st.phys [] = .ok (st.phys, [false]) :=
    lookupStep_present provides_ensureFreeDesc h.root hall h.desc
  have hlook : pageLookup ensureFreeDesc .partialNode st.phys [] (0 : UInt64).toNat 47 =
      .ok (st.phys, [false]) := by
    have hderef : ∀ q k, st.phys.node q = some k → st.phys.deref q = .ok k := fun _ _ => deref_eq_ok.mpr
    rw [pageLookup, hderef _ _ h.root, ok_bind, UInt64.toNat_zero]
    dsimp only
    rw [show 48 - 47 = 0 + 1 from rfl, lookupLoop, hround, ok_bind, lookupLoop]
    simp only [Page.pa, zero_mul, zero_mod, assert, if_true, ok_bind, hderef _ _ h.page]
  have href : pageRef [false] st.phys = st.phys.set [false] ⟨.allocatable, r + 1, 47, 0⟩ := by
    rw [pageRef, pageRefRec, h.page]
    exact if_neg hr
  refine ⟨⟨pageRef [false] st.phys, ⟨[false], false⟩ :: st.refs⟩, ?_, ?_⟩
  · rw [again, step, hlook]
    rfl
  · rw [href]
    exact ⟨(set_node_ne (by simp) _).trans h.root, set_node_self _ _ _,
      fun hn => h.other ((set_node_ne (by simp) _).symm.trans hn),
      (set_leaf_iff (has_of_node h.page) _).mpr h.leaf, h.unlisted, h.desc⟩

lemma run_again {k : ℕ} (hk : k < 2 ^ 32) :
    ∃ st, run step (boot 0) (memory :: List.replicate (k + 1) again) = .ok st ∧
      Wrapping (UInt32.ofNat (k + 1)) st := by
  induction k with
  | zero =>
    have hfirst : ∃ st, run step (boot 0) [memory, again] = .ok st ∧ st.phys.node [] = some ⟨.partialNode, 0, 48, 0⟩ ∧
        st.phys.node [false] = some ⟨.allocatable, 1, 47, 0⟩ ∧ st.phys.node [true] ≠ none ∧
        st.phys.Leaf [false] ∧ [false] ∉ st.phys.free 47 ∧ 4 ≤ st.phys.freeDesc := by
      decide
    obtain ⟨st, hrun, h1, h2, h3, h4, h5, h6⟩ := hfirst
    exact ⟨st, hrun, h1, h2, h3, h4, h5, h6⟩
  | succ k ih =>
    obtain ⟨st, hrun, hst⟩ := ih (by omega)
    have hne : UInt32.ofNat (k + 1) ≠ 0 := by
      intro h0
      have := congrArg UInt32.toNat h0
      rw [UInt32.toNat_ofNat_of_lt' hk] at this
      cases this
    obtain ⟨st', hstep, hst'⟩ := step_again hst hne
    refine ⟨st', ?_, ?_⟩
    · rw [replicate_succ', ← cons_append]
      exact (run_snoc_ok hrun again).trans hstep
    · rwa [UInt32.ofNat_add _ 1]

/-- After `2 ^ 32` references the counter is zero: a page that is free by its counter is in no
list. -/
theorem buddy_wraps :
    ¬ ∀ kernelEnd xs st, run step (boot kernelEnd) xs = .ok st → Correct st := by
  intro hall
  obtain ⟨st, hrun, hst⟩ := run_again (k := 2 ^ 32 - 1) (by decide)
  have hlist := ((hall 0 _ st hrun).free 47).2 [false]
  exact hst.unlisted (hlist.mpr ⟨_, hst.page, rfl, rfl, rfl, hst.leaf⟩)

end Jos.Buddy
