import Jos.PhysLookup

/-!
Allocating a page.

A page is taken out of its list before it is split, so that the allocation of a descriptor pool,
which happens in the middle of it, cannot take it again.
-/

namespace Jos.PmapModel

open CArray Jos.Dyadic List

variable {ext : Path → ℕ} {F : Set Path} {d : Path → ℕ} {s s' s₁ : Phys} {p q peer : Path}
  {n m : Page} {ensure : Ensure} {addr cls : ℕ} {pool bootmem : Bool} {r : Phys × Path}

lemma scanFree_mem {fits : Page → Bool} {ps : List Path} (h : scanFree s fits ps = .ok (some p)) :
    p ∈ ps ∧ ∃ n, s.node p = some n ∧ fits n = true := by
  induction ps with
  | nil => cases h
  | cons q ps ih =>
    obtain ⟨n, hn, h⟩ := bind_eq_ok.mp h
    replace h := then_ok h
    rw [Phys.deref_eq_ok] at hn
    split at h
    · next hfit =>
      cases h
      exact ⟨mem_cons_self, n, hn, hfit⟩
    · obtain ⟨hp, hrest⟩ := ih h
      exact ⟨mem_cons_of_mem q hp, hrest⟩

lemma mem_freeFrom (h : p ∈ s.freeFrom cls) : ∃ c, cls ≤ c ∧ c < maxClass ∧ p ∈ s.free c := by
  obtain ⟨c, hc, hp⟩ := mem_flatMap.mp h
  rw [mem_range'_1] at hc
  exact ⟨c, hc.1, by omega, hp⟩

lemma Inv.listDel (h : Inv ext F s) : Inv ext (insert p F) (s.listDel p) := ⟨h.shape.congr fun _ => rfl,
    (h.lists.mono (Set.subset_insert p F) (subset_refl _)).listDel (.inl (Set.mem_insert p F)),
    h.counted.of_node rfl⟩

lemma grown_listDel (s : Phys) (p : Path) : Grown ∅ s (s.listDel p) where
  frames := fun _ n hn => ⟨n, hn, rfl⟩
  idle := fun _ _ _ hi => ⟨rfl, hi.1, fun c hc => hi.2 c (Phys.mem_listDel_free.mp hc).1⟩
  currentSpace := rfl
  kernelEnd := rfl

lemma grown_ref (h : Referenced d p s s') : Grown {q | p <:+ q} s s' where
  frames := fun q n hn => by
    have hf := h.frames q
    rw [hn] at hf
    obtain ⟨m, hm, hmn⟩ := Option.map_eq_some_iff.mp hf
    exact ⟨m, hm, hmn⟩
  idle := fun q hq _ hi => by
    refine ⟨h.outside q hq, fun b => ?_, fun c hc => hi.2 c (h.listed c q hc)⟩
    have hf := h.frames (b :: q)
    rw [hi.1 b] at hf
    exact Option.map_eq_none_iff.mp hf
  currentSpace := h.rest.currentSpace
  kernelEnd := h.rest.kernelEnd

lemma Grown.of_listed {c : ℕ} (h : Grown {q | p <:+ q} s s') (hs : Shape s) (hl : Lists F ∅ s)
    (hp : p ∈ s.free c) : Grown ∅ s s' where
  frames := h.frames
  idle := fun q _ hhas hi => by
    refine h.idle q (fun hq => ?_) hhas hi
    obtain ⟨n, -, -, -, hleaf, -⟩ := hl.listed c p hp
    rw [hs.eq_of_leaf hleaf hhas hq] at hi
    exact hi.2 c hp
  currentSpace := h.currentSpace
  kernelEnd := h.kernelEnd

structure Fresh (ext : Path → ℕ) (F : Set Path) (cls : ℕ) (s : Phys) (p : Path) : Prop where
  inv : Inv ext (insert p F) s
  page : ∃ n, s.node p = some n ∧ n.state = .allocatable ∧ n.cls = cls ∧ n.refc = 0
  idle : Idle s p

lemma lookup_listed {c k : ℕ} (he : Provides ensure) (hi : Inv ext F s) (hp : peer ∈ s.free c)
    (hc : cls ≤ c) (hn : s.node peer = some n)
    (h : pageLookup ensure .partialNode { s.listDel peer with freeDesc := k } peer addr cls = .ok r) :
    Fresh ext F cls r.1 r.2 ∧ Grown ∅ s r.1 ∧ Grown {q | peer <:+ q} s r.1 ∧ peer <:+ r.2 := by
  obtain ⟨n', hn', hst, hcls, hleaf, hr⟩ := hi.lists.listed c peer hp
  rw [hn] at hn'
  cases hn'
  have hi₁ : Inv ext (insert peer F) { s.listDel peer with freeDesc := k } := hi.listDel.congr rfl rfl rfl
  obtain ⟨hl, -⟩ := pageLookup_spec he hi₁ hn h
  have hidle : Idle { s.listDel peer with freeDesc := k } peer :=
    ⟨hleaf, fun c hc => (Phys.mem_listDel_free.mp hc).2 rfl⟩
  obtain ⟨m, hm, hidle', hst', hr'⟩ := hl.idle n hn hidle
  have hplace := (hi.shape.place peer n hn).1
  have hplace' := (hl.inv.shape.place _ m hm).1
  have hlen := hl.length
  have hgrown : Grown {q | peer <:+ q} s r.1 :=
    Grown.trans ((grown_listDel s peer).mono (Set.empty_subset _)) ⟨hl.grown.frames, hl.grown.idle,
      hl.grown.currentSpace, hl.grown.kernelEnd⟩
  refine ⟨⟨hl.inv, ⟨m, hm, hst'.trans hst, by omega, hr' (hr (Set.notMem_empty _))⟩, hidle'⟩,
    hgrown.of_listed hi.shape hi.lists hp, hgrown, hl.below⟩

lemma Fresh.toPool (h : Fresh ext F cls s p) : Inv ext F { pageRef p s with pools := p :: s.pools } ∧
      Grown {q | p <:+ q} s { pageRef p s with pools := p :: s.pools } := by
  obtain ⟨n, hn, -, -, hr⟩ := h.page
  have hzero : direct ext s p = 0 := by
    have := h.inv.counted.count_le hn h.inv.shape
    rw [hr] at this
    exact Nat.le_zero.mp this
  obtain ⟨href, hshape, hlists, hcounted⟩ := pageRef_spec h.inv.shape h.inv.lists h.inv.counted
    (Phys.has_of_node hn) (by rw [hzero]; decide)
  have hnode : (pageRef p s).node p = some { n with refc := n.refc + 1 } := href.node n hn
  have hd : direct ext { pageRef p s with pools := p :: s.pools } = bump (direct ext s) p := by
    funext q
    unfold direct
    by_cases hq : q = p
    · rw [hq, bump_self, count_cons_self, Nat.add_assoc]
    · rw [bump_ne hq, count_cons_of_ne (Ne.symm hq)]
  have hdrop : Lists F ∅ (pageRef p s) := hlists.drop fun k hk _ h0 => by
    rw [hnode] at hk
    cases hk
    rw [hr] at h0
    cases h0
  have hgrown := grown_ref href
  refine ⟨⟨hshape.congr fun _ => rfl, ⟨hdrop.nodup, hdrop.listed, hdrop.complete⟩, ?_⟩,
    hgrown.frames, hgrown.idle, hgrown.currentSpace, hgrown.kernelEnd⟩
  rw [hd]
  exact hcounted.of_node rfl

/-- **Allocation**, for a caller or for a pool. -/
theorem allocPageWith_spec {o : Option Path} (he : Provides ensure) (hi : Inv ext F s)
    (h : allocPageWith ensure pool bootmem s cls = .ok (s', o)) :
    (o = none → s' = s) ∧ ∀ p, o = some p → Grown ∅ s s' ∧ if pool then Inv ext F s' else Fresh ext F cls s' p := by
  unfold allocPageWith at h
  obtain ⟨found, hfound, h⟩ := bind_eq_ok.mp h
  cases found with
  | none =>
    cases h
    exact ⟨fun _ => rfl, nofun⟩
  | some peer =>
    obtain ⟨n, hn, h⟩ := bind_eq_ok.mp h
    rw [Phys.deref_eq_ok] at hn
    obtain ⟨c, hc, -, hp⟩ := mem_freeFrom (scanFree_mem hfound).1
    obtain ⟨r, hr, h⟩ := bind_eq_ok.mp h
    obtain ⟨new, -, h⟩ := bind_eq_ok.mp h
    obtain ⟨s₁, hs₁, h⟩ := bind_eq_ok.mp (then_ok h)
    replace h := then_ok h
    cases h
    refine ⟨nofun, fun p hp' => ?_⟩
    obtain rfl := Option.some.inj hp'
    cases pool with
    | false =>
      obtain rfl := Except.ok.inj hs₁
      obtain ⟨hfresh, hgrown, -⟩ := lookup_listed he hi hp hc hn hr
      exact ⟨hgrown, hfresh⟩
    | true =>
      replace hs₁ := then_ok hs₁
      obtain rfl := Except.ok.inj hs₁
      obtain ⟨hfresh, -, hgrown, hbelow⟩ := lookup_listed he hi hp hc hn hr
      obtain ⟨hinv, hgrown'⟩ := hfresh.toPool
      refine ⟨Grown.of_listed (hgrown.trans (hgrown'.mono fun q hq => ?_)) hi.shape hi.lists hp, hinv⟩
      exact hbelow.trans hq

lemma provides_ensureHeld : Provides ensureHeld where
  enough := fun _ _ h => if_neg (Nat.not_lt.mpr h)
  spec := fun ext F count s s' hi h => by
    unfold ensureHeld at h
    split at h
    · cases h
    · next hlt =>
      cases h
      exact ⟨hi, Grown.refl _ _, Nat.not_lt.mp hlt⟩

/-- **`ensure_free_desc`** is a source of descriptors. -/
theorem provides_ensureFreeDesc : Provides ensureFreeDesc where
  enough := fun _ _ h => if_neg (Nat.not_lt.mpr h)
  spec := fun ext F count s s' hi h => by
    unfold ensureFreeDesc at h
    split at h
    · obtain ⟨⟨s₁, o⟩, h₁, h⟩ := bind_eq_ok.mp h
      have hspec := allocPageWith_spec provides_ensureHeld hi h₁
      cases o with
      | none => cases h
      | some p =>
        obtain ⟨_, hcount, h⟩ := bind_eq_ok.mp h
        cases h
        obtain ⟨hgrown, hinv⟩ := hspec.2 p rfl
        exact ⟨hinv, hgrown, assert_eq_ok.mp hcount⟩
    · next hlt =>
      cases h
      exact ⟨hi, Grown.refl _ _, Nat.not_lt.mp hlt⟩

/-- **`alloc_page`** -/
theorem allocPage_spec {o : Option Path} (hi : Inv ext F s) (h : allocPage bootmem s cls = .ok (s', o)) :
    (o = none → s' = s) ∧ ∀ p, o = some p → Grown ∅ s s' ∧ Fresh ext F cls s' p :=
  allocPageWith_spec provides_ensureFreeDesc hi h

end Jos.PmapModel
