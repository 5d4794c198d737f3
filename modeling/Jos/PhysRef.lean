import Jos.PhysShape

/-!
Referencing a page and giving the reference back.

A page that gets its first reference passes one on to its halves, and takes it back with its
last. On the way back free halves are merged: the page whose halves are being released is
already in the list of free pages while it is still counted.
-/

namespace Jos.PmapModel

open CArray Jos.Dyadic List Nat Phys Set

variable {F G : Set Path} {d : Path → ℕ} {s s' : Phys} {p q : Path} {n m : Page} {fuel : ℕ}

/-- The parts of the memory that references do not touch. -/
structure SameRest (s s' : Phys) : Prop where
  pools : s'.pools = s.pools
  freeDesc : s'.freeDesc = s.freeDesc
  currentSpace : s'.currentSpace = s.currentSpace
  kernelEnd : s'.kernelEnd = s.kernelEnd

lemma refc_succ_ne (h : n.refc.toNat + 1 < 2 ^ 32) : n.refc + 1 ≠ 0 := by
  intro h0
  have := congrArg UInt32.toNat h0
  rw [UInt32.toNat_add] at this
  have h1 : (1 : UInt32).toNat = 1 := rfl
  have h2 : (0 : UInt32).toNat = 0 := rfl
  omega

lemma refc_succ_toNat (h : n.refc.toNat + 1 < 2 ^ 32) : (n.refc + 1).toNat = n.refc.toNat + 1 := by
  exact mod_eq_of_lt h

lemma refc_pred_toNat (h : n.refc ≠ 0) : (n.refc - 1).toNat + 1 = n.refc.toNat := by
  have h0 : n.refc.toNat ≠ 0 := fun h0 => h (UInt32.toNat_inj.mp h0)
  have h1 := n.refc.toNat_lt
  rw [UInt32.toNat_sub]
  have h2 : (1 : UInt32).toNat = 1 := rfl
  omega

lemma Lists.not_listed (h : Lists F G s) (hG : p ∉ G) (hn : s.node p = some n) (hr : n.refc ≠ 0)
    (c : ℕ) : p ∉ s.free c := by
  intro hp
  obtain ⟨m, hm, -, -, -, h0⟩ := h.listed c p hp
  rw [hn] at hm
  cases hm
  exact hr (h0 hG)

/-- What `page_ref` does, on a page or on the null pointer. -/
structure Referenced (d : Path → ℕ) (p : Path) (s s' : Phys) : Prop where
  node : ∀ n, s.node p = some n → s'.node p = some { n with refc := n.refc + 1 }
  frames : ∀ q, (s'.node q).map Page.frame = (s.node q).map Page.frame
  outside : ∀ q, ¬p <:+ q → s'.node q = s.node q
  counted : CountedBelow d s' p
  rest : SameRest s s'
  listed : ∀ c q, q ∈ s'.free c → q ∈ s.free c

lemma frames_set (hn : s.node p = some n) (r : UInt32) (q : Path) :
    ((s.set p { n with refc := r }).node q).map Page.frame = (s.node q).map Page.frame := by
  by_cases hq : q = p
  · rw [hq, set_node_self, hn]
    rfl
  · rw [set_node_ne hq]

lemma referenced_null (hn : s.node p = none) (hc : CountedBelow d s p) : Referenced d p s s where
  node := fun n hn' => by rw [hn] at hn'; cases hn'
  frames := fun _ => rfl
  outside := fun _ _ => rfl
  counted := hc
  rest := ⟨rfl, rfl, rfl, rfl⟩
  listed := fun _ _ h => h

lemma referenced_again (hr : n.refc ≠ 0) (hb : n.refc.toNat + 1 < 2 ^ 32)
    (hn : s.node p = some n) (hc : CountedBelow d s p) :
    Referenced d p s (s.set p { n with refc := n.refc + 1 }) where
  node := fun m hm => by
    rw [hn] at hm
    cases hm
    exact set_node_self _ _ _
  frames := frames_set hn _
  outside := fun q hq => set_node_ne (ne_of_not_suffix hq) _
  counted := by
    intro b q m k hq hm hk
    have hne : b :: q ≠ p := by
      rintro rfl
      exact not_cons_suffix b q hq
    rw [set_node_ne hne] at hk
    by_cases hqp : q = p
    · rw [hqp, set_node_self] at hm
      cases hm
      rw [hqp] at hk hq ⊢
      rw [hc b p n k hq hn hk, if_neg hr, if_neg (refc_succ_ne hb)]
    · rw [set_node_ne hqp] at hm
      exact hc b q m k hq hm hk
  rest := ⟨rfl, rfl, rfl, rfl⟩
  listed := fun _ _ h => h

lemma lists_again (hl : Lists F ∅ s) (hr : n.refc ≠ 0) (hb : n.refc.toNat + 1 < 2 ^ 32)
    (hn : s.node p = some n) : Lists F ∅ (s.set p { n with refc := n.refc + 1 }) := by
  have hout := hl.not_listed (notMem_empty p) hn hr
  have h1 : Lists F (insert p ∅) s := hl.mono (subset_refl _) (empty_subset _)
  refine (h1.set_refc hn (mem_insert _ _) _).clear hout fun k hk _ h0 => ?_
  rw [set_node_self] at hk
  cases hk
  exact absurd h0 (refc_succ_ne hb)

lemma lists_first (hl : Lists F ∅ s) (hb : n.refc.toNat + 1 < 2 ^ 32) (hn : s.node p = some n) :
    Lists F ∅ ((s.set p { n with refc := n.refc + 1 }).listDel p) := by
  have h1 : Lists F (insert p ∅) s := hl.mono (subset_refl _) (empty_subset _)
  have h2 := (h1.set_refc hn (mem_insert _ _) (n.refc + 1)).listDel (p := p) (.inr (.inl (mem_insert _ _)))
  refine h2.clear (fun c hp => (mem_listDel_free.mp hp).2 rfl) fun k hk _ h0 => ?_
  rw [listDel_node, set_node_self] at hk
  cases hk
  exact absurd h0 (refc_succ_ne hb)

/-- The first reference is passed on to the halves, one after the other. -/
lemma referenced_first {s₁ s₂ : Phys} (hr : n.refc = 0) (hn : s.node p = some n)
    (hc : CountedBelow d s p) (hd : ∀ q, d q + 1 < 2 ^ 32)
    (hl : Referenced d (false :: p) ((s.set p { n with refc := n.refc + 1 }).listDel p) s₁)
    (hh : Referenced d (true :: p) s₁ s₂) : Referenced d p s s₂ := by
  have hb : n.refc.toNat + 1 < 2 ^ 32 := by
    rw [hr]
    decide
  have hin : ∀ q, ¬p <:+ q ∨ q = p → s₂.node q = (s.set p { n with refc := n.refc + 1 }).node q := by
    intro q hq
    have hnot : ∀ b, ¬(b :: p) <:+ q := by
      intro b hb
      rcases hq with hq | rfl
      · exact hq (suffix_of_cons_suffix hb)
      · exact not_cons_suffix b q hb
    exact (hh.outside q (hnot _)).trans (hl.outside q (hnot _))
  have hleft : ∀ q, (false :: p) <:+ q → s₂.node q = s₁.node q := fun q hq => hh.outside q (not_suffix_of_half hq)
  have hbefore : ∀ b, (s.set p { n with refc := n.refc + 1 }).node (b :: p) = s.node (b :: p) :=
    fun b => set_node_ne (cons_ne_self b p) _
  have hhalf : ∀ b m, s.node (b :: p) = some m → s₂.node (b :: p) = some { m with refc := m.refc + 1 } := by
    intro b m hm
    cases b with
    | false =>
      rw [hleft _ (suffix_refl _)]
      exact hl.node m ((hbefore _).trans hm)
    | true =>
      refine hh.node m ((hl.outside _ (not_suffix_of_half (suffix_refl (true :: p)))).trans ?_)
      exact (hbefore _).trans hm
  have hframes : ∀ q, (s₂.node q).map Page.frame = (s.node q).map Page.frame :=
    fun q => (hh.frames q).trans ((hl.frames q).trans (frames_set hn _ q))
  constructor
  · intro m hm
    rw [hn] at hm
    cases hm
    rw [hin p (.inr rfl), set_node_self]
  · exact hframes
  · intro q hq
    rw [hin q (.inl hq), set_node_ne (ne_of_not_suffix hq)]
  · intro b q m k hq hm hk
    rcases suffix_cases hq with rfl | ⟨c, hq⟩
    · -- a half has its own references, and now the one of the page
      rw [hin q (.inr rfl), set_node_self] at hm
      cases hm
      rw [if_neg (refc_succ_ne hb)]
      have hframe := hframes (b :: q)
      cases hm₀ : s.node (b :: q) with
      | none =>
        rw [hm₀, hk] at hframe
        cases hframe
      | some m₀ =>
        have hcount := hc b q n m₀ (suffix_refl _) hn hm₀
        rw [if_pos hr] at hcount
        rw [hhalf b m₀ hm₀] at hk
        cases hk
        have hdb := hd (b :: q)
        rw [refc_succ_toNat (by omega), hcount]
    · cases c with
      | false =>
        rw [hleft q hq] at hm
        rw [hleft (b :: q) (hq.trans (suffix_cons _ _))] at hk
        exact hl.counted b q m k hq hm hk
      | true => exact hh.counted b q m k hq hm hk
  · exact ⟨hh.rest.pools.trans hl.rest.pools, hh.rest.freeDesc.trans hl.rest.freeDesc,
      hh.rest.currentSpace.trans hl.rest.currentSpace, hh.rest.kernelEnd.trans hl.rest.kernelEnd⟩
  · exact fun c q hq => (mem_listDel_free.mp (hl.listed c q (hh.listed c q hq))).1

/-- **Referencing a page**, and what is below it with the first reference. -/
lemma pageRefRec_spec (hfuel : maxClass < fuel + p.length) (hs : Shape s) (hl : Lists F ∅ s)
    (hd : ∀ q, d q + 1 < 2 ^ 32) (hb : ∀ n, s.node p = some n → n.refc.toNat + 1 < 2 ^ 32)
    (hc : CountedBelow d s p) :
    Referenced d p s (pageRefRec fuel p s) ∧ Lists F ∅ (pageRefRec fuel p s) := by
  induction fuel generalizing p s with
  | zero =>
    have hnull : s.node p = none := by
      by_contra hp
      have := hs.length_le hp
      omega
    exact ⟨referenced_null hnull hc, hl⟩
  | succ fuel ih =>
    rw [pageRefRec]
    cases hn : s.node p with
    | none => exact ⟨referenced_null hn hc, hl⟩
    | some n =>
      have hb := hb n hn
      dsimp only
      by_cases hr : n.refc = 0
      swap
      · rw [if_neg hr]
        exact ⟨referenced_again hr hb hn hc, lists_again hl hr hb hn⟩
      rw [if_pos hr]
      have hfuel' : ∀ b, maxClass < fuel + (b :: p).length := fun b => by
        rw [length_cons]
        omega
      have hsame : ∀ b q, (b :: p) <:+ q → (s.set p { n with refc := n.refc + 1 }).node q = s.node q := by
        intro b q hq
        refine set_node_ne ?_ _
        rintro rfl
        exact not_cons_suffix b q hq
      have hcb : ∀ b, CountedBelow d s (b :: p) := fun b => hc.of_suffix (suffix_cons _ _)
      have hbb : ∀ b m, s.node (b :: p) = some m → m.refc.toNat + 1 < 2 ^ 32 := by
        intro b m hm
        have := hc b p n m (suffix_refl _) hn hm
        rw [if_pos hr, add_zero] at this
        rw [this]
        exact hd _
      have hshape : Shape ((s.set p { n with refc := n.refc + 1 }).listDel p) := hs.congr (frames_set hn _)
      obtain ⟨hleft, hlists⟩ := ih (hfuel' false) hshape (lists_first hl hb hn)
        (fun m hm => hbb false m ((hsame _ _ (suffix_refl _)).symm.trans hm))
        ((hcb false).congr fun q hq => .inr (hsame _ q hq))
      have hsame' : ∀ q, (true :: p) <:+ q → _ = s.node q := fun q hq =>
        (hleft.outside q (not_suffix_of_half hq)).trans (hsame _ q hq)
      obtain ⟨hright, hlists⟩ := ih (hfuel' true) (hshape.congr hleft.frames) hlists
        (fun m hm => hbb true m ((hsame' _ (suffix_refl _)).symm.trans hm))
        ((hcb true).congr fun q hq => .inr (hsame' q hq))
      exact ⟨referenced_first hr hn hc hd hleft hright, hlists⟩

/-- What is left after free halves were merged into the page `r`. -/
structure Merged (F G : Set Path) (r : Path) (s s' : Phys) : Prop where
  shape : Shape s'
  lists : Lists F (insert r G) s'
  sub : ∀ q, s'.node q = none ∨ s'.node q = s.node q
  gone : ∀ q n, s.node q = some n → s'.node q = none → n.refc = 0 ∧ r <:+ q ∧ r ≠ q
  leaf : s'.Leaf r
  pools : s'.pools = s.pools
  currentSpace : s'.currentSpace = s.currentSpace
  kernelEnd : s'.kernelEnd = s.kernelEnd

def AboveFree (G : Set Path) (s : Phys) (p : Path) : Prop :=
  ∀ a n, a <:+ p → a ≠ p → s.node a = some n → n.refc = 0 ∨ a ∈ G

lemma AboveFree.parent {b : Bool} (h : AboveFree G s (b :: p)) : AboveFree G s p := by
  intro a n ha hne hn
  refine h a n (ha.trans (suffix_cons _ _)) (fun heq => ?_) hn
  rw [heq] at ha
  exact not_cons_suffix b p ha

def mergeHalves (s : Phys) (p : Path) : Phys :=
  (s.freeDescriptor (false :: p)).freeDescriptor (true :: p)

lemma mergeHalves_node (s : Phys) (p q : Path) :
    (mergeHalves s p).node q = if ∃ b, q = b :: p then none else s.node q := by
  unfold mergeHalves
  by_cases hr : q = true :: p
  · rw [if_pos ⟨true, hr⟩, hr, freeDescriptor_node_self]
  · rw [freeDescriptor_node_ne hr]
    by_cases hl : q = false :: p
    · rw [if_pos ⟨false, hl⟩, hl, freeDescriptor_node_self]
    · rw [freeDescriptor_node_ne hl, if_neg]
      rintro ⟨_ | _, h⟩
      · exact hl h
      · exact hr h

lemma mergeHalves_free (s : Phys) (p : Path) (c : ℕ) :
    ∃ l, (mergeHalves s p).free c = (s.free c).filter l ∧ ∀ q, l q = true ↔ ∀ a, q ≠ a :: p := by
  refine ⟨fun q => decide (q ≠ true :: p) && decide (q ≠ false :: p), ?_, fun q => ?_⟩
  · show ((s.free c).filter _).filter _ = _
    rw [filter_filter]
  · simp only [Bool.and_eq_true, decide_eq_true_eq]
    refine ⟨fun h a => ?_, fun h => ⟨h true, h false⟩⟩
    cases a
    · exact h.2
    · exact h.1

lemma merged_refl (hs : Shape s) (hl : Lists F (insert p G) s) (hleaf : s.Leaf p) : Merged F G p s s where
  shape := hs
  lists := hl
  sub := fun _ => .inr rfl
  gone := fun q n hn hnone => by rw [hn] at hnone; cases hnone
  leaf := hleaf
  pools := rfl
  currentSpace := rfl
  kernelEnd := rfl

lemma mergeUp_cons {b : Bool} {r : Phys × Path} (h : mergeUp (b :: p) s = .ok r) :
    (∃ n m, s.node (b :: p) = some m ∧ s.node p = some n ∧ n.state = m.state ∧
      s.IsFree (false :: p) ∧ s.IsFree (true :: p) ∧
      ((n.state ≠ .allocatable ∧ mergeUp p (mergeHalves s p) = .ok r) ∨
        (n.state = .allocatable ∧ (mergeHalves s p).ListEmpty p ∧ n.cls < maxClass ∧
          mergeUp p ((mergeHalves s p).push n.cls p) = .ok r))) ∨ r = (s, b :: p) := by
  obtain ⟨m, hm, h⟩ := bind_eq_ok.mp h
  obtain ⟨n, hn, h⟩ := bind_eq_ok.mp h
  rw [deref_eq_ok] at hm hn
  split at h
  · rename_i hcond
    refine .inl ⟨n, m, hm, hn, hcond.1, hcond.2.1, hcond.2.2, ?_⟩
    split at h
    · rename_i hst
      obtain ⟨_, hempty, h⟩ := bind_eq_ok.mp h
      obtain ⟨s₂, happ, h⟩ := bind_eq_ok.mp h
      obtain ⟨hc, rfl⟩ := listAppend_eq_ok.mp happ
      exact .inr ⟨hst, assert_eq_ok.mp hempty, hc, h⟩
    · rename_i hst
      exact .inl ⟨hst, h⟩
  · cases h
    exact .inr rfl

lemma Merged.step {r : Path} {s₁ : Phys} (h : Merged F G r s₁ s')
    (hs₁ : s₁.node = (mergeHalves s p).node) (hpools : s₁.pools = s.pools)
    (hcur : s₁.currentSpace = s.currentSpace) (hend : s₁.kernelEnd = s.kernelEnd) (hr : r <:+ p)
    (hfree : ∀ b, s.IsFree (b :: p)) : Merged F G r s s' where
  shape := h.shape
  lists := h.lists
  sub := fun q => by
    rcases h.sub q with hq | hq
    · exact .inl hq
    · rw [hq, hs₁, mergeHalves_node]
      split
      · exact .inl rfl
      · exact .inr rfl
  gone := fun q n hn hnone => by
    by_cases hq : ∃ b, q = b :: p
    · obtain ⟨c, rfl⟩ := hq
      obtain ⟨⟨m, hm, h0⟩, -⟩ := hfree c
      rw [hn] at hm
      cases hm
      refine ⟨h0, hr.trans (suffix_cons _ _), ?_⟩
      rintro rfl
      exact not_cons_suffix c p hr
    · refine h.gone q n ?_ hnone
      rw [hs₁, mergeHalves_node, if_neg hq, hn]
  leaf := h.leaf
  pools := h.pools.trans hpools
  currentSpace := h.currentSpace.trans hcur
  kernelEnd := h.kernelEnd.trans hend

/-- **Merging upwards** ends at a page above, which is not in order yet. -/
lemma mergeUp_spec {r : Phys × Path} (hs : Shape s) (hl : Lists F (insert p G) s) (hleaf : s.Leaf p)
    (hhas : s.Has p) (habove : AboveFree G s p) (h : mergeUp p s = .ok r) :
    r.2 <:+ p ∧ Merged F G r.2 s r.1 := by
  induction p generalizing s with
  | nil =>
    cases h
    exact ⟨suffix_refl _, merged_refl hs hl hleaf⟩
  | cons b p ih =>
    rcases mergeUp_cons h with ⟨n, m, hm, hn, hst, hfl, hfr, hcase⟩ | rfl
    swap
    · exact ⟨suffix_refl _, merged_refl hs hl hleaf⟩
    have hfree : ∀ b, s.IsFree (b :: p) := fun b => by cases b <;> assumption
    have hnode := mergeHalves_node s p
    have hshape₁ : Shape (mergeHalves s p) := hs.remove (fun b => (hfree b).2) hnode
    have hlists₁ : Lists F (insert p G) (mergeHalves s p) := hl.remove hnode (mergeHalves_free s p)
    have hn₁ : (mergeHalves s p).node p = some n := by
      rw [hnode, if_neg, hn]
      rintro ⟨c, hc⟩
      exact cons_ne_self c p hc.symm
    have hleaf₁ : (mergeHalves s p).Leaf p := fun c => by rw [hnode, if_pos ⟨c, rfl⟩]
    have habove₁ : AboveFree G (mergeHalves s p) p := by
      intro a k ha hne hk
      rw [hnode] at hk
      split at hk
      · cases hk
      · exact habove.parent a k ha hne hk
    rcases hcase with ⟨-, h⟩ | ⟨halloc, hempty, hc, h⟩
    · obtain ⟨hr, hmerged⟩ := ih hshape₁ hlists₁ hleaf₁ (has_of_node hn₁) habove₁ h
      exact ⟨hr.trans (suffix_cons _ _), hmerged.step rfl rfl rfl rfl hr hfree⟩
    · have hlists₂ := hlists₁.push hn₁ halloc hleaf₁ (mem_insert _ _) (hempty.1 n.cls hc)
      have hshape₂ : Shape ((mergeHalves s p).push n.cls p) := hshape₁.congr fun _ => rfl
      obtain ⟨hr, hmerged⟩ := ih hshape₂ hlists₂ hleaf₁ (has_of_node hn₁) habove₁ h
      exact ⟨hr.trans (suffix_cons _ _), hmerged.step rfl rfl rfl rfl hr hfree⟩

lemma releasePage_spec (hs : Shape s) (hl : Lists F (insert p G) s) (hn : s.node p = some n)
    (hr : n.refc = 0) (hleaf : s.Leaf p) (habove : AboveFree G s p) (h : releasePage p s = .ok s') :
    Shape s' ∧ Lists F G s' ∧ (∀ q, s'.node q = none ∨ s'.node q = s.node q) ∧
      (∀ q m, s.node q = some m → s'.node q = none → m.refc = 0) ∧ s'.pools = s.pools ∧
      s'.currentSpace = s.currentSpace ∧ s'.kernelEnd = s.kernelEnd := by
  obtain ⟨r, hr', h⟩ := bind_eq_ok.mp h
  obtain ⟨m, hm, h⟩ := bind_eq_ok.mp h
  rw [deref_eq_ok] at hm
  obtain ⟨hsuf, hmerged⟩ := mergeUp_spec hs hl hleaf (has_of_node hn) habove hr'
  have hm' : s.node r.2 = some m := by
    rcases hmerged.sub r.2 with hq | hq
    · rw [hq] at hm; cases hm
    · rw [← hq, hm]
  have hzero : m.refc = 0 ∨ r.2 ∈ G := by
    by_cases heq : r.2 = p
    · rw [heq, hn] at hm'
      cases hm'
      exact .inl hr
    · exact habove r.2 m hsuf heq hm'
  have hlists := hmerged.lists.settle hm hmerged.leaf hzero h
  have hnode : s'.node = r.1.node ∧ s'.pools = r.1.pools ∧ s'.currentSpace = r.1.currentSpace ∧
      s'.kernelEnd = r.1.kernelEnd := by
    split at h
    · obtain ⟨-, rfl⟩ := listAppend_eq_ok.mp h
      exact ⟨rfl, rfl, rfl, rfl⟩
    · cases h
      exact ⟨rfl, rfl, rfl, rfl⟩
  obtain ⟨hnode, hpools, hcur, hend⟩ := hnode
  refine ⟨hmerged.shape.congr fun q => by rw [hnode], hlists, fun q => by rw [hnode]; exact hmerged.sub q,
    fun q k hk hq => ?_, hpools.trans hmerged.pools, hcur.trans hmerged.currentSpace,
    hend.trans hmerged.kernelEnd⟩
  rw [hnode] at hq
  exact (hmerged.gone q k hk hq).1

/-- What `page_unref` does, on a page or on the null pointer; `d` are the direct references that
are left. -/
structure Unreferenced (d : Path → ℕ) (F G : Set Path) (p : Path) (s s' : Phys) : Prop where
  shape : Shape s'
  lists : Lists F G s'
  node : ∀ n m, s.node p = some n → s'.node p = some m → m = { n with refc := n.refc - 1 }
  outside : ∀ q, ¬p <:+ q → s'.node q = none ∨ s'.node q = s.node q
  gone : ∀ q m, ¬p <:+ q → s.node q = some m → s'.node q = none → m.refc = 0
  counted : CountedBelow d s' p
  lower : ∀ q m, s'.node q = some m → d q ≤ m.refc.toNat
  lost : ∀ q, s.Has q → ¬s'.Has q → d q = 0
  frames : ∀ q m, s'.node q = some m → ∃ k, s.node q = some k ∧ k.frame = m.frame
  pools : s'.pools = s.pools
  currentSpace : s'.currentSpace = s.currentSpace
  kernelEnd : s'.kernelEnd = s.kernelEnd

lemma unreferenced_null (hs : Shape s) (hl : Lists F G s) (hn : s.node p = none)
    (hc : CountedBelow d s p) (hlow : ∀ q m, s.node q = some m → d q ≤ m.refc.toNat) :
    Unreferenced d F G p s s where
  shape := hs
  lists := hl
  node := fun n m hn' => by rw [hn] at hn'; cases hn'
  outside := fun _ _ => .inr rfl
  gone := fun q m _ hm hnone => by rw [hm] at hnone; cases hnone
  counted := hc
  lower := hlow
  lost := fun q hq hq' => absurd hq hq'
  frames := fun q m hm => ⟨m, hm, rfl⟩
  pools := rfl
  currentSpace := rfl
  kernelEnd := rfl

/-- The counter of the page is about to go down: what is below it is as it will be. -/
structure HalvesReleased (d : Path → ℕ) (F G : Set Path) (p : Path) (n : Page) (s s₁ : Phys) :
    Prop where
  shape : Shape s₁
  lists : Lists F (insert p G) s₁
  node : s₁.node p = some n
  outside : ∀ q, ¬p <:+ q → s₁.node q = none ∨ s₁.node q = s.node q
  gone : ∀ q m, ¬p <:+ q → s.node q = some m → s₁.node q = none → m.refc = 0
  counted : CountedBelow d (s₁.set p { n with refc := n.refc - 1 }) p
  lower : ∀ q m, s₁.node q = some m → d q ≤ m.refc.toNat
  lost : ∀ q, s.Has q → ¬s₁.Has q → d q = 0
  frames : ∀ q m, s₁.node q = some m → ∃ k, s.node q = some k ∧ k.frame = m.frame
  pools : s₁.pools = s.pools
  currentSpace : s₁.currentSpace = s.currentSpace
  kernelEnd : s₁.kernelEnd = s.kernelEnd
  -- a page that stays counted is in no list
  unlisted : n.refc ≠ 1 → ∀ c, p ∉ s₁.free c

lemma halves_kept (hs : Shape s) (hl : Lists F G s) (hG : p ∉ G) (hn : s.node p = some n)
    (h0 : n.refc ≠ 0) (h1 : n.refc ≠ 1) (hc : CountedBelow d s p)
    (hlow : ∀ q m, s.node q = some m → d q ≤ m.refc.toNat) : HalvesReleased d F G p n s s where
  shape := hs
  lists := hl.mono (subset_refl _) (subset_insert _ _)
  node := hn
  outside := fun _ _ => .inr rfl
  gone := fun q m _ hm hnone => by rw [hm] at hnone; cases hnone
  counted := by
    intro b q m k hq hm hk
    have hne : b :: q ≠ p := by
      rintro rfl
      exact not_cons_suffix b q hq
    rw [set_node_ne hne] at hk
    by_cases hqp : q = p
    · rw [hqp, set_node_self] at hm
      cases hm
      rw [hqp] at hk hq ⊢
      have hstill : n.refc - 1 ≠ 0 := fun h => h1 (sub_eq_zero.mp h)
      rw [hc b p n k hq hn hk, if_neg h0, if_neg hstill]
    · rw [set_node_ne hqp] at hm
      exact hc b q m k hq hm hk
  lower := hlow
  lost := fun q hq hq' => absurd hq hq'
  frames := fun q m hm => ⟨m, hm, rfl⟩
  pools := rfl
  currentSpace := rfl
  kernelEnd := rfl
  unlisted := fun _ => hl.not_listed hG hn h0

/-- The last reference: both halves have given back theirs. -/
lemma halves_released {s₀ s₁ : Phys} (hn : s.node p = some n) (h1 : n.refc = 1)
    (hc : CountedBelow d s p) (hl : Unreferenced d F (insert p G) (false :: p) s s₀)
    (hh : Unreferenced d F (insert p G) (true :: p) s₀ s₁) : HalvesReleased d F G p n s s₁ := by
  have hne : n.refc ≠ 0 := by rw [h1]; decide
  have hnode₀ : s₀.node p = some n := by
    rcases hl.outside p (not_cons_suffix _ _) with h | h
    · exact absurd (hl.gone p n (not_cons_suffix _ _) hn h) hne
    · rw [h, hn]
  have hnode₁ : s₁.node p = some n := by
    rcases hh.outside p (not_cons_suffix _ _) with h | h
    · exact absurd (hh.gone p n (not_cons_suffix _ _) hnode₀ h) hne
    · rw [h, hnode₀]
  have hsub : ∀ q, ¬(false :: p) <:+ q → ¬(true :: p) <:+ q → s₁.node q = none ∨ s₁.node q = s.node q := by
    intro q hfq htq
    rcases hh.outside q htq with h | h
    · exact .inl h
    · rcases hl.outside q hfq with h' | h'
      · exact .inl (h.trans h')
      · exact .inr (h.trans h')
  -- the counter of a half has lost the reference of the page
  have hhalf : ∀ b m, s₁.node (b :: p) = some m → m.refc.toNat = d (b :: p) := by
    intro b m hm
    have hcount : ∀ k, s.node (b :: p) = some k → m = { k with refc := k.refc - 1 } → m.refc.toNat = d (b :: p) := by
      intro k hk hmk
      have hb := hc b p n k (suffix_refl _) hn hk
      rw [if_neg hne] at hb
      have hk0 : k.refc ≠ 0 := by
        intro h0
        rw [h0] at hb
        have : (0 : UInt32).toNat = 0 := rfl
        omega
      have := refc_pred_toNat hk0
      rw [hmk]
      dsimp only
      omega
    cases b with
    | false =>
      rcases hh.outside (false :: p) (not_suffix_of_half (suffix_refl (false :: p))) with h | h
      · rw [h] at hm; cases hm
      · rw [h] at hm
        obtain ⟨k, hk, -⟩ := hl.frames _ _ hm
        exact hcount k hk (hl.node k m hk hm)
    | true =>
      obtain ⟨k, hk, -⟩ := hh.frames _ _ hm
      have hk' : s.node (true :: p) = some k := by
        rcases hl.outside (true :: p) (not_suffix_of_half (suffix_refl (true :: p))) with h | h
        · rw [h] at hk; cases hk
        · rw [← h, hk]
      exact hcount k hk' (hh.node k m hk hm)
  constructor
  · exact hh.shape
  · exact hh.lists
  · exact hnode₁
  · exact fun q hq => hsub q (fun h => hq (suffix_of_cons_suffix h)) fun h => hq (suffix_of_cons_suffix h)
  · intro q m hq hm hnone
    have hq' : ∀ b, ¬(b :: p) <:+ q := fun b h => hq (suffix_of_cons_suffix h)
    rcases hl.outside q (hq' _) with h | h
    · exact hl.gone q m (hq' _) hm h
    · exact hh.gone q m (hq' _) (h.trans hm) hnone
  · intro b q m k hq hm hk
    have hbq : b :: q ≠ p := by
      rintro rfl
      exact not_cons_suffix b q hq
    rw [set_node_ne hbq] at hk
    rcases suffix_cases hq with rfl | ⟨c, hq⟩
    · rw [set_node_self] at hm
      cases hm
      rw [hhalf b k hk, if_pos (by rw [h1]; rfl), add_zero]
    · have hqp : q ≠ p := by
        rintro rfl
        exact not_cons_suffix c q hq
      rw [set_node_ne hqp] at hm
      cases c with
      | false =>
        refine (hl.counted.congr fun r hr => ?_) b q m k hq hm hk
        exact hh.outside r (not_suffix_of_half hr)
      | true => exact hh.counted b q m k hq hm hk
  · exact hh.lower
  · intro q hq hq'
    by_cases h0 : s₀.Has q
    · exact hh.lost q h0 hq'
    · exact hl.lost q hq h0
  · intro q m hm
    obtain ⟨k, hk, hf⟩ := hh.frames q m hm
    obtain ⟨j, hj, hf'⟩ := hl.frames q k hk
    exact ⟨j, hj, hf'.trans hf⟩
  · exact hh.pools.trans hl.pools
  · exact hh.currentSpace.trans hl.currentSpace
  · exact hh.kernelEnd.trans hl.kernelEnd
  · exact fun h => absurd h1 h

section Drop

variable {s₁ : Phys} (h : HalvesReleased d F G p n s s₁)
include h

lemma HalvesReleased.shape_drop : Shape (s₁.set p { n with refc := n.refc - 1 }) :=
  h.shape.congr (frames_set h.node _)

lemma HalvesReleased.lists_drop : Lists F (insert p G) (s₁.set p { n with refc := n.refc - 1 }) :=
  h.lists.set_refc h.node (mem_insert _ _) _

lemma HalvesReleased.above_drop (habove : AboveFree G s p) :
    AboveFree G (s₁.set p { n with refc := n.refc - 1 }) p := by
  intro a k hap hne hk
  rw [set_node_ne hne] at hk
  rcases h.outside a (fun hpa => hne (hap.eq_of_length_le hpa.length_le)) with h' | h'
  · rw [h'] at hk; cases hk
  · exact habove a k hap hne (h'.symm.trans hk)

/-- Once the counter is down, pages are only taken away. -/
lemma HalvesReleased.prune (hn : s.node p = some n) (hlow : d p + 1 ≤ n.refc.toNat)
    (hshape : Shape s') (hlists : Lists F G s')
    (hsub : ∀ q, s'.node q = none ∨ s'.node q = (s₁.set p { n with refc := n.refc - 1 }).node q)
    (hgone : ∀ q m, (s₁.set p { n with refc := n.refc - 1 }).node q = some m → s'.node q = none → m.refc = 0)
    (hpools : s'.pools = s₁.pools) (hcur : s'.currentSpace = s₁.currentSpace)
    (hend : s'.kernelEnd = s₁.kernelEnd) : Unreferenced d F G p s s' := by
  have h0 : n.refc ≠ 0 := by
    intro h0
    rw [h0] at hlow
    exact absurd hlow (not_succ_le_zero _)
  have hpred := refc_pred_toNat h0
  set s₂ := s₁.set p { n with refc := n.refc - 1 } with hs₂
  have hnode₂ : s₂.node p = some { n with refc := n.refc - 1 } := set_node_self _ _ _
  have hne₂ : ∀ q, q ≠ p → s₂.node q = s₁.node q := fun q hq => set_node_ne hq _
  have hlow₂ : ∀ q m, s₂.node q = some m → d q ≤ m.refc.toNat := by
    intro q m hm
    by_cases hq : q = p
    · rw [hq, hnode₂] at hm
      cases hm
      rw [hq]
      dsimp only
      omega
    · exact h.lower q m ((hne₂ q hq).symm.trans hm)
  have hframes₂ : ∀ q m, s₂.node q = some m → ∃ k, s.node q = some k ∧ k.frame = m.frame := by
    intro q m hm
    by_cases hq : q = p
    · rw [hq, hnode₂] at hm
      cases hm
      obtain ⟨k, hk, hf⟩ := h.frames p n h.node
      exact ⟨k, by rw [hq, hk], hf⟩
    · exact h.frames q m ((hne₂ q hq).symm.trans hm)
  have hback : ∀ q m, s'.node q = some m → s₂.node q = some m := by
    intro q m hm
    rcases hsub q with h | h
    · rw [h] at hm; cases hm
    · rw [← h, hm]
  refine ⟨hshape, hlists, ?_, ?_, ?_, h.counted.congr fun q _ => hsub q,
    fun q m hm => hlow₂ q m (hback q m hm), ?_, fun q m hm => hframes₂ q m (hback q m hm),
    hpools.trans h.pools, hcur.trans h.currentSpace, hend.trans h.kernelEnd⟩
  · intro n' m hn' hm
    have hm₂ := hback p m hm
    rw [hnode₂] at hm₂
    rw [hn] at hn'
    cases hm₂
    cases hn'
    rfl
  · intro q hq
    rcases hsub q with hnone | hsame
    · exact .inl hnone
    · rw [hsame, hne₂ q (ne_of_not_suffix hq)]
      exact h.outside q hq
  · intro q m hq hm hnone
    rcases h.outside q hq with h' | h'
    · exact h.gone q m hq hm h'
    · exact hgone q m (by rw [hne₂ q (ne_of_not_suffix hq), h', hm]) hnone
  · intro q hq hq'
    by_cases h₁ : s₁.Has q
    · obtain ⟨m, hm⟩ := has_iff.mp ((set_has_iff (has_of_node h.node) _).mpr h₁)
      have hzero := hgone q m hm (not_not.mp hq')
      have hle := hlow₂ q m hm
      rw [hzero] at hle
      exact le_zero.mp hle
    · exact h.lost q hq h₁

lemma HalvesReleased.finish (hn : s.node p = some n) (hlow : d p + 1 ≤ n.refc.toNat)
    (habove : n.refc = 1 → AboveFree G s p)
    (hs : (if (s₁.set p { n with refc := n.refc - 1 }).IsFree p then
      releasePage p (s₁.set p { n with refc := n.refc - 1 }) else
      .ok (s₁.set p { n with refc := n.refc - 1 })) = .ok s') : Unreferenced d F G p s s' := by
  have hnode₂ := set_node_self s₁ p { n with refc := n.refc - 1 }
  split at hs
  · next hfree =>
    obtain ⟨⟨m, hm, hzero⟩, hleaf⟩ := hfree
    have h1 : n.refc = 1 := by
      rw [hnode₂] at hm
      cases hm
      exact sub_eq_zero.mp hzero
    obtain ⟨hshape, hlists, hsub, hgone, hpools, hcur, hend⟩ :=
      releasePage_spec h.shape_drop h.lists_drop hm hzero hleaf (h.above_drop (habove h1)) hs
    exact h.prune hn hlow hshape hlists hsub hgone hpools hcur hend
  · next hfree =>
    cases hs
    have hstill : ∀ m, (s₁.set p { n with refc := n.refc - 1 }).node p = some m → m.refc = 0 →
        ¬(s₁.set p { n with refc := n.refc - 1 }).Leaf p :=
      fun m hm hzero hleaf => hfree ⟨⟨m, hm, hzero⟩, hleaf⟩
    have hnot : ∀ c, p ∉ s₁.free c := by
      intro c hc
      by_cases h1 : n.refc = 1
      · obtain ⟨-, -, -, -, hleaf, -⟩ := h.lists_drop.listed c p hc
        exact hstill _ hnode₂ (by rw [h1]; rfl) hleaf
      · exact h.unlisted h1 c hc
    refine h.prune hn hlow h.shape_drop (h.lists_drop.clear hnot fun m hm _ hr => hstill m hm hr)
      (fun q => .inr rfl) ?_ rfl rfl rfl
    intro q m hm hnone
    rw [hm] at hnone
    cases hnone

end Drop

/-- A page, or the null pointer, that can give a reference back: `d` are the direct references
without it. -/
structure Releasable (d : Path → ℕ) (F G : Set Path) (p : Path) (s : Phys) : Prop where
  shape : Shape s
  lists : Lists F G s
  smaller : ∀ g ∈ G, g.length < p.length
  above : ∀ n, s.node p = some n → n.refc = 1 → AboveFree G s p
  counted : CountedBelow d s p
  lower : ∀ q m, s.node q = some m → d q ≤ m.refc.toNat
  count : ∀ n, s.node p = some n → d p + 1 ≤ n.refc.toNat

namespace Releasable

lemma refc_ne_zero (h : Releasable d F G p s) (hn : s.node p = some n) : n.refc ≠ 0 := by
  intro h0
  have := h.count n hn
  rw [h0] at this
  exact absurd this (not_succ_le_zero _)

lemma notMem (h : Releasable d F G p s) : p ∉ G := fun hin => (h.smaller p hin).ne rfl

variable {b : Bool}

lemma smaller_half (h : Releasable d F G p s) : ∀ g ∈ insert p G, g.length < (b :: p).length := by
  intro g hg
  rcases hg with rfl | hg
  · exact lt_succ_self _
  · exact (h.smaller g hg).trans (lt_succ_self _)

section

variable (h : Releasable d F G p s) (hn : s.node p = some n)
include h hn

lemma above_half (h1 : n.refc = 1) : AboveFree (insert p G) s (b :: p) := by
  intro a m ha hne hm
  rcases suffix_cons_iff.mp ha with rfl | ha
  · exact absurd rfl hne
  · by_cases hap : a = p
    · exact .inr (.inl hap)
    · exact (h.above n hn h1 a m ha hap hm).imp_right (mem_insert_of_mem _)

lemma count_half : ∀ m, s.node (b :: p) = some m → d (b :: p) + 1 ≤ m.refc.toNat := by
  intro m hm
  rw [h.counted b p n m (suffix_refl _) hn hm, if_neg (h.refc_ne_zero hn)]

lemma left (h1 : n.refc = 1) : Releasable d F (insert p G) (false :: p) s where
  shape := h.shape
  lists := h.lists.mono (subset_refl _) (subset_insert _ _)
  smaller := h.smaller_half
  above := fun _ _ _ => h.above_half hn h1
  counted := h.counted.of_suffix (suffix_cons _ _)
  lower := h.lower
  count := h.count_half hn

end

lemma right {s₀ : Phys} (h : Releasable d F G p s) (hn : s.node p = some n) (h1 : n.refc = 1)
    (hleft : Unreferenced d F (insert p G) (false :: p) s s₀) :
    Releasable d F (insert p G) (true :: p) s₀ where
  shape := hleft.shape
  lists := hleft.lists
  smaller := h.smaller_half
  above := fun _ _ _ a m ha hne hm => by
    have hout : ¬(false :: p) <:+ a := by
      intro hfa
      have := hfa.length_le
      have hlt := lt_of_le_of_ne ha.length_le fun he => hne (ha.eq_of_length he)
      simp only [length_cons] at this hlt
      omega
    rcases hleft.outside a hout with h' | h'
    · rw [h'] at hm; cases hm
    · exact h.above_half hn h1 a m ha hne (h'.symm.trans hm)
  counted := (h.counted.of_suffix (suffix_cons true p)).congr fun q hq =>
    hleft.outside q (not_suffix_of_half hq)
  lower := hleft.lower
  count := fun m hm => by
    rcases hleft.outside (true :: p) (not_suffix_of_half (suffix_refl (true :: p))) with h' | h'
    · rw [h'] at hm; cases hm
    · exact h.count_half hn m (h'.symm.trans hm)

end Releasable

lemma pageUnrefRec_some (hn : s.node p = some n) (h : pageUnrefRec (fuel + 1) p s = .ok s') :
    n.refc ≠ 0 ∧ ∃ s₁, (if n.refc = 1 then ∃ s₀, pageUnrefRec fuel (false :: p) s = .ok s₀ ∧
        pageUnrefRec fuel (true :: p) s₀ = .ok s₁ else s₁ = s) ∧
      ∃ m, s₁.node p = some m ∧ (if (s₁.set p { m with refc := m.refc - 1 }).IsFree p then
        releasePage p (s₁.set p { m with refc := m.refc - 1 }) else
        .ok (s₁.set p { m with refc := m.refc - 1 })) = .ok s' := by
  rw [pageUnrefRec, hn] at h
  obtain ⟨_, h0, h⟩ := bind_eq_ok.mp h
  obtain ⟨s₁, h₁, h⟩ := bind_eq_ok.mp h
  obtain ⟨m, hm, h⟩ := bind_eq_ok.mp h
  refine ⟨assert_eq_ok.mp h0, s₁, ?_, m, deref_eq_ok.mp hm, h⟩
  split at h₁
  · next h1 =>
    rw [if_pos h1]
    exact bind_eq_ok.mp h₁
  · next h1 =>
    rw [if_neg h1]
    exact (Except.ok.inj h₁).symm

lemma pageUnrefRec_none (hn : s.node p = none) : pageUnrefRec fuel p s = .ok s := by
  cases fuel with
  | zero => rfl
  | succ fuel => rw [pageUnrefRec, hn]

/-- **`page_unref`** on a page, or on the null pointer. -/
theorem pageUnrefRec_spec (hfuel : maxClass < fuel + p.length) (hpre : Releasable d F G p s)
    (h : pageUnrefRec fuel p s = .ok s') : Unreferenced d F G p s s' := by
  induction fuel generalizing p s s' G with
  | zero =>
    cases h
    refine unreferenced_null hpre.shape hpre.lists (not_not.mp fun hhas => ?_) hpre.counted hpre.lower
    have := hpre.shape.length_le hhas
    omega
  | succ fuel ih =>
    cases hn : s.node p with
    | none =>
      rw [pageUnrefRec_none hn] at h
      cases h
      exact unreferenced_null hpre.shape hpre.lists hn hpre.counted hpre.lower
    | some n =>
      obtain ⟨h0, s₁, h₁, m, hm, h⟩ := pageUnrefRec_some hn h
      have hhalves : HalvesReleased d F G p n s s₁ := by
        split at h₁
        · next h1 =>
          obtain ⟨s₀, h₀, h₁⟩ := h₁
          have hfuel' : ∀ b : Bool, maxClass < fuel + (b :: p).length := by
            intro b
            rw [length_cons]
            omega
          have hleft := ih (hfuel' _) (hpre.left hn h1) h₀
          exact halves_released hn h1 hpre.counted hleft (ih (hfuel' _) (hpre.right hn h1 hleft) h₁)
        · next h1 =>
          rw [h₁]
          exact halves_kept hpre.shape hpre.lists hpre.notMem hn h0 h1 hpre.counted hpre.lower
      rw [hhalves.node] at hm
      cases hm
      exact hhalves.finish hn (hpre.count n hn) (hpre.above n hn) h

lemma pageRefRec_pools (fuel : ℕ) (p : Path) (s : Phys) : (pageRefRec fuel p s).pools = s.pools := by
  induction fuel generalizing p s with
  | zero => rfl
  | succ fuel ih =>
    rw [pageRefRec]
    cases s.node p with
    | none => rfl
    | some n =>
      dsimp only
      split
      · rw [ih, ih]
        rfl
      · rfl

def bump (d : Path → ℕ) (p : Path) : Path → ℕ := Function.update d p (d p + 1)

@[simp] lemma bump_self (d : Path → ℕ) (p : Path) : bump d p p = d p + 1 := Function.update_self _ _ _

lemma bump_ne (h : q ≠ p) : bump d p q = d q := Function.update_of_ne h _ _

lemma le_bump (d : Path → ℕ) (p q : Path) : d q ≤ bump d p q := by
  by_cases h : q = p
  · rw [h, bump_self]
    exact le_succ _
  · rw [bump_ne h]

lemma eq_or_not_suffix {b : Bool} (h : ¬p <:+ q) : b :: q = p ∨ ¬p <:+ (b :: q) := by
  by_cases hb : p <:+ (b :: q)
  · rcases suffix_cons_iff.mp hb with hb | hb
    · exact .inl hb.symm
    · exact absurd hb h
  · exact .inr hb

lemma Counted.refc_le (h : Counted d s) (hn : s.node p = some n) (hs : Shape s) : n.refc.toNat ≤ d p + 1 := by
  cases p with
  | nil =>
    rw [h.root n hn]
    exact le_succ _
  | cons b p =>
    obtain ⟨m, hm⟩ := has_iff.mp (hs.parent b p (has_of_node hn))
    rw [h.below b p m n nil_suffix hm hn]
    split <;> omega

section

variable (hs : Shape s) (hl : Lists F ∅ s)
include hs hl

/-- **A reference** is counted. -/
theorem pageRef_spec (hc : Counted d s) (hp : s.Has p) (hb : d p + 2 < 2 ^ 32) :
    Referenced d p s (pageRef p s) ∧ Shape (pageRef p s) ∧ Lists F ∅ (pageRef p s) ∧
      Counted (bump d p) (pageRef p s) := by
  obtain ⟨n, hn⟩ := has_iff.mp hp
  have hle := hc.refc_le hn hs
  have hroom : n.refc.toNat + 1 < 2 ^ 32 := by omega
  obtain ⟨href, hlists⟩ : Referenced d p s (pageRef p s) ∧ Lists F ∅ (pageRef p s) := by
    refine pageRefRec_spec (by omega) hs hl hc.bound (fun m hm => ?_) (hc.below.of_suffix nil_suffix)
    rw [hn] at hm
    cases hm
    exact hroom
  have hnode := href.node n hn
  have hcount := refc_succ_toNat hroom
  refine ⟨href, hs.congr href.frames, hlists, ?_, ?_, ?_, ?_⟩
  · intro m hm
    by_cases h : p = []
    · subst h
      rw [hnode] at hm
      cases hm
      rw [bump_self, ← hc.root n hn]
      exact hcount
    · rw [href.outside [] fun h' => h (suffix_nil.mp h')] at hm
      rw [bump_ne (Ne.symm h)]
      exact hc.root m hm
  · intro b q m k _ hm hk
    by_cases hpq : p <:+ q
    · have hne : b :: q ≠ p := by
        rintro rfl
        exact not_cons_suffix b q hpq
      rw [bump_ne hne]
      exact href.counted b q m k hpq hm hk
    · rw [href.outside q hpq] at hm
      rcases eq_or_not_suffix (b := b) hpq with heq | hout
      · rw [heq, hnode] at hk
        cases hk
        rw [← heq] at hn
        have := hc.below b q m n nil_suffix hm hn
        rw [heq] at this ⊢
        rw [bump_self]
        dsimp only
        omega
      · rw [href.outside _ hout] at hk
        rw [bump_ne (ne_of_not_suffix hout)]
        exact hc.below b q m k nil_suffix hm hk
  · intro q hq
    have hhas : s.Has q := by
      by_cases h : q = p
      · rwa [h]
      · rw [bump_ne h] at hq
        exact hc.present q hq
    have hframe := href.frames q
    obtain ⟨k, hk⟩ := has_iff.mp hhas
    rw [hk] at hframe
    intro hnone
    rw [hnone] at hframe
    cases hframe
  · intro q
    by_cases h : q = p
    · rw [h, bump_self]
      omega
    · rw [bump_ne h]
      exact hc.bound q

lemma releasable (hc : Counted (bump d p) s) : Releasable d F ∅ p s := by
  refine ⟨hs, hl, fun g hg => absurd hg (notMem_empty g), fun m hm h1 a k ha hap hk => ?_,
    fun b q m k hq hm hk => ?_, fun q m hm => (le_bump d p q).trans (hc.count_le hm hs), fun m hm => ?_⟩
  · cases p with
    | nil => exact absurd (suffix_nil.mp ha) hap
    | cons b q =>
      obtain ⟨par, hpar⟩ := has_iff.mp (hs.parent b q (has_of_node hm))
      have hcount := hc.below b q par m nil_suffix hpar hm
      have h0 : par.refc = 0 := by
        by_contra h0
        rw [if_neg h0, bump_self, h1] at hcount
        have : (1 : UInt32).toNat = 1 := rfl
        omega
      rcases suffix_cons_iff.mp ha with rfl | ha
      · exact absurd rfl hap
      · exact .inl (hc.above hs hpar h0 ha k hk)
  · have hne : b :: q ≠ p := by
      rintro rfl
      exact not_cons_suffix b q hq
    rw [hc.below b q m k nil_suffix hm hk, bump_ne hne]
  · rw [← bump_self d p]
    exact hc.count_le hm hs

/-- **Giving a reference back**. -/
theorem pageUnref_spec (hc : Counted (bump d p) s)
    (h : pageUnref p s = .ok s') : Unreferenced d F ∅ p s s' ∧ Counted d s' := by
  have hhas : s.Has p := hc.present p (by rw [bump_self]; exact succ_pos _)
  obtain ⟨n, hn⟩ := has_iff.mp hhas
  have hun : Unreferenced d F ∅ p s s' := pageUnrefRec_spec (by omega) (releasable hs hl hc) h
  -- outside of the page a descriptor that is left is as it was
  have hback : ∀ q m, ¬p <:+ q → s'.node q = some m → s.node q = some m := by
    intro q m hq hm
    rcases hun.outside q hq with h | h
    · rw [h] at hm; cases hm
    · rw [← h, hm]
  refine ⟨hun, ?_, ?_, ?_, fun q => lt_of_le_of_lt (succ_le_succ (le_bump d p q)) (hc.bound q)⟩
  · intro m hm
    by_cases hp : p = []
    · subst hp
      have hroot := hc.root n hn
      rw [bump_self] at hroot
      rw [hun.node n m hn hm]
      have hne0 : n.refc ≠ 0 := by
        intro h0
        rw [h0] at hroot
        have : (0 : UInt32).toNat = 0 := rfl
        omega
      have := refc_pred_toNat hne0
      dsimp only
      omega
    · have hout : ¬p <:+ [] := fun h' => hp (suffix_nil.mp h')
      rw [hc.root m (hback [] m hout hm), bump_ne (Ne.symm hp)]
  · intro b q m k _ hm hk
    by_cases hpq : p <:+ q
    · exact hun.counted b q m k hpq hm hk
    · have hm' := hback q m hpq hm
      rcases eq_or_not_suffix (b := b) hpq with heq | hout
      · subst heq
        have hcount := hc.below b q m n nil_suffix hm' hn
        rw [bump_self] at hcount
        rw [hun.node n k hn hk]
        have hne0 : n.refc ≠ 0 := by
          intro h0
          rw [h0] at hcount
          have : (0 : UInt32).toNat = 0 := rfl
          omega
        have := refc_pred_toNat hne0
        dsimp only
        omega
      · rw [hc.below b q m k nil_suffix hm' (hback _ k hout hk), bump_ne (ne_of_not_suffix hout)]
  · intro q hq
    by_contra hnone
    have := hun.lost q (hc.present q (lt_of_lt_of_le hq (le_bump d p q))) hnone
    omega

end

end Jos.PmapModel
