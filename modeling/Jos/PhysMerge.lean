import Jos.PhysLookup

/-!
Which pages `page_unref` merges, read off the memory before the call.

The halves of a page are merged when the upper one is given back, if both then have no children and
no references; the loop compares the type of the page with that of this half.
-/

namespace Jos.PmapModel

open CArray Jos.Dyadic List Phys

variable {F G : Set Path} {d : Path → ℕ} {s s' s₀ s₁ : Phys} {p q : Path} {n m k : Page} {fuel : ℕ}
  {b : Bool} {r : Phys × Path}

/-- The page gives back its last reference, and will have no children then. -/
def becomesLeaf (s : Phys) : ℕ → Path → Bool
  | 0, _ => false
  | fuel + 1, p =>
    match s.node p, s.node (true :: p) with
    | none, _ => false
    | some n, none => n.refc = 1
    | some n, some m => n.refc = 1 && becomesLeaf s fuel (false :: p) &&
        becomesLeaf s fuel (true :: p) && decide (m.state = n.state)

/-- No halves of different types are merged below the page. -/
def DownSafe (s : Phys) : ℕ → Path → Prop
  | 0, _ => True
  | fuel + 1, p => ∀ n, s.node p = some n → n.refc = 1 →
    DownSafe s fuel (false :: p) ∧ DownSafe s fuel (true :: p) ∧
      (becomesLeaf s (fuel + 1) p = true → ∀ m, s.node (false :: p) = some m → m.state = n.state)

/-- No halves of different types are merged above the page, once it is free. -/
def UpSafe (s : Phys) : Path → Prop
  | [] => True
  | b :: p => ∀ n m k, s.node (b :: p) = some n → s.node p = some m →
    s.node ((!b) :: p) = some k → m.state = n.state → s.IsFree ((!b) :: p) →
      k.state = n.state ∧ (m.refc = 0 → UpSafe s p)

/-- **Giving the page back joins no memory of different types.** -/
def MergeSafe (s : Phys) (p : Path) : Prop :=
  DownSafe s (maxClass + 1) p ∧ (becomesLeaf s (maxClass + 1) p = true → UpSafe s p)

def decForallSome {α : Type} (o : Option α) (P : α → Prop) (h : ∀ a, Decidable (P a)) :
    Decidable (∀ a, o = some a → P a) :=
  match o with
  | none => isTrue nofun
  | some a => decidable_of_iff (P a) ⟨fun hp _ ha => Option.some.inj ha ▸ hp, fun hall => hall a rfl⟩

instance decDownSafe (s : Phys) : ∀ fuel p, Decidable (DownSafe s fuel p)
  | 0, _ => isTrue trivial
  | fuel + 1, p =>
    have := decDownSafe s fuel (false :: p)
    have := decDownSafe s fuel (true :: p)
    decForallSome (s.node p) _ fun n =>
      have := decForallSome (s.node (false :: p)) (fun m => m.state = n.state) fun _ => inferInstance
      inferInstance

instance decUpSafe (s : Phys) : ∀ p, Decidable (UpSafe s p)
  | [] => isTrue trivial
  | b :: p =>
    have := decUpSafe s p
    have : Decidable (∀ n, s.node (b :: p) = some n → ∀ m, s.node p = some m →
        ∀ k, s.node ((!b) :: p) = some k → m.state = n.state → s.IsFree ((!b) :: p) →
          k.state = n.state ∧ (m.refc = 0 → UpSafe s p)) :=
      decForallSome _ _ fun _ => decForallSome _ _ fun _ => decForallSome _ _ fun _ => inferInstance
    decidable_of_iff _ ⟨fun h n m k hn hm hk => h n hn m hm k hk,
      fun h n hn m hm k hk => h n m k hn hm hk⟩

instance (s : Phys) (p : Path) : Decidable (MergeSafe s p) := inferInstanceAs (Decidable (_ ∧ _))

lemma becomesLeaf_congr (h : ∀ q, p <:+ q → s'.node q = s.node q) : becomesLeaf s' fuel p = becomesLeaf s fuel p := by
  induction fuel generalizing p with
  | zero => rfl
  | succ fuel ih =>
    have hhalf : ∀ b q, (b :: p) <:+ q → s'.node q = s.node q := fun b q hq =>
      h q (suffix_of_cons_suffix hq)
    rw [becomesLeaf, becomesLeaf, h p (suffix_refl p), h _ (suffix_cons true p), ih (hhalf false), ih (hhalf true)]

lemma DownSafe.congr (h : DownSafe s fuel p) (hs : ∀ q, p <:+ q → s'.node q = s.node q) : DownSafe s' fuel p := by
  induction fuel generalizing p with
  | zero => trivial
  | succ fuel ih =>
    have hhalf : ∀ b q, (b :: p) <:+ q → s'.node q = s.node q := fun b q hq =>
      hs q (suffix_of_cons_suffix hq)
    intro n hn h1
    rw [hs p (suffix_refl p)] at hn
    obtain ⟨hl, hr, hjoin⟩ := h n hn h1
    refine ⟨ih hl (hhalf false), ih hr (hhalf true), ?_⟩
    rw [becomesLeaf_congr hs, hs _ (suffix_cons false p)]
    exact hjoin

lemma leaf_congr (hs : ∀ b, s'.node (b :: q) = s.node (b :: q)) : s'.Leaf q ↔ s.Leaf q := by
  unfold Phys.Leaf
  simp only [hs]

lemma isFree_congr (h : s'.node q = s.node q) (hs : ∀ b, s'.node (b :: q) = s.node (b :: q)) :
    s'.IsFree q ↔ s.IsFree q := by
  unfold Phys.IsFree
  rw [h, leaf_congr hs]

lemma UpSafe.congr (h : UpSafe s p) (hs : ∀ q, ¬p <:+ q → s'.node q = s.node q)
    (hp : (s'.node p).map (·.state) = (s.node p).map (·.state)) : UpSafe s' p := by
  induction p with
  | nil => trivial
  | cons b p ih =>
    have hself : ∀ q, ¬p <:+ q → ¬(b :: p) <:+ q := fun q hq h => hq (suffix_of_cons_suffix h)
    have hpar : s'.node p = s.node p := hs p (not_cons_suffix b p)
    have hother : ∀ q, ((!b) :: p) <:+ q → s'.node q = s.node q := by
      intro q hq
      refine hs q ?_
      have := not_suffix_of_half hq
      rwa [Bool.not_not] at this
    intro n m k hn hm hk hst hfree
    rw [hpar] at hm
    rw [hother _ (suffix_refl _)] at hk
    rw [isFree_congr (hother _ (suffix_refl _)) fun c => hother _ (suffix_cons _ _)] at hfree
    obtain ⟨n', hn', hst'⟩ : ∃ n', s.node (b :: p) = some n' ∧ n'.state = n.state := by
      rw [hn] at hp
      exact Option.map_eq_some_iff.mp hp.symm
    rw [← hst'] at hst ⊢
    obtain ⟨hkn, hup⟩ := h n' m k hn' hm hk hst hfree
    exact ⟨hkn, fun h0 => ih (hup h0) (fun q hq => hs q (hself q hq)) (by rw [hpar])⟩

lemma types_mergeHalves (hs : Shape s) (hm : s.node p = some m) (hst : ∀ b k, s.node (b :: p) = some k → k.state = m.state) :
    TypesKept s (mergeHalves s p) := by
  have hnode := mergeHalves_node s p
  rintro x t ⟨q, n, hn, hl, hc, rfl⟩
  by_cases hq : ∃ b, q = b :: p
  · obtain ⟨b, rfl⟩ := hq
    have hlen := hs.length_le (has_of_node hn)
    rw [length_cons] at hlen
    refine ⟨p, m, ?_, fun c => by rw [hnode, if_pos ⟨c, rfl⟩], covers_cons (by omega) hc, (hst b n hn).symm⟩
    rw [hnode, if_neg, hm]
    rintro ⟨c, hc⟩
    exact cons_ne_self c p hc.symm
  · refine ⟨q, n, by rw [hnode, if_neg hq, hn], fun c => ?_, hc, rfl⟩
    rw [hnode, hl c, ite_self]

lemma mergeHalves_node_outside (h : ¬p <:+ q ∨ q = p) : (mergeHalves s p).node q = s.node q := by
  rw [mergeHalves_node, if_neg]
  rintro ⟨b, rfl⟩
  rcases h with h | h
  · exact h (suffix_cons b p)
  · exact cons_ne_self b p h

lemma mergeUp_types (hs : Shape s) (hup : ∀ n, s.node p = some n → n.refc = 0 → UpSafe s p)
    (h : mergeUp p s = .ok r) : TypesKept s r.1 := by
  induction p generalizing s with
  | nil =>
    cases h
    exact TypesKept.refl s
  | cons b p ih =>
    rcases mergeUp_cons h with ⟨m, n, hn, hm, hst, hfl, hfr, hcase⟩ | rfl
    swap
    · exact TypesKept.refl s
    have hfree : ∀ b, s.IsFree (b :: p) := fun b => by cases b <;> assumption
    obtain ⟨⟨n', hn', h0⟩, -⟩ := hfree b
    rw [hn] at hn'
    cases hn'
    obtain ⟨⟨k, hk, -⟩, -⟩ := hfree (!b)
    obtain ⟨hkn, hnext⟩ := hup n hn h0 n m k hn hm hk hst (hfree _)
    have hboth : ∀ c j, s.node (c :: p) = some j → j.state = m.state := by
      intro c j hj
      by_cases hcb : c = b
      · rw [hcb, hn] at hj
        cases hj
        exact hst.symm
      · rw [show c = !b by cases b <;> cases c <;> simp at hcb ⊢, hk] at hj
        cases hj
        rw [hkn, hst]
    have hkept := types_mergeHalves hs hm hboth
    have hup₁ : ∀ t : Phys, t.node = (mergeHalves s p).node → ∀ j, t.node p = some j → j.refc = 0 → UpSafe t p := by
      intro t ht j hj hj0
      have hsame : t.node p = s.node p := by
        rw [ht]
        exact mergeHalves_node_outside (.inr rfl)
      rw [hsame, hm] at hj
      cases hj
      refine (hnext hj0).congr (fun q hq => ?_) (by rw [hsame])
      rw [ht]
      exact mergeHalves_node_outside (.inl hq)
    have hshape₁ : Shape (mergeHalves s p) := hs.remove (fun b => (hfree b).2) (mergeHalves_node s p)
    rcases hcase with ⟨-, h⟩ | ⟨-, -, -, h⟩
    · exact hkept.trans (ih hshape₁ (hup₁ _ rfl) h)
    · have hshape₂ : Shape ((mergeHalves s p).push m.cls p) := hshape₁.congr fun _ => rfl
      have hkept₂ : TypesKept s ((mergeHalves s p).push m.cls p) := hkept
      exact hkept₂.trans (ih hshape₂ (hup₁ _ rfl) h)

/-- What is merged when a page gives a reference back. -/
structure Merges (fuel : ℕ) (p : Path) (s s' : Phys) : Prop where
  free : s'.IsFree p → becomesLeaf s fuel p = true
  gone : ∀ n, s.node p = some n → ¬s'.Has p → becomesLeaf s fuel p = true ∧
    ∃ b q m, p = b :: q ∧ s.node q = some m ∧ m.state = n.state ∧ s.IsFree ((!b) :: q)
  kept : (s.Has p → s'.Has p) → ∀ q, ¬p <:+ q → s'.node q = s.node q
  -- a page that is still referenced is not merged itself
  near : ∀ b q m, p = b :: q → s.node q = some m → m.refc ≠ 0 → ∀ t, ¬q <:+ t → s'.node t = s.node t

lemma merges_null (hn : s.node p = none) : Merges fuel p s s where
  free := fun ⟨⟨m, hm, _⟩, _⟩ => by rw [hn] at hm; cases hm
  gone := fun n hn' => by rw [hn] at hn'; cases hn'
  kept := fun _ _ _ => rfl
  near := fun _ _ _ _ _ _ _ _ => rfl

/-- The halves are given back: nothing outside of the page changes, and if it has no children
then, this was to be seen before. -/
structure HalvesMerge (fuel : ℕ) (p : Path) (n : Page) (s s₁ : Phys) : Prop where
  outside : ∀ q, ¬p <:+ q → s₁.node q = s.node q
  leaf : n.refc = 1 → s₁.Leaf p → becomesLeaf s (fuel + 1) p = true

lemma halvesMerge_kept (hn : s.node p = some n) : HalvesMerge fuel p n s s where
  outside := fun _ _ => rfl
  leaf := fun h1 hl => by
    rw [becomesLeaf, hn, hl true]
    exact decide_eq_true h1

section

variable (hpre : Releasable d F G p s) (hn : s.node p = some n)
include hpre hn

lemma left_kept (hl : Merges fuel (false :: p) s s₀) :
    ¬s.IsFree (true :: p) ∧ ∀ q, ¬(false :: p) <:+ q → s₀.node q = s.node q := by
  have hbusy : ¬s.IsFree (true :: p) := by
    rintro ⟨⟨k, hk, h0⟩, -⟩
    have := hpre.count_half hn k hk
    rw [h0] at this
    exact absurd this (Nat.not_succ_le_zero _)
  refine ⟨hbusy, hl.kept fun hhas => ?_⟩
  by_contra hgone
  obtain ⟨m, hm⟩ := has_iff.mp hhas
  obtain ⟨-, b, q, _, hbq, -, -, hfree⟩ := hl.gone m hm hgone
  obtain ⟨rfl, rfl⟩ := cons.inj hbq
  exact hbusy hfree

lemma halvesMerge_released (h1 : n.refc = 1)
    (hl : Merges fuel (false :: p) s s₀) (hr : Merges fuel (true :: p) s₀ s₁) :
    HalvesMerge fuel p n s s₁ := by
  obtain ⟨-, hout₀⟩ := left_kept hpre hn hl
  have hn₀ : s₀.node p = some n := (hout₀ p (not_cons_suffix _ _)).trans hn
  have hright : ∀ q, (true :: p) <:+ q → s₀.node q = s.node q := fun q hq =>
    hout₀ q (not_suffix_of_half hq)
  refine ⟨fun q hq => ?_, fun _ hleaf => ?_⟩
  · rw [hr.near true p n rfl hn₀ (hpre.refc_ne_zero hn) q hq]
    exact hout₀ q fun h => hq (suffix_of_cons_suffix h)
  · cases hm : s.node (true :: p) with
    | none =>
      rw [becomesLeaf, hn, hm]
      exact decide_eq_true h1
    | some m =>
      have hm₀ : s₀.node (true :: p) = some m := (hright _ (suffix_refl _)).trans hm
      obtain ⟨hbl, b, q, k, hbq, hk, hst, hfree⟩ := hr.gone m hm₀ fun hhas => leaf_iff.mp hleaf true hhas
      obtain ⟨rfl, rfl⟩ := cons.inj hbq
      rw [hn₀] at hk
      cases hk
      rw [becomesLeaf_congr hright] at hbl
      rw [becomesLeaf, hn, hm]
      simp only [h1, hl.free hfree, hbl, hst, decide_true, Bool.and_self]

/-- The counter goes down, and a page that is free now is merged with what is beside it. -/
lemma merges_finish (hh : HalvesReleased d F G p n s s₁) (hm : HalvesMerge fuel p n s s₁)
    (h : (if (s₁.set p { n with refc := n.refc - 1 }).IsFree p then
      releasePage p (s₁.set p { n with refc := n.refc - 1 }) else
      .ok (s₁.set p { n with refc := n.refc - 1 })) = .ok s') : Merges (fuel + 1) p s s' := by
  have hnode₂ := set_node_self s₁ p { n with refc := n.refc - 1 }
  have hleaf₂ := set_leaf_iff (q := p) (has_of_node hh.node) { n with refc := n.refc - 1 }
  have hshape₂ := hh.shape_drop
  have hlists₂ := hh.lists_drop
  have habove₂ := hh.above_drop
  have hout₂ : ∀ q, ¬p <:+ q → (s₁.set p { n with refc := n.refc - 1 }).node q = s.node q := fun q hq =>
    (set_node_ne (ne_of_not_suffix hq) _).trans (hm.outside q hq)
  generalize s₁.set p { n with refc := n.refc - 1 } = s₂ at *
  have hhas₂ : s₂.Has p := has_of_node hnode₂
  split at h
  swap
  · next hfree =>
    cases h
    refine ⟨fun hf => absurd hf hfree, fun _ _ hgone => absurd hhas₂ hgone, fun _ => hout₂, ?_⟩
    rintro b q _ rfl _ _ t ht
    exact hout₂ t fun hbt => ht (suffix_of_cons_suffix hbt)
  next hfree =>
  obtain ⟨⟨m, hm₂, hzero⟩, hleaf⟩ := hfree
  have h1 : n.refc = 1 := by
    rw [hnode₂] at hm₂
    cases hm₂
    exact sub_eq_zero.mp hzero
  have hbl := hm.leaf h1 (hleaf₂.mp hleaf)
  obtain ⟨r, hr, h⟩ := bind_eq_ok.mp h
  obtain ⟨_, -, h⟩ := bind_eq_ok.mp h
  obtain ⟨hsuf, hmerged⟩ := mergeUp_spec hshape₂ hlists₂ hleaf hhas₂ (habove₂ (hpre.above n hn h1)) hr
  have hnode' : s'.node = r.1.node := by
    split at h
    · obtain ⟨-, rfl⟩ := listAppend_eq_ok.mp h
      rfl
    · cases h
      rfl
  -- what is above the page where the loop ends is unchanged
  have hend : ∀ t, ¬r.2 <:+ t → s'.node t = s₂.node t := by
    intro t ht
    rw [hnode']
    rcases hmerged.sub t with hnone | hsame
    · cases hk : s₂.node t with
      | none => exact hnone
      | some k => exact absurd (hmerged.gone t k hk hnone).2.1 ht
    · exact hsame
  have hlast : ∀ t, r.2 <:+ t → s'.Has t → t = r.2 := by
    intro t ht hhas
    rw [Phys.Has, hnode'] at hhas
    exact hmerged.shape.eq_of_leaf hmerged.leaf hhas ht
  refine ⟨fun _ => hbl, fun n' hn' hgone => ⟨hbl, ?_⟩, fun hkeep t ht => ?_, ?_⟩
  · rw [hn] at hn'
    cases hn'
    cases p with
    | nil =>
      cases hr
      rw [Phys.Has, hnode', hnode₂] at hgone
      exact absurd nofun hgone
    | cons b q =>
      rcases mergeUp_cons hr with ⟨k, j, hj, hk, hst, hfl, hfr, -⟩ | rfl
      swap
      · rw [Phys.Has, hnode', hnode₂] at hgone
        exact absurd nofun hgone
      have hother : ∀ t, ((!b) :: q) <:+ t → s.node t = s₂.node t := by
        intro t ht
        refine (hout₂ t ?_).symm
        have := not_suffix_of_half ht
        rwa [Bool.not_not] at this
      rw [hnode₂] at hj
      cases hj
      rw [hout₂ q (not_cons_suffix b q)] at hk
      refine ⟨b, q, k, rfl, hk, hst, ?_⟩
      rw [isFree_congr (hother _ (suffix_refl _)) fun c => hother _ (suffix_cons _ _)]
      cases b <;> assumption
  · have hrp : p = r.2 := hlast p hsuf (hkeep (has_of_node hn))
    rw [hend t (hrp ▸ ht), hout₂ t ht]
  · rintro b q k rfl hk hk0 t ht
    have hk₂ : s₂.node q = some k := (hout₂ q (not_cons_suffix b q)).trans hk
    have hqr : q <:+ r.2 := by
      rcases suffix_cons_iff.mp hsuf with hr2 | hr2
      · rw [hr2]
        exact suffix_cons b q
      · -- the page above is referenced, so that it stays
        have hhas : s'.Has q := by
          rw [Phys.Has, hnode']
          intro hnone
          exact hk0 (hmerged.gone q k hk₂ hnone).1
        rw [hlast q hr2 hhas]
    rw [hend t fun h => ht (hqr.trans h), hout₂ t fun h => ht (suffix_of_cons_suffix h)]

end

lemma halvesReleased_of_calls (hfuel : maxClass < fuel + 1 + p.length) (hpre : Releasable d F G p s)
    (hn : s.node p = some n) (h₁ : if n.refc = 1 then ∃ s₀, pageUnrefRec fuel (false :: p) s = .ok s₀ ∧
      pageUnrefRec fuel (true :: p) s₀ = .ok s₁ else s₁ = s) : HalvesReleased d F G p n s s₁ := by
  have hfuel' : ∀ b : Bool, maxClass < fuel + (b :: p).length := by
    intro b
    rw [length_cons]
    omega
  split at h₁
  · next h1 =>
    obtain ⟨s₀, h₀, h₁⟩ := h₁
    have hleft := pageUnrefRec_spec (hfuel' _) (hpre.left hn h1) h₀
    exact halves_released hn h1 hpre.counted hleft (pageUnrefRec_spec (hfuel' _) (hpre.right hn h1 hleft) h₁)
  · next h1 =>
    rw [h₁]
    exact halves_kept hpre.shape hpre.lists hpre.notMem hn (hpre.refc_ne_zero hn) h1 hpre.counted hpre.lower

theorem pageUnrefRec_merges (hfuel : maxClass < fuel + p.length) (hpre : Releasable d F G p s)
    (h : pageUnrefRec fuel p s = .ok s') : Merges fuel p s s' := by
  induction fuel generalizing p s s' G with
  | zero =>
    cases h
    refine merges_null (not_not.mp fun hhas => ?_)
    have := hpre.shape.length_le hhas
    omega
  | succ fuel ih =>
    cases hn : s.node p with
    | none =>
      rw [pageUnrefRec_none hn] at h
      cases h
      exact merges_null hn
    | some n =>
      obtain ⟨h0, s₁, h₁, m, hm, h⟩ := pageUnrefRec_some hn h
      have hhalves := halvesReleased_of_calls hfuel hpre hn h₁
      rw [hhalves.node] at hm
      cases hm
      refine merges_finish hpre hn hhalves ?_ h
      split at h₁
      · next h1 =>
        obtain ⟨s₀, h₀, h₁⟩ := h₁
        have hfuel' : ∀ b : Bool, maxClass < fuel + (b :: p).length := by
          intro b
          rw [length_cons]
          omega
        have hleft := pageUnrefRec_spec (hfuel' _) (hpre.left hn h1) h₀
        exact halvesMerge_released hpre hn h1 (ih (hfuel' _) (hpre.left hn h1) h₀)
          (ih (hfuel' _) (hpre.right hn h1 hleft) h₁)
      · rw [h₁]
        exact halvesMerge_kept hn

lemma types_set (hn : s.node p = some n) (rc : UInt32) : TypesKept s (s.set p { n with refc := rc }) := by
  rintro x t ⟨q, m, hm, hl, hc, rfl⟩
  have hl' := (set_leaf_iff (has_of_node hn) { n with refc := rc }).mpr hl
  by_cases hq : q = p
  · subst hq
    rw [hn] at hm
    cases hm
    exact ⟨q, _, set_node_self _ _ _, hl', hc, rfl⟩
  · exact ⟨q, m, (set_node_ne hq _).trans hm, hl', hc, rfl⟩

lemma upSafe_right (hpre : Releasable d F G p s) (hn : s.node p = some n) (h1 : n.refc = 1)
    (hdown : DownSafe s (fuel + 1) p) (hun : Unreferenced d F (insert p G) (false :: p) s s₀)
    (hl : Merges fuel (false :: p) s s₀) (hright : ∀ q, (true :: p) <:+ q → s₀.node q = s.node q)
    (hn₀ : s₀.node p = some n) (hbl : becomesLeaf s₀ fuel (true :: p) = true) :
    UpSafe s₀ (true :: p) := by
  obtain ⟨-, -, hjoin⟩ := hdown n hn h1
  intro m n' k hm hn' hk hst hfree
  rw [hn₀] at hn'
  cases hn'
  refine ⟨?_, fun h0 => absurd h0 (hpre.refc_ne_zero hn)⟩
  have hm' : s.node (true :: p) = some m := (hright _ (suffix_refl _)).symm.trans hm
  rw [becomesLeaf_congr hright] at hbl
  have hbecomes : becomesLeaf s (fuel + 1) p = true := by
    rw [becomesLeaf, hn, hm']
    have hlfree : becomesLeaf s fuel (false :: p) = true := hl.free hfree
    simp only [h1, hlfree, hbl, hst, decide_true, Bool.and_self]
  obtain ⟨k', hk', hf⟩ := hun.frames (false :: p) k hk
  have hk'st : k'.state = k.state := congrArg Prod.fst hf
  rw [← hk'st, hjoin hbecomes k' hk', hst]

/-- **Giving a page back** keeps the types, where no memory of different types is joined. -/
theorem pageUnrefRec_types (hfuel : maxClass < fuel + p.length) (hpre : Releasable d F G p s)
    (hdown : DownSafe s fuel p) (hup : becomesLeaf s fuel p = true → UpSafe s p)
    (h : pageUnrefRec fuel p s = .ok s') : TypesKept s s' := by
  induction fuel generalizing p s s' G with
  | zero =>
    cases h
    exact TypesKept.refl s
  | succ fuel ih =>
    cases hn : s.node p with
    | none =>
      rw [pageUnrefRec_none hn] at h
      cases h
      exact TypesKept.refl s
    | some n =>
      obtain ⟨h0, s₁, h₁, m, hm, h⟩ := pageUnrefRec_some hn h
      have hhalves := halvesReleased_of_calls hfuel hpre hn h₁
      rw [hhalves.node] at hm
      cases hm
      have hbefore : TypesKept s s₁ ∧ HalvesMerge fuel p n s s₁ := by
        split at h₁
        swap
        · rw [h₁]
          exact ⟨TypesKept.refl s, halvesMerge_kept hn⟩
        next h1 =>
        obtain ⟨s₀, h₀, h₁⟩ := h₁
        have hfuel' : ∀ b : Bool, maxClass < fuel + (b :: p).length := by
          intro b
          rw [length_cons]
          omega
        have hleft := hpre.left hn h1
        have hun := pageUnrefRec_spec (hfuel' _) hleft h₀
        have hmerges := pageUnrefRec_merges (hfuel' _) hleft h₀
        have hpright := hpre.right hn h1 hun
        have hrmerges := pageUnrefRec_merges (hfuel' _) hpright h₁
        obtain ⟨hdl, hdr, -⟩ := hdown n hn h1
        obtain ⟨hbusy, hout⟩ := left_kept hpre hn hmerges
        have hright : ∀ q, (true :: p) <:+ q → s₀.node q = s.node q := fun q hq =>
          hout q (not_suffix_of_half hq)
        refine ⟨(ih (hfuel' _) hleft hdl ?_ h₀).trans (ih (hfuel' _) hpright (hdr.congr hright) ?_ h₁),
          halvesMerge_released hpre hn h1 hmerges hrmerges⟩
        · exact fun _ _ _ _ _ _ _ _ hfree => absurd hfree hbusy
        · exact upSafe_right hpre hn h1 hdown hun hmerges hright ((hout p (not_cons_suffix _ _)).trans hn)
      obtain ⟨htypes, hmerge⟩ := hbefore
      refine (htypes.trans (types_set hhalves.node (n.refc - 1))).trans ?_
      split at h
      swap
      · cases h
        exact TypesKept.refl _
      next hfree =>
      obtain ⟨⟨m, hm, hzero⟩, hleaf⟩ := hfree
      have h1 : n.refc = 1 := by
        rw [set_node_self] at hm
        cases hm
        exact sub_eq_zero.mp hzero
      have hbl := hmerge.leaf h1 ((set_leaf_iff (has_of_node hhalves.node) _).mp hleaf)
      have hup₂ : UpSafe (s₁.set p { n with refc := n.refc - 1 }) p := by
        refine (hup hbl).congr (fun q hq => ?_) ?_
        · exact (set_node_ne (ne_of_not_suffix hq) _).trans (hmerge.outside q hq)
        · rw [set_node_self, hn]
          rfl
      obtain ⟨r, hr, h⟩ := bind_eq_ok.mp h
      obtain ⟨_, -, h⟩ := bind_eq_ok.mp h
      have hnode' : s'.node = r.1.node := by
        split at h
        · obtain ⟨-, rfl⟩ := listAppend_eq_ok.mp h
          rfl
        · cases h
          rfl
      have hend := mergeUp_types hhalves.shape_drop (fun _ _ _ => hup₂) hr
      intro x t hx
      obtain ⟨q, k, hk, hl, hc, hst⟩ := hend x t hx
      exact ⟨q, k, by rw [hnode', hk], fun b => by rw [hnode']; exact hl b, hc, hst⟩

end Jos.PmapModel
