import Jos.PhysRef

/-!
Splitting pages.

`page_lookup` goes down to a page and splits what it passes; `alloc_page` splits a free page of a
larger class that way. Both may allocate a page for a new pool of descriptors first, which leaves
alone the pages without children that are in no list.
-/

namespace Jos.PmapModel

open CArray Jos.Dyadic List Nat Except Phys

variable {ext : Path → ℕ} {F G X : Set Path} {d : Path → ℕ} {s s' s₁ s₂ : Phys} {p q : Path}
  {n m : Page} {ensure : Ensure} {type : PageState} {addr cls : ℕ} {r : Phys × Path} {b right : Bool}

def direct (ext : Path → ℕ) (s : Phys) (p : Path) : ℕ := ext p + s.pools.count p

/-- **The invariant**, with `ext` references from outside; free pages of `F` are in no list. -/
structure Inv (ext : Path → ℕ) (F : Set Path) (s : Phys) : Prop where
  shape : Shape s
  lists : Lists F ∅ s
  counted : Counted (direct ext s) s

lemma Inv.mono (h : Inv ext F s) (hF : F ⊆ G) : Inv ext G s := ⟨h.shape, h.lists.mono hF (subset_refl _), h.counted⟩

lemma Counted.of_node (h : Counted d s) (hnode : s'.node = s.node) : Counted d s' where
  root := by rw [hnode]; exact h.root
  below := fun b q k m => by rw [hnode]; exact h.below b q k m
  present := fun q hq => by unfold Phys.Has; rw [hnode]; exact h.present q hq
  bound := h.bound

lemma Inv.congr (h : Inv ext F s) (hnode : s'.node = s.node) (hfree : s'.free = s.free)
    (hpools : s'.pools = s.pools) : Inv ext F s' := by
  have hleaf : ∀ q, s'.Leaf q ↔ s.Leaf q := fun q => by unfold Phys.Leaf; rw [hnode]
  refine ⟨h.shape.congr fun q => by rw [hnode], ?_, ?_⟩
  · constructor
    · rw [hfree]
      exact h.lists.nodup
    · rw [hfree, hnode]
      intro c q hq
      rw [hleaf]
      exact h.lists.listed c q hq
    · rw [hfree, hnode]
      intro q k hk hst hr hl
      rw [hleaf] at hl
      exact h.lists.complete q k hk hst hr hl
  · unfold direct
    rw [hpools]
    exact h.counted.of_node hnode

lemma direct_bump (ext : Path → ℕ) (s : Phys) (p : Path) : direct (bump ext p) s = bump (direct ext s) p := by
  funext q
  unfold direct
  by_cases hq : q = p
  · rw [hq, bump_self, bump_self, add_right_comm]
  · rw [bump_ne hq, bump_ne hq]

lemma direct_congr (ext : Path → ℕ) (h : s'.pools = s.pools) : direct ext s' = direct ext s := by
  unfold direct
  rw [h]

/-- A page that was left out of the lists is referenced. -/
theorem Inv.ref (h : Inv ext (insert p F) s) (hp : s.Has p) (hb : direct ext s p + 2 < 2 ^ 32) :
    Inv (bump ext p) F (pageRef p s) := by
  obtain ⟨hr, hshape, hlists, hcounted⟩ := pageRef_spec h.shape h.lists h.counted hp hb
  obtain ⟨n, hn⟩ := has_iff.mp hp
  have hle := h.counted.refc_le hn h.shape
  refine ⟨hshape, hlists.drop fun k hk _ h0 => ?_, ?_⟩
  · rw [hr.node n hn] at hk
    cases hk
    exact absurd h0 (refc_succ_ne (by omega))
  · rw [direct_congr _ hr.rest.pools, direct_bump]
    exact hcounted

theorem Inv.unref (h : Inv (bump ext p) F s) (hs : pageUnref p s = .ok s') : Inv ext F s' := by
  have hcounted := h.counted
  rw [direct_bump] at hcounted
  obtain ⟨hun, hc⟩ := pageUnref_spec h.shape h.lists hcounted hs
  refine ⟨hun.shape, hun.lists, ?_⟩
  rw [direct_congr _ hun.pools]
  exact hc

def held (l : List Path) (p : Path) : ℕ := l.count p

lemma held_cons (p : Path) (l : List Path) : held (p :: l) = bump (held l) p := by
  funext q
  unfold held
  by_cases hq : q = p
  · rw [hq, count_cons_self, bump_self]
  · rw [count_cons_of_ne (Ne.symm hq), bump_ne hq]

lemma held_eraseIdx {l : List Path} {i : ℕ} (h : l[i]? = some p) : held l = bump (held (l.eraseIdx i)) p := by
  obtain ⟨hi, rfl⟩ := List.getElem?_eq_some_iff.mp h
  rw [← held_cons]
  funext q
  exact (getElem_cons_eraseIdx_perm hi).symm.count_eq q

def Bounded (ext : Path → ℕ) (s : Phys) : Prop := ∀ p, direct ext s p + 1 < 2 ^ 32

lemma Bounded.room (h : Bounded (bump ext p) (pageRef p s)) : direct ext s p + 2 < 2 ^ 32 := by
  have := h p
  rw [pageRef, direct_congr _ (pageRefRec_pools _ p s), direct_bump, bump_self] at this
  exact this

lemma bounded_of_length {l : List Path} (h : l.length + s.pools.length + 1 < 2 ^ 32) : Bounded (held l) s := by
  intro p
  have h1 : held l p ≤ l.length := count_le_length
  have h2 : s.pools.count p ≤ s.pools.length := count_le_length
  unfold direct
  omega

def HasType (s : Phys) (x : ℕ) (t : PageState) : Prop :=
  ∃ p n, s.node p = some n ∧ s.Leaf p ∧ Covers maxClass p x ∧ n.state = t

def TypesKept (s s' : Phys) : Prop := ∀ x t, HasType s x t → HasType s' x t

lemma TypesKept.refl (s : Phys) : TypesKept s s := fun _ _ h => h

lemma TypesKept.trans (h : TypesKept s s₁) (h' : TypesKept s₁ s₂) : TypesKept s s₂ := fun x t hx => h' x t (h x t hx)

lemma Shape.exists_leaf (hs : Shape s) {x : ℕ} (hn : s.node p = some n) (hc : Covers maxClass p x) :
    ∃ q m, s.node q = some m ∧ s.Leaf q ∧ Covers maxClass q x ∧ p <:+ q ∧
      (n.state ≠ .partialNode → m.state = n.state) := by
  obtain ⟨k, hk⟩ : ∃ k, k = n.cls := ⟨_, rfl⟩
  induction k generalizing p n with
  | zero =>
    refine ⟨p, n, hn, leaf_iff.mpr fun b hb => ?_, hc, suffix_refl _, fun _ => rfl⟩
    have := hs.length_le hb
    have := (hs.place p n hn).1
    rw [length_cons] at *
    omega
  | succ k ih =>
    by_cases hl : s.Leaf p
    · exact ⟨p, n, hn, hl, hc, suffix_refl _, fun _ => rfl⟩
    · have hplace := (hs.place p n hn).1
      obtain ⟨b, hb⟩ := covers_half (by omega) hc
      obtain ⟨m, hm⟩ := has_iff.mp (hs.not_leaf_iff.mp hl b)
      have hplace' := (hs.place _ m hm).1
      rw [length_cons] at hplace'
      obtain ⟨q, j, hj, hlq, hcq, hsuf, hst⟩ := ih hm hb (by omega)
      refine ⟨q, j, hj, hlq, hcq, suffix_of_cons_suffix hsuf, fun hne => ?_⟩
      have hmn := hs.uniform b p n m hn hne hm
      rw [hst (by rwa [hmn]), hmn]

lemma Shape.leaf_unique (hs : Shape s) {x : ℕ} (hp : s.Has p) (hlp : s.Leaf p)
    (hcp : Covers maxClass p x) (hq : s.Has q) (hlq : s.Leaf q) (hcq : Covers maxClass q x) : p = q := by
  rcases comparable_of_covers (hs.length_le hp) (hs.length_le hq) hcp hcq with h | h
  · exact (hs.eq_of_leaf hlp hq h).symm
  · exact hs.eq_of_leaf hlq hp h

lemma HasType.unique (hs : Shape s) {x : ℕ} {t t' : PageState} (h : HasType s x t)
    (h' : HasType s x t') : t = t' := by
  obtain ⟨p, n, hn, hl, hc, rfl⟩ := h
  obtain ⟨q, m, hm, hl', hc', rfl⟩ := h'
  obtain rfl := hs.leaf_unique (has_of_node hn) hl hc (has_of_node hm) hl' hc'
  rw [hn] at hm
  cases hm
  rfl

lemma Shape.exists_type (hs : Shape s) {x : ℕ} (hx : x < 2 ^ maxClass) : ∃ t, HasType s x t := by
  obtain ⟨n, hn⟩ := has_iff.mp hs.root
  obtain ⟨q, m, hm, hl, hc, -, -⟩ := hs.exists_leaf hn (covers_nil hx)
  exact ⟨m.state, q, m, hm, hl, hc, rfl⟩

/-- The deepest descriptor for the page `x`, below `p`. -/
def deepest (s : Phys) (x : ℕ) : ℕ → Path → Path
  | 0, p => p
  | k + 1, p =>
    let next := x.testBit (maxClass - (p.length + 1)) :: p
    if s.node next = none then p else deepest s x k next

def typeOf (s : Phys) (x : ℕ) : Option PageState :=
  (s.node (deepest s x maxClass [])).map (·.state)

variable {x : ℕ} {t : PageState}

lemma deepest_spec (hs : Shape s) (hx : x < 2 ^ maxClass) {k : ℕ} (hp : s.Has p)
    (hk : p.length + k = maxClass) (hway : p = toward maxClass x p.length) :
    s.Has (deepest s x k p) ∧ s.Leaf (deepest s x k p) ∧ Covers maxClass (deepest s x k p) x := by
  induction k generalizing p with
  | zero =>
    refine ⟨hp, leaf_iff.mpr fun b hb => ?_, ?_⟩
    · have := hs.length_le hb
      rw [deepest, length_cons] at this
      omega
    · rw [deepest, hway]
      exact covers_toward hx (by omega)
  | succ k ih =>
    rw [deepest]
    split
    · next hnone =>
      refine ⟨hp, ?_, ?_⟩
      · by_contra hl
        exact hs.not_leaf_iff.mp hl _ hnone
      · rw [hway]
        exact covers_toward hx (by omega)
    · next hnext =>
      refine ih hnext (by rw [length_cons]; omega) ?_
      rw [length_cons, toward, ← hway]

lemma typeOf_iff (hs : Shape s) (hx : x < 2 ^ maxClass) : typeOf s x = some t ↔ HasType s x t := by
  obtain ⟨hhas, hleaf, hcov⟩ := deepest_spec hs hx hs.root (zero_add maxClass) rfl
  obtain ⟨n, hn⟩ := has_iff.mp hhas
  have htype : HasType s x n.state := ⟨_, n, hn, hleaf, hcov, rfl⟩
  unfold typeOf
  rw [hn, Option.map_some, Option.some.injEq]
  exact ⟨fun h => h ▸ htype, fun h => htype.unique hs h⟩

lemma typeOf_eq (hs : Shape s) (hs' : Shape s') (h : TypesKept s s') (hx : x < 2 ^ maxClass) :
    typeOf s' x = typeOf s x := by
  obtain ⟨t, ht⟩ := hs.exists_type hx
  rw [(typeOf_iff hs hx).mpr ht, (typeOf_iff hs' hx).mpr (h x t ht)]

def Idle (s : Phys) (q : Path) : Prop := s.Leaf q ∧ ∀ c, q ∉ s.free c

/-- Pages are split. Outside of `X`, those that are idle are left alone. -/
structure Grown (X : Set Path) (s s' : Phys) : Prop where
  frames : ∀ q n, s.node q = some n → ∃ m, s'.node q = some m ∧ m.frame = n.frame
  idle : ∀ q, q ∉ X → s.Has q → Idle s q → s'.node q = s.node q ∧ Idle s' q
  currentSpace : s'.currentSpace = s.currentSpace
  kernelEnd : s'.kernelEnd = s.kernelEnd

lemma Grown.refl (X : Set Path) (s : Phys) : Grown X s s :=
  ⟨fun _ n hn => ⟨n, hn, rfl⟩, fun _ _ _ h => ⟨rfl, h⟩, rfl, rfl⟩

lemma Grown.trans (h : Grown X s s₁) (h' : Grown X s₁ s₂) : Grown X s s₂ where
  frames := fun q n hn => by
    obtain ⟨m, hm, hf⟩ := h.frames q n hn
    obtain ⟨k, hk, hf'⟩ := h'.frames q m hm
    exact ⟨k, hk, hf'.trans hf⟩
  idle := fun q hq hhas hi => by
    obtain ⟨hsame, hi₁⟩ := h.idle q hq hhas hi
    have hhas₁ : s₁.Has q := by
      unfold Phys.Has
      rwa [hsame]
    obtain ⟨hsame₂, hi₂⟩ := h'.idle q hq hhas₁ hi₁
    exact ⟨hsame₂.trans hsame, hi₂⟩
  currentSpace := h'.currentSpace.trans h.currentSpace
  kernelEnd := h'.kernelEnd.trans h.kernelEnd

lemma Grown.mono (h : Grown F s s') (hF : F ⊆ G) : Grown G s s' :=
  ⟨h.frames, fun q hq => h.idle q fun h' => hq (hF h'), h.currentSpace, h.kernelEnd⟩

lemma Grown.types (h : Grown ∅ s s') (hl : Lists F ∅ s) (hs' : Shape s') : TypesKept s s' := by
  rintro x t ⟨q, n, hn, hleaf, hc, rfl⟩
  by_cases hlisted : ∃ c, q ∈ s.free c
  · obtain ⟨c, hq⟩ := hlisted
    obtain ⟨k, hk, hst, -⟩ := hl.listed c q hq
    rw [hn] at hk
    cases hk
    obtain ⟨m, hm, hf⟩ := h.frames q n hn
    have hstate : m.state = n.state := congrArg Prod.fst hf
    have hne : m.state ≠ .partialNode := by
      rw [hstate, hst]
      decide
    obtain ⟨r, j, hj, hlr, hcr, -, hrst⟩ := hs'.exists_leaf hm hc
    exact ⟨r, j, hj, hlr, hcr, (hrst hne).trans hstate⟩
  · obtain ⟨hsame, hidle⟩ := h.idle q (Set.notMem_empty q) (has_of_node hn) ⟨hleaf, fun c hq => hlisted ⟨c, hq⟩⟩
    exact ⟨q, n, hsame.trans hn, hidle.1, hc, rfl⟩

/-- **A source of descriptors**, which may split pages to get at them. -/
structure Provides (ensure : Ensure) : Prop where
  enough : ∀ count s, count ≤ s.freeDesc → ensure count s = .ok s
  spec : ∀ ext F count s s', Inv ext F s → ensure count s = .ok s' →
    Inv ext F s' ∧ Grown ∅ s s' ∧ count ≤ s'.freeDesc

namespace Phys

def split (s : Phys) (p : Path) (n : Page) : Phys :=
  let s₁ := ({ s with freeDesc := s.freeDesc - 1 } : Phys).set (false :: p) (n.half false)
  ({ s₁ with freeDesc := s₁.freeDesc - 1 } : Phys).set (true :: p) (n.half true)

lemma split_node_half (s : Phys) (p : Path) (n : Page) (b : Bool) :
    (s.split p n).node (b :: p) = some (n.half b) := by
  cases b with
  | false => exact (set_node_ne (by simp) _).trans (set_node_self _ _ _)
  | true => exact set_node_self _ _ _

lemma split_node_other (h : ∀ b, q ≠ b :: p) (n : Page) : (s.split p n).node q = s.node q :=
  (set_node_ne (h true) _).trans (set_node_ne (h false) _)

lemma split_node_self (s : Phys) (p : Path) (n : Page) : (s.split p n).node p = s.node p :=
  split_node_other (fun b => (cons_ne_self b p).symm) n

lemma split_node_cases (h : (s.split p n).node q = some m) :
    (∃ b, q = b :: p ∧ m = n.half b) ∨ (∀ b, q ≠ b :: p) ∧ s.node q = some m := by
  by_cases hq : ∃ b, q = b :: p
  · obtain ⟨b, rfl⟩ := hq
    rw [split_node_half] at h
    exact .inl ⟨b, rfl, (Option.some.inj h).symm⟩
  · rw [not_exists] at hq
    rw [split_node_other hq] at h
    exact .inr ⟨hq, h⟩

lemma split_has_iff : (s.split p n).Has q ↔ (∃ b, q = b :: p) ∨ s.Has q := by
  by_cases hq : ∃ b, q = b :: p
  · obtain ⟨b, rfl⟩ := hq
    exact iff_of_true (has_of_node (split_node_half s p n b)) (.inl ⟨b, rfl⟩)
  · unfold Has
    rw [split_node_other (not_exists.mp hq)]
    exact ⟨.inr, fun h => h.resolve_left hq⟩

end Phys

lemma Shape.no_children_of_leaf (hs : Shape s) (hl : s.Leaf p) (c b : Bool) : ¬s.Has (c :: b :: p) :=
  fun h => leaf_iff.mp hl b (hs.parent c _ h)

lemma Shape.split_leaf_iff (hs : Shape s) (hl : s.Leaf p) :
    (s.split p n).Leaf q ↔ q ≠ p ∧ ((∃ b, q = b :: p) ∨ s.Leaf q) := by
  simp only [leaf_iff, split_has_iff, not_or, not_exists, cons.injEq]
  constructor
  · intro h
    exact ⟨fun hq => (h false).1 false ⟨rfl, hq⟩, .inr fun b => (h b).2⟩
  · rintro ⟨hne, hq⟩ b
    refine ⟨fun c hc => hne hc.2, ?_⟩
    rcases hq with ⟨c, rfl⟩ | hq
    · exact hs.no_children_of_leaf hl b c
    · exact hq b

lemma Shape.split (hs : Shape s) (hn : s.node p = some n) (hl : s.Leaf p) (hcls : n.cls ≠ 0) :
    Shape (s.split p n) := by
  have hplace := hs.place p n hn
  constructor
  · exact split_has_iff.mpr (.inr hs.root)
  · intro b q hq
    rw [split_has_iff] at hq ⊢
    rcases hq with ⟨c, hc⟩ | hq
    · rw [(cons.inj hc).2]
      exact .inr (has_of_node hn)
    · exact .inr (hs.parent b q hq)
  · intro b q hq
    rw [split_has_iff] at hq ⊢
    rcases hq with ⟨c, hc⟩ | hq
    · rw [(cons.inj hc).2]
      exact .inl ⟨_, rfl⟩
    · exact .inr (hs.buddy b q hq)
  · intro q m hm
    rcases split_node_cases hm with ⟨b, rfl, rfl⟩ | ⟨-, hm⟩
    · rw [length_cons, start, ← hplace.2, Page.half]
      have hle : n.cls - 1 = maxClass - (p.length + 1) := by omega
      dsimp only
      rw [hle]
      exact ⟨by omega, rfl⟩
    · exact hs.place q m hm
  · intro b q k m hk hne hm
    rcases split_node_cases hm with ⟨c, hc, rfl⟩ | ⟨hnot, hm⟩
    · obtain ⟨-, rfl⟩ := cons.inj hc
      rw [split_node_self, hn] at hk
      cases hk
      rfl
    · rcases split_node_cases hk with ⟨c, rfl, rfl⟩ | ⟨-, hk⟩
      · exact absurd (has_of_node hm) (hs.no_children_of_leaf hl b c)
      · exact hs.uniform b q k m hk hne hm

lemma Counted.split (hc : Counted d s) (hs : Shape s) (hn : s.node p = some n) (hl : s.Leaf p) :
    Counted d (s.split p n) := by
  refine ⟨?_, ?_, ?_, hc.bound⟩
  · intro m hm
    exact hc.root m hm
  · intro b q k m _ hk hm
    rcases split_node_cases hm with ⟨c, hcq, rfl⟩ | ⟨hnot, hm⟩
    · obtain ⟨rfl, rfl⟩ := cons.inj hcq
      rw [split_node_self, hn] at hk
      cases hk
      -- nothing refers to a page that is not there
      have hzero : d (b :: q) = 0 := by
        by_contra h
        exact leaf_iff.mp hl b (hc.present _ (pos_of_ne_zero h))
      rw [hzero, Page.half]
      split <;> rfl
    · rcases split_node_cases hk with ⟨c, rfl, rfl⟩ | ⟨-, hk⟩
      · exact absurd (has_of_node hm) (hs.no_children_of_leaf hl b c)
      · exact hc.below b q k m nil_suffix hk hm
  · exact fun q hq => split_has_iff.mpr (.inr (hc.present q hq))

lemma types_split (hs : Shape s) (hn : s.node p = some n) (hl : s.Leaf p) (hcls : n.cls ≠ 0) :
    TypesKept s (s.split p n) := by
  rintro x t ⟨q, m, hm, hlq, hc, rfl⟩
  by_cases hq : q = p
  · subst hq
    rw [hn] at hm
    cases hm
    have := (hs.place q n hn).1
    obtain ⟨b, hb⟩ := covers_half (by omega) hc
    refine ⟨b :: q, n.half b, split_node_half _ _ _ _, ?_, hb, rfl⟩
    exact (hs.split_leaf_iff hl).mpr ⟨cons_ne_self b q, .inl ⟨b, rfl⟩⟩
  · refine ⟨q, m, ?_, (hs.split_leaf_iff hl).mpr ⟨hq, .inr hlq⟩, hc, rfl⟩
    rw [split_node_other, hm]
    rintro b rfl
    rw [hl b] at hm
    cases hm

/-- The children are there: a free page hands its place in the lists to the half that is not looked up. -/
def Phys.divide (s : Phys) (p : Path) (n : Page) (right : Bool) : Phys :=
  if s.Leaf p then
    if n.state = .allocatable ∧ n.refc = 0 then
      ((s.split p n).listDel p).push (n.cls - 1) ((!right) :: p)
    else s.split p n
  else s

lemma Lists.divide (h : Lists (insert p F) ∅ s) (hs : Shape s) (hn : s.node p = some n) :
    Lists (insert (right :: p) F) ∅ (s.divide p n right) := by
  unfold Phys.divide
  by_cases hl : s.Leaf p
  swap
  · rw [if_neg hl]
    exact (h.drop fun _ _ _ _ => hl).mono (Set.subset_insert _ _) (subset_refl _)
  rw [if_pos hl]
  have hchild : ∀ c b, b :: p ∉ s.free c := by
    intro c b hb
    obtain ⟨m, hm, -⟩ := h.listed c _ hb
    rw [hl b] at hm
    cases hm
  -- the other pages of the lists stay what they are
  have hold : ∀ c q, q ∈ s.free c → q ≠ p → ∃ m, (s.split p n).node q = some m ∧
      m.state = .allocatable ∧ m.cls = c ∧ (s.split p n).Leaf q ∧ (q ∉ (∅ : Set Path) → m.refc = 0) := by
    intro c q hq hqp
    obtain ⟨m, hm, hst, hc, hlq, hr⟩ := h.listed c q hq
    refine ⟨m, ?_, hst, hc, (hs.split_leaf_iff hl).mpr ⟨hqp, .inr hlq⟩, hr⟩
    rw [split_node_other, hm]
    rintro b rfl
    exact hchild c b hq
  have hrest : ∀ q m, (s.split p n).node q = some m → m.state = .allocatable → m.refc = 0 →
      (s.split p n).Leaf q → q ∉ insert (right :: p) F →
      q = (!right) :: p ∧ m = n.half (!right) ∨ q ≠ p ∧ q ∈ s.free m.cls := by
    intro q m hm hst hr hlq hF
    obtain ⟨hqp, hlq⟩ := (hs.split_leaf_iff hl).mp hlq
    rcases split_node_cases hm with ⟨b, rfl, rfl⟩ | ⟨hnot, hm⟩
    · have hb : b = !right := by
        have hne : b ≠ right := fun hb => hF (.inl (by rw [hb]))
        cases b <;> cases right <;> simp at hne ⊢
      rw [hb]
      exact .inl ⟨rfl, rfl⟩
    · refine .inr ⟨hqp, h.complete q m hm hst hr ?_ ?_ (Set.notMem_empty q)⟩
      · exact hlq.resolve_left fun ⟨b, hb⟩ => hnot b hb
      · exact fun hq => hq.elim hqp fun hq => hF (.inr hq)
  by_cases hfree : n.state = .allocatable ∧ n.refc = 0
  · rw [if_pos hfree]
    constructor
    · refine push_nodup (fun c => (h.nodup c).filter _) fun hp => ?_
      exact hchild _ _ (mem_listDel_free.mp hp).1
    · intro c q hq
      rcases mem_push_free.mp hq with ⟨rfl, rfl⟩ | hq
      · refine ⟨n.half (!right), split_node_half _ _ _ _, hfree.1, rfl, ?_, fun _ => ?_⟩
        · exact (hs.split_leaf_iff hl).mpr ⟨cons_ne_self _ p, .inl ⟨_, rfl⟩⟩
        · exact if_pos hfree.2
      · obtain ⟨hq, hqp⟩ := mem_listDel_free.mp hq
        exact hold c q hq hqp
    · intro q m hm hst hr hlq hF _
      rw [mem_push_free]
      rcases hrest q m hm hst hr hlq hF with ⟨rfl, rfl⟩ | ⟨hqp, hq⟩
      · exact .inl ⟨rfl, rfl⟩
      · exact .inr (mem_listDel_free.mpr ⟨hq, hqp⟩)
  · rw [if_neg hfree]
    have hp : ∀ c, p ∉ s.free c := by
      intro c hp
      obtain ⟨m, hm, hst, -, -, hr⟩ := h.listed c p hp
      rw [hn] at hm
      cases hm
      exact hfree ⟨hst, hr (Set.notMem_empty p)⟩
    constructor
    · exact h.nodup
    · exact fun c q hq => hold c q hq fun hqp => hp c (hqp ▸ hq)
    · intro q m hm hst hr hlq hF _
      rcases hrest q m hm hst hr hlq hF with ⟨rfl, rfl⟩ | ⟨-, hq⟩
      · refine absurd ⟨hst, ?_⟩ hfree
        by_contra h0
        rw [Page.half, if_neg h0] at hr
        cases hr
      · exact hq

lemma Phys.divide_eq (s : Phys) (p : Path) (n : Page) (right : Bool) :
    (s.divide p n right).node = (if s.Leaf p then s.split p n else s).node ∧ (s.divide p n right).pools = s.pools ∧
      (s.divide p n right).currentSpace = s.currentSpace ∧
      (s.divide p n right).kernelEnd = s.kernelEnd := by
  unfold divide
  split
  · split
    all_goals exact ⟨rfl, rfl, rfl, rfl⟩
  · exact ⟨rfl, rfl, rfl, rfl⟩

lemma Phys.divide_node_of_has (hq : s.Has q) : (s.divide p n right).node q = s.node q := by
  rw [(s.divide_eq p n right).1]
  split
  · next hl =>
    refine split_node_other ?_ n
    rintro b rfl
    exact leaf_iff.mp hl b hq
  · rfl

lemma Phys.divide_has_half (hs : Shape s) (b : Bool) : (s.divide p n right).Has (b :: p) := by
  unfold Phys.Has
  rw [(s.divide_eq p n right).1]
  split
  · exact has_of_node (split_node_half s p n b)
  · next hl => exact hs.not_leaf_iff.mp hl b

lemma Phys.divide_leaf_iff (hs : Shape s) (hq : ¬p <:+ q) : (s.divide p n right).Leaf q ↔ s.Leaf q := by
  have hqp : q ≠ p := ne_of_not_suffix hq
  unfold Phys.Leaf
  rw [(s.divide_eq p n right).1]
  split
  · next hl =>
    refine (hs.split_leaf_iff hl).trans ⟨fun h => h.2.resolve_left ?_, fun h => ⟨hqp, .inr h⟩⟩
    rintro ⟨b, rfl⟩
    exact hq (suffix_cons b p)
  · rfl

lemma Phys.mem_divide_free {c : ℕ} (hq : ¬p <:+ q) (h : q ∈ (s.divide p n right).free c) : q ∈ s.free c := by
  unfold divide at h
  split at h
  · split at h
    · rcases mem_push_free.mp h with ⟨rfl, -⟩ | h
      · exact absurd (suffix_cons _ p) hq
      · exact (mem_listDel_free.mp h).1
    · exact h
  · exact h

lemma Inv.divide (h : Inv ext (insert p F) s) (hn : s.node p = some n) (hcls : n.cls ≠ 0) :
    Inv ext (insert (right :: p) F) (s.divide p n right) := by
  obtain ⟨hnode, hpools, -⟩ := s.divide_eq p n right
  refine ⟨?_, h.lists.divide h.shape hn, ?_⟩
  · refine Shape.congr (s := if s.Leaf p then s.split p n else s) ?_ fun q => by rw [hnode]
    split
    · next hl => exact h.shape.split hn hl hcls
    · exact h.shape
  · rw [direct_congr ext hpools]
    have hc : Counted (direct ext s) (if s.Leaf p then s.split p n else s) := by
      split
      · next hl => exact h.counted.split h.shape hn hl
      · exact h.counted
    exact hc.of_node hnode

lemma Grown.divide (hs : Shape s) : Grown {q | p <:+ q} s (s.divide p n right) where
  frames := fun _ m hm => ⟨m, (divide_node_of_has (has_of_node hm)).trans hm, rfl⟩
  idle := fun _ hq hhas hi =>
    ⟨divide_node_of_has hhas, (divide_leaf_iff hs hq).mpr hi.1, fun c hc => hi.2 c (mem_divide_free hq hc)⟩
  currentSpace := (s.divide_eq p n right).2.2.1
  kernelEnd := (s.divide_eq p n right).2.2.2

lemma types_divide (hs : Shape s) (hn : s.node p = some n) (hcls : n.cls ≠ 0) : TypesKept s (s.divide p n right) := by
  have hsplit : TypesKept s (if s.Leaf p then s.split p n else s) := by
    split
    · next hl => exact types_split hs hn hl hcls
    · exact TypesKept.refl s
  intro x t hx
  obtain ⟨q, m, hm, hl, hc, hst⟩ := hsplit x t hx
  have hnode := (s.divide_eq p n right).1
  exact ⟨q, m, by rw [hnode, hm], fun b => by rw [hnode]; exact hl b, hc, hst⟩

lemma idle_divide (h : Inv ext F s) (hi : Idle s p) (n : Page) (right : Bool) :
    (s.divide p n right).node (right :: p) = some (n.half right) ∧ Idle (s.divide p n right) (right :: p) := by
  have hnode : (s.divide p n right).node = (s.split p n).node := by
    rw [(s.divide_eq p n right).1, if_pos hi.1]
  refine ⟨by rw [hnode, split_node_half], fun b => ?_, fun c hc => ?_⟩
  · rw [hnode]
    exact (h.shape.split_leaf_iff hi.1).mpr ⟨cons_ne_self _ p, .inl ⟨_, rfl⟩⟩ b
  · have hnot : ∀ k, right :: p ∉ s.free k := by
      intro k hk
      obtain ⟨m, hm, -⟩ := h.lists.listed k _ hk
      rw [hi.1 right] at hm
      cases hm
    unfold divide at hc
    rw [if_pos hi.1] at hc
    split at hc
    · rcases mem_push_free.mp hc with ⟨heq, -⟩ | hc
      · cases right <;> cases (cons.inj heq).1
      · exact hnot c (mem_listDel_free.mp hc).1
    · exact hnot c hc

lemma needChild_absent (he : Provides ensure) (hn : s.node p = some n) (hcls : n.cls ≠ 0)
    (hnone : s.node (b :: p) = none) (hdesc : 1 ≤ s.freeDesc) :
    needChild ensure s p b =
      .ok (({ s with freeDesc := s.freeDesc - 1 } : Phys).set (b :: p) (n.half b)) := by
  have hderef : s.deref p = .ok n := deref_eq_ok.mpr hn
  rw [needChild, if_pos hnone, allocChild, hderef, ok_bind, if_neg hcls, allocDescriptor, he.enough 1 s hdesc]
  simp only [ok_bind]
  rw [show deref { s with freeDesc := s.freeDesc - 1 } p = .ok n from hderef, ok_bind]

lemma needChild_present (h : s.Has (b :: p)) : needChild ensure s p b = .ok s := if_neg h

lemma children_eq (he : Provides ensure) (hs : Shape s) (hn : s.node p = some n) (hcls : n.cls ≠ 0)
    (hdesc : 2 ≤ s.freeDesc) (h₁ : needChild ensure s p false = .ok s₁)
    (h₂ : needChild ensure s₁ p true = .ok s₂) : s₂ = if s.Leaf p then s.split p n else s := by
  by_cases hl : s.Leaf p
  · rw [if_pos hl]
    rw [needChild_absent he hn hcls (hl false) (by omega)] at h₁
    have hs₁ := (ok.inj h₁).symm
    have hn₁ : s₁.node p = some n := by
      rw [hs₁]
      exact (set_node_ne (cons_ne_self false p).symm _).trans hn
    have hnone : s₁.node (true :: p) = none := by
      rw [hs₁]
      exact (set_node_ne (by simp) _).trans (hl true)
    have hdesc₁ : 1 ≤ s₁.freeDesc := by
      rw [hs₁, set_freeDesc]
      dsimp only
      omega
    rw [needChild_absent he hn₁ hcls hnone hdesc₁] at h₂
    rw [← ok.inj h₂, hs₁]
    rfl
  · rw [if_neg hl]
    have hall := hs.not_leaf_iff.mp hl
    rw [needChild_present (hall false)] at h₁
    cases h₁
    rw [needChild_present (hall true)] at h₂
    exact (ok.inj h₂).symm

def Phys.retype (s : Phys) (type : PageState) (p : Path) (n : Page) : Phys :=
  if type ≠ .partialNode ∧ n.state ≠ type then s.set p { n with state := .partialNode } else s

lemma lookupStep_inv (he : Provides ensure) (hi : Inv ext F s) (hn : s.node p = some n)
    (hcls : n.cls ≠ 0) (h : lookupStep ensure type addr cls s p = .ok r) :
    ∃ s₁ n₁, ensure ((n.cls - cls + 1) * 2) s = .ok s₁ ∧ s₁.node p = some n₁ ∧
      r = ((s₁.divide p n₁ (addr.testBit (n.cls - 1 + classBase))).retype type p n₁,
        addr.testBit (n.cls - 1 + classBase) :: p) := by
  obtain ⟨n', hn', h⟩ := bind_eq_ok.mp h
  rw [deref_eq_ok, hn] at hn'
  cases hn'
  obtain ⟨s₁, hs₁, h⟩ := bind_eq_ok.mp h
  obtain ⟨n₁, hn₁, h⟩ := bind_eq_ok.mp h
  rw [deref_eq_ok] at hn₁
  obtain ⟨hi₁, hg₁, hdesc⟩ := he.spec ext F _ _ _ hi hs₁
  obtain ⟨m, hm, hf⟩ := hg₁.frames p n hn
  rw [hn₁] at hm
  cases hm
  have hcls₁ : n₁.cls = n.cls := congrArg (fun f => f.2.1) hf
  refine ⟨s₁, n₁, hs₁, hn₁, ?_⟩
  obtain ⟨t₁, ht₁, h⟩ := bind_eq_ok.mp h
  obtain ⟨t₂, ht₂, h⟩ := bind_eq_ok.mp h
  have ht := children_eq he hi₁.shape hn₁ (by rw [hcls₁]; exact hcls) (by omega) ht₁ ht₂
  obtain ⟨t₃, ht₃, h⟩ := bind_eq_ok.mp h
  replace h := then_ok h
  cases h
  have hdiv : t₃ = s₁.divide p n₁ (addr.testBit (n.cls - 1 + classBase)) := by
    unfold divide
    have hfree : s₁.IsFree p ↔ n₁.refc = 0 ∧ s₁.Leaf p := by
      simp [Phys.IsFree, hn₁]
    by_cases hl : s₁.Leaf p
    · rw [if_pos hl] at ht ⊢
      by_cases hw : n₁.state = .allocatable ∧ n₁.refc = 0
      · rw [if_pos ⟨hw.1, hfree.mpr ⟨hw.2, hl⟩⟩] at ht₃
        obtain ⟨o, -, ht₃⟩ := bind_eq_ok.mp ht₃
        replace ht₃ := then_ok ht₃
        rw [if_pos hw, ← ht]
        exact (listAppend_eq_ok.mp ht₃).2
      · rw [if_neg fun hc => hw ⟨hc.1, (hfree.mp hc.2).1⟩] at ht₃
        rw [if_neg hw, ← ht]
        exact (ok.inj ht₃).symm
    · rw [if_neg hl] at ht ⊢
      rw [if_neg fun hc => hl (hfree.mp hc.2).2] at ht₃
      rw [← ht]
      exact (ok.inj ht₃).symm
  rw [hdiv]
  rfl

def frameOf (addr : ℕ) : ℕ := addr / 2 ^ classBase

lemma testBit_frameOf (addr k : ℕ) : (frameOf addr).testBit k = addr.testBit (k + classBase) :=
  testBit_div_two_pow addr k

def OnWay (addr : ℕ) (p : Path) : Prop := p = toward maxClass (frameOf addr) p.length

/-- What a look-up without a type does, `k` classes below the page it begins with. -/
structure LookedUp (ext : Path → ℕ) (F : Set Path) (addr : ℕ) (hint : Path) (k : ℕ) (s : Phys)
    (r : Phys × Path) : Prop where
  inv : Inv ext (insert r.2 F) r.1
  grown : Grown {q | hint <:+ q} s r.1
  types : TypesKept s r.1
  below : hint <:+ r.2
  length : r.2.length = hint.length + k
  has : r.1.Has r.2
  way : OnWay addr hint → OnWay addr r.2
  -- an idle page is split into idle ones
  idle : ∀ n, s.node hint = some n → Idle s hint →
    ∃ m, r.1.node r.2 = some m ∧ Idle r.1 r.2 ∧ m.state = n.state ∧ (n.refc = 0 → m.refc = 0)

lemma LookedUp.refl (h : Inv ext (insert p F) s) (hp : s.Has p) : LookedUp ext F addr p 0 s (s, p) where
  inv := h
  grown := Grown.refl _ _
  types := TypesKept.refl s
  below := suffix_refl p
  length := rfl
  has := hp
  way := id
  idle := fun n hn hi => ⟨n, hn, hi, rfl, id⟩

lemma LookedUp.trans {k j : ℕ} {r' : Phys × Path} (h : LookedUp ext F addr p k s r)
    (h' : LookedUp ext F addr r.2 j r.1 r') : LookedUp ext F addr p (k + j) s r' where
  inv := h'.inv
  grown := h.grown.trans (h'.grown.mono fun _ hq => h.below.trans hq)
  types := h.types.trans h'.types
  below := h.below.trans h'.below
  length := by rw [h'.length, h.length, add_assoc]
  has := h'.has
  way := fun hw => h'.way (h.way hw)
  idle := fun n hn hi => by
    obtain ⟨m, hm, hi₁, hst, hr⟩ := h.idle n hn hi
    obtain ⟨k, hk, hi₂, hst', hr'⟩ := h'.idle m hm hi₁
    exact ⟨k, hk, hi₂, hst'.trans hst, fun h0 => hr' (hr h0)⟩

/-- **One round**: the page is split, if it has no children yet. -/
lemma lookupStep_spec (he : Provides ensure) (hi : Inv ext (insert p F) s) (hn : s.node p = some n)
    (hcls : n.cls ≠ 0) (h : lookupStep ensure .partialNode addr cls s p = .ok r) :
    LookedUp ext F addr p 1 s r := by
  obtain ⟨s₁, n₁, hs₁, hn₁, rfl⟩ := lookupStep_inv he hi hn hcls h
  obtain ⟨hi₁, hg₁, -⟩ := he.spec _ _ _ _ _ hi hs₁
  obtain ⟨m, hm, hf⟩ := hg₁.frames p n hn
  rw [hn₁] at hm
  cases hm
  have hcls₁ : n₁.cls = n.cls := congrArg (fun f => f.2.1) hf
  have hne : n₁.cls ≠ 0 := by rwa [hcls₁]
  set right := addr.testBit (n.cls - 1 + classBase) with hright
  refine ⟨hi₁.divide hn₁ hne, (hg₁.mono (Set.empty_subset _)).trans (Grown.divide hi₁.shape),
    (hg₁.types hi.lists hi₁.shape).trans (types_divide hi₁.shape hn₁ hne), suffix_cons _ _, rfl,
    divide_has_half hi₁.shape _, fun hw => ?_, fun k hk hidle => ?_⟩
  · have hplace := (hi.shape.place p n hn).1
    rw [OnWay, length_cons, toward, ← hw, testBit_frameOf, hright]
    rw [show maxClass - (p.length + 1) = n.cls - 1 by omega]
  · rw [hn] at hk
    cases hk
    obtain ⟨hsame, hidle₁⟩ := hg₁.idle p (Set.notMem_empty p) (has_of_node hn) hidle
    rw [hn, hn₁] at hsame
    cases hsame
    obtain ⟨hhalf, hidle₂⟩ := idle_divide hi₁ hidle₁ n right
    exact ⟨_, hhalf, hidle₂, rfl, fun h0 => if_pos h0⟩

lemma lookupLoop_spec {k : ℕ} (he : Provides ensure) (hi : Inv ext (insert p F) s)
    (hn : s.node p = some n) (hk : k ≤ n.cls)
    (h : lookupLoop ensure .partialNode addr cls k s p = .ok r) : LookedUp ext F addr p k s r := by
  induction k generalizing s p n with
  | zero =>
    cases h
    exact LookedUp.refl hi (has_of_node hn)
  | succ k ih =>
    obtain ⟨r₁, h₁, h⟩ := bind_eq_ok.mp h
    have hone := lookupStep_spec he hi hn (by omega) h₁
    obtain ⟨m, hm⟩ := has_iff.mp hone.has
    have hplace := (hi.shape.place p n hn).1
    have hplace' := (hone.inv.shape.place _ m hm).1
    have hlen := hone.length
    rw [add_comm k 1]
    exact hone.trans (ih hone.inv hm (by omega) h)

/-- **`page_lookup`** with `alloc` and no type. -/
theorem pageLookup_spec (he : Provides ensure) (hi : Inv ext (insert p F) s) (hn : s.node p = some n)
    (h : pageLookup ensure .partialNode s p addr cls = .ok r) :
    LookedUp ext F addr p (n.cls - cls) s r ∧ addr % classSize cls = 0 := by
  obtain ⟨n', hn', h⟩ := bind_eq_ok.mp h
  rw [deref_eq_ok, hn] at hn'
  cases hn'
  obtain ⟨_, halign, h⟩ := bind_eq_ok.mp h
  obtain ⟨r₁, h₁, h⟩ := bind_eq_ok.mp h
  rw [if_pos rfl, ok_bind] at h
  obtain ⟨m, -, h⟩ := bind_eq_ok.mp h
  replace h := then_ok h
  cases h
  exact ⟨lookupLoop_spec he hi hn (sub_le _ _) h₁, assert_eq_ok.mp halign⟩

lemma lookupStep_present (he : Provides ensure) (hn : s.node p = some n) (hall : ∀ b, s.Has (b :: p))
    (hdesc : (n.cls - cls + 1) * 2 ≤ s.freeDesc) :
    lookupStep ensure .partialNode addr cls s p =
      .ok (s, addr.testBit (n.cls - 1 + classBase) :: p) := by
  have hderef : s.deref p = .ok n := deref_eq_ok.mpr hn
  have hleaf : ¬s.Leaf p := fun hl => leaf_iff.mp hl false (hall false)
  have hfree : ¬(n.state = .allocatable ∧ s.IsFree p) := fun h => hleaf h.2.2
  unfold lookupStep
  rw [hderef, ok_bind]
  dsimp only
  rw [he.enough _ _ hdesc, ok_bind, hderef, ok_bind, needChild_present (hall false), ok_bind,
    needChild_present (hall true), ok_bind, if_neg hfree, ok_bind, if_neg fun h => h.1 rfl]
  rw [show assert .pageLookup (∀ b, s.node (b :: p) ≠ none) = .ok () from if_pos hall, ok_bind]

end Jos.PmapModel
