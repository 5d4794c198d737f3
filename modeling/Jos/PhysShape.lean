import Jos.PmapModel

/-!
The shape of the physical tree, and what the lists and the counters say about it.

Every page has both halves or none. The free lists hold the allocatable pages without children that
are not referenced. A page counts the references to itself, and one more while the page it is a half
of is referenced.
-/

namespace Jos.PmapModel

open Jos.Dyadic List Function Phys

lemma classSize_pos (c : ℕ) : 0 < classSize c := Nat.two_pow_pos _

def Page.frame (n : Page) : PageState × ℕ × ℕ := (n.state, n.cls, n.addr)

namespace Phys

variable {s s' : Phys} {p q : Path} {n : Page} {c : ℕ}

def Has (s : Phys) (p : Path) : Prop := s.node p ≠ none

lemma has_iff : s.Has p ↔ ∃ n, s.node p = some n := Option.ne_none_iff_exists'

lemma has_of_node (h : s.node p = some n) : s.Has p := has_iff.mpr ⟨n, h⟩

lemma deref_eq_ok : s.deref p = .ok n ↔ s.node p = some n := by
  unfold deref
  cases s.node p with
  | none => exact iff_of_false nofun nofun
  | some m => exact ⟨fun h => by cases h; rfl, fun h => by cases h; rfl⟩

@[simp] lemma set_node_self (s : Phys) (p : Path) (n : Page) : (s.set p n).node p = some n := update_self _ _ _

lemma set_node_ne (h : q ≠ p) (n : Page) : (s.set p n).node q = s.node q := update_of_ne h _ _

@[simp] lemma set_free (s : Phys) (p : Path) (n : Page) : (s.set p n).free = s.free := rfl
@[simp] lemma set_maps (s : Phys) (p : Path) (n : Page) : (s.set p n).maps = s.maps := rfl
@[simp] lemma set_freeDesc (s : Phys) (p : Path) (n : Page) : (s.set p n).freeDesc = s.freeDesc := rfl
@[simp] lemma set_pools (s : Phys) (p : Path) (n : Page) : (s.set p n).pools = s.pools := rfl

@[simp] lemma listDel_node (s : Phys) (p : Path) : (s.listDel p).node = s.node := rfl
@[simp] lemma listDel_freeDesc (s : Phys) (p : Path) : (s.listDel p).freeDesc = s.freeDesc := rfl
@[simp] lemma listDel_pools (s : Phys) (p : Path) : (s.listDel p).pools = s.pools := rfl

lemma mem_listDel_free : q ∈ (s.listDel p).free c ↔ q ∈ s.free c ∧ q ≠ p := by
  simp [listDel]

def push (s : Phys) (c : ℕ) (p : Path) : Phys :=
  { s with free := Function.update s.free c (p :: s.free c) }

@[simp] lemma push_node (s : Phys) (c : ℕ) (p : Path) : (s.push c p).node = s.node := rfl
@[simp] lemma push_pools (s : Phys) (c : ℕ) (p : Path) : (s.push c p).pools = s.pools := rfl

lemma mem_push_free {k : ℕ} : q ∈ (s.push c p).free k ↔ (q = p ∧ k = c) ∨ q ∈ s.free k := by
  unfold push
  dsimp only
  by_cases hk : k = c
  · rw [hk, update_self, mem_cons]
    simp
  · rw [update_of_ne hk]
    simp [hk]

lemma push_nodup (h : ∀ k, (s.free k).Nodup) (hp : p ∉ s.free c) (k : ℕ) : ((s.push c p).free k).Nodup := by
  unfold push
  dsimp only
  by_cases hk : k = c
  · rw [hk, update_self, nodup_cons]
    exact ⟨hp, h c⟩
  · rw [update_of_ne hk]
    exact h k

lemma listAppend_eq_ok : s.listAppend c p = .ok s' ↔ c < maxClass ∧ s' = s.push c p := by
  unfold listAppend
  split
  · rename_i h
    exact ⟨fun h' => ⟨h, (Except.ok.inj h').symm⟩, fun h' => by rw [h'.2]; rfl⟩
  · rename_i h
    exact ⟨nofun, fun h' => absurd h'.1 h⟩

lemma freeDescriptor_node_self (s : Phys) (p : Path) : (s.freeDescriptor p).node p = none := update_self _ _ _

lemma freeDescriptor_node_ne (h : q ≠ p) : (s.freeDescriptor p).node q = s.node q := update_of_ne h _ _

@[simp] lemma freeDescriptor_pools (s : Phys) (p : Path) : (s.freeDescriptor p).pools = s.pools := rfl

lemma set_has_iff (h : s.Has p) (n : Page) : (s.set p n).Has q ↔ s.Has q := by
  by_cases hq : q = p
  · rw [hq]
    exact iff_of_true (has_of_node (set_node_self s p n)) h
  · unfold Has
    rw [set_node_ne hq]

lemma leaf_iff : s.Leaf p ↔ ∀ b, ¬s.Has (b :: p) := by
  unfold Leaf Has
  simp only [not_not]

lemma set_leaf_iff (h : s.Has p) (n : Page) : (s.set p n).Leaf q ↔ s.Leaf q := by
  simp only [leaf_iff, set_has_iff h]

end Phys

lemma assert_eq_ok {site : Site} {P : Prop} [Decidable P] {u : Unit} : assert site P = .ok u ↔ P := by
  unfold assert
  split
  · exact iff_of_true rfl ‹P›
  · exact iff_of_false nofun ‹¬P›

structure Shape (s : Phys) : Prop where
  root : s.Has []
  parent : ∀ b p, s.Has (b :: p) → s.Has p
  buddy : ∀ b p, s.Has (b :: p) → s.Has ((!b) :: p)
  place : ∀ p n, s.node p = some n → n.cls + p.length = maxClass ∧ n.addr = start maxClass p
  -- only pages of mixed memory have children of another type
  uniform : ∀ b p n m, s.node p = some n → n.state ≠ .partialNode → s.node (b :: p) = some m →
    m.state = n.state

variable {s s' : Phys} {p q : Path} {b : Bool} {n m : Page}

section

variable (h : Shape s)
include h

lemma Shape.length_le (hp : s.Has p) : p.length ≤ maxClass := by
  obtain ⟨n, hn⟩ := has_iff.mp hp
  have := (h.place p n hn).1
  omega

lemma Shape.has_of_suffix (hq : s.Has q) (hpq : p <:+ q) : s.Has p := by
  induction q with
  | nil =>
    rw [suffix_nil.mp hpq]
    exact hq
  | cons b q ih =>
    rcases suffix_cons_iff.mp hpq with rfl | hpq
    · exact hq
    · exact ih (h.parent b q hq) hpq

lemma Shape.not_leaf_iff : ¬s.Leaf p ↔ ∀ b, s.Has (b :: p) := by
  rw [leaf_iff]
  constructor
  · intro hn b
    obtain ⟨c, hc⟩ := not_forall_not.mp hn
    by_cases hbc : b = c
    · rwa [hbc]
    · have := h.buddy c p hc
      rwa [show (!c) = b by cases b <;> cases c <;> simp_all] at this
  · exact fun hall hn => hn false (hall false)

lemma Shape.eq_of_leaf (hl : s.Leaf p) (hq : s.Has q) (hpq : p <:+ q) : q = p := by
  rcases suffix_cases hpq with rfl | ⟨b, hb⟩
  · rfl
  · exact absurd (h.has_of_suffix hq hb) (leaf_iff.mp hl b)

lemma Shape.congr (hs : ∀ p, (s'.node p).map Page.frame = (s.node p).map Page.frame) : Shape s' := by
  have hhas : ∀ p, s'.Has p ↔ s.Has p := by
    intro p
    have := hs p
    unfold Phys.Has
    cases h1 : s'.node p <;> cases h2 : s.node p <;> simp_all
  have hnode : ∀ p n, s'.node p = some n → ∃ m, s.node p = some m ∧ m.frame = n.frame := by
    intro p n hn
    have := hs p
    rw [hn] at this
    cases h2 : s.node p with
    | none => rw [h2] at this; cases this
    | some m => exact ⟨m, rfl, by rw [h2] at this; exact (Option.some.inj this).symm⟩
  constructor
  · exact (hhas _).mpr h.root
  · exact fun b p hb => (hhas p).mpr (h.parent b p ((hhas _).mp hb))
  · exact fun b p hb => (hhas _).mpr (h.buddy b p ((hhas _).mp hb))
  · intro p n hn
    obtain ⟨m, hm, hf⟩ := hnode p n hn
    simp only [Page.frame, Prod.mk.injEq] at hf
    rw [← hf.2.1, ← hf.2.2]
    exact h.place p m hm
  · intro b p n m hn hne hm
    obtain ⟨n', hn', hf⟩ := hnode p n hn
    obtain ⟨m', hm', hf'⟩ := hnode _ m hm
    simp only [Page.frame, Prod.mk.injEq] at hf hf'
    rw [← hf.1, ← hf'.1]
    exact h.uniform b p n' m' hn' (by rwa [hf.1]) hm'

lemma Shape.remove (hl : ∀ b, s.Leaf (b :: p))
    (hs : ∀ q, s'.node q = if ∃ b, q = b :: p then none else s.node q) : Shape s' := by
  have hsub : ∀ q n, s'.node q = some n → s.node q = some n ∧ ∀ b, q ≠ b :: p := by
    intro q n hn
    rw [hs] at hn
    split at hn
    · cases hn
    · rename_i hq
      exact ⟨hn, fun b hb => hq ⟨b, hb⟩⟩
  have hkeep : ∀ q, (∀ b, q ≠ b :: p) → s.Has q → s'.Has q := by
    intro q hq hhas
    unfold Phys.Has
    rw [hs, if_neg fun ⟨b, hb⟩ => hq b hb]
    exact hhas
  constructor
  · exact hkeep _ (fun b => nofun) h.root
  · intro b q hq
    obtain ⟨m, hm⟩ := has_iff.mp hq
    obtain ⟨hm, -⟩ := hsub _ m hm
    refine hkeep q (fun c hc => ?_) (h.parent b q (has_of_node hm))
    rw [hc] at hm
    rw [hl c b] at hm
    cases hm
  · intro b q hq
    obtain ⟨m, hm⟩ := has_iff.mp hq
    obtain ⟨hm, hne⟩ := hsub _ m hm
    refine hkeep _ (fun c hc => hne b ?_) (h.buddy b q (has_of_node hm))
    rw [(cons.inj hc).2]
  · exact fun q n hn => h.place q n (hsub q n hn).1
  · exact fun b q n m hn hne hm => h.uniform b q n m (hsub q n hn).1 hne (hsub _ m hm).1

end

/-- The free lists. The pages of `F` may be missing; those of `G` may be missing, or listed while still
referenced. -/
structure Lists (F G : Set Path) (s : Phys) : Prop where
  nodup : ∀ c, (s.free c).Nodup
  listed : ∀ c p, p ∈ s.free c → ∃ n, s.node p = some n ∧ n.state = .allocatable ∧ n.cls = c ∧
    s.Leaf p ∧ (p ∉ G → n.refc = 0)
  complete : ∀ p n, s.node p = some n → n.state = .allocatable → n.refc = 0 → s.Leaf p →
    p ∉ F → p ∉ G → p ∈ s.free n.cls

variable {F F' G G' : Set Path}

lemma Lists.mono (h : Lists F G s) (hF : F ⊆ F') (hG : G ⊆ G') : Lists F' G' s where
  nodup := h.nodup
  listed := fun c p hp => by
    obtain ⟨n, hn, hst, hc, hl, hr⟩ := h.listed c p hp
    exact ⟨n, hn, hst, hc, hl, fun hG' => hr fun hG'' => hG' (hG hG'')⟩
  complete := fun p n hn hst hr hl hF' hG' =>
    h.complete p n hn hst hr hl (fun h => hF' (hF h)) (fun h => hG' (hG h))

lemma Lists.drop (h : Lists (insert p F) G s)
    (hp : ∀ n, s.node p = some n → n.state = .allocatable → n.refc = 0 → ¬s.Leaf p) :
    Lists F G s where
  nodup := h.nodup
  listed := h.listed
  complete := fun q n hn hst hr hl hF hG => by
    refine h.complete q n hn hst hr hl (fun hq => ?_) hG
    rcases hq with rfl | hq
    · exact hp n hn hst hr hl
    · exact hF hq

lemma Lists.listDel (h : Lists F G s) (hp : p ∈ F ∨ p ∈ G ∨
    ∀ n, s.node p = some n → n.state = .allocatable → n.refc = 0 → ¬s.Leaf p) :
    Lists F G (s.listDel p) where
  nodup := fun c => (h.nodup c).filter _
  listed := fun c q hq => h.listed c q (mem_listDel_free.mp hq).1
  complete := fun q n hn hst hr hl hF hG => by
    refine mem_listDel_free.mpr ⟨h.complete q n hn hst hr hl hF hG, ?_⟩
    rintro rfl
    rcases hp with hp | hp | hp
    · exact hF hp
    · exact hG hp
    · exact hp n hn hst hr hl

lemma Lists.set_refc (h : Lists F G s) (hn : s.node p = some n) (hG : p ∈ G) (r : UInt32) :
    Lists F G (s.set p { n with refc := r }) := by
  have hhas := has_of_node hn
  constructor
  · exact h.nodup
  · intro c q hq
    obtain ⟨m, hm, hst, hc, hl, hr⟩ := h.listed c q hq
    rw [← set_leaf_iff hhas] at hl
    by_cases hqp : q = p
    · rw [hqp] at hm hl ⊢
      rw [hn] at hm
      cases hm
      exact ⟨_, set_node_self _ _ _, hst, hc, hl, fun hG' => absurd hG hG'⟩
    · exact ⟨m, by rw [set_node_ne hqp, hm], hst, hc, hl, hr⟩
  · intro q m hm hst hr hl hF hG'
    have hqp : q ≠ p := fun hqp => hG' (hqp ▸ hG)
    rw [set_node_ne hqp] at hm
    exact h.complete q m hm hst hr ((set_leaf_iff hhas _).mp hl) hF hG'

lemma Lists.clear (h : Lists F (insert p G) s) (hout : ∀ c, p ∉ s.free c)
    (hp : ∀ n, s.node p = some n → n.state = .allocatable → n.refc = 0 → ¬s.Leaf p) :
    Lists F G s where
  nodup := h.nodup
  listed := fun c q hq => by
    obtain ⟨n, hn, hst, hc, hl, hr⟩ := h.listed c q hq
    refine ⟨n, hn, hst, hc, hl, fun hG => hr fun hins => ?_⟩
    rcases hins with rfl | hins
    · exact hout c hq
    · exact hG hins
  complete := fun q n hn hst hr hl hF hG => by
    refine h.complete q n hn hst hr hl hF fun hins => ?_
    rcases hins with rfl | hins
    · exact hp n hn hst hr hl
    · exact hG hins

lemma Lists.settle (h : Lists F (insert p G) s) (hn : s.node p = some n) (hl : s.Leaf p)
    (hr : n.refc = 0 ∨ p ∈ G) {s' : Phys}
    (hs : (if n.state = .allocatable then (s.listDel p).listAppend n.cls p else .ok (s.listDel p)) =
      .ok s') : Lists F G s' := by
  have hother : ∀ q c, q ≠ p → q ∈ s.free c → ∃ m, s.node q = some m ∧ m.state = .allocatable ∧
      m.cls = c ∧ s.Leaf q ∧ (q ∉ G → m.refc = 0) := by
    intro q c hqp hq
    obtain ⟨m, hm, hst, hc, hl, hr⟩ := h.listed c q hq
    exact ⟨m, hm, hst, hc, hl, fun hG => hr fun hins => hins.elim hqp hG⟩
  have hrest : ∀ q m, q ≠ p → s.node q = some m → m.state = .allocatable → m.refc = 0 →
      s.Leaf q → q ∉ F → q ∉ G → q ∈ s.free m.cls := fun q m hqp hm hst hr hl hF hG =>
    h.complete q m hm hst hr hl hF fun hins => hins.elim hqp hG
  by_cases hst : n.state = .allocatable
  · rw [if_pos hst, listAppend_eq_ok] at hs
    obtain ⟨-, rfl⟩ := hs
    constructor
    · exact push_nodup (fun c => (h.nodup c).filter _) fun hp =>
        (mem_listDel_free.mp hp).2 rfl
    · intro c q hq
      rcases mem_push_free.mp hq with ⟨rfl, rfl⟩ | hq
      · exact ⟨n, hn, hst, rfl, hl, fun hG => hr.resolve_right hG⟩
      · obtain ⟨hq, hqp⟩ := mem_listDel_free.mp hq
        exact hother q c hqp hq
    · intro q m hm hst' hr' hl' hF hG
      refine mem_push_free.mpr ?_
      by_cases hqp : q = p
      · rw [hqp] at hm ⊢
        rw [show s.node p = some m from hm] at hn
        cases hn
        exact .inl ⟨rfl, rfl⟩
      · exact .inr (mem_listDel_free.mpr ⟨hrest q m hqp hm hst' hr' hl' hF hG, hqp⟩)
  · rw [if_neg hst] at hs
    cases hs
    constructor
    · exact fun c => (h.nodup c).filter _
    · intro c q hq
      obtain ⟨hq, hqp⟩ := mem_listDel_free.mp hq
      exact hother q c hqp hq
    · intro q m hm hst' hr' hl' hF hG
      refine mem_listDel_free.mpr ?_
      have hqp : q ≠ p := by
        rintro rfl
        rw [show s.node q = some m from hm] at hn
        cases hn
        exact hst hst'
      exact ⟨hrest q m hqp hm hst' hr' hl' hF hG, hqp⟩

lemma Lists.push (h : Lists F G s) (hn : s.node p = some n) (hst : n.state = .allocatable)
    (hl : s.Leaf p) (hG : p ∈ G) (hout : p ∉ s.free n.cls) : Lists F G (s.push n.cls p) where
  nodup := push_nodup h.nodup hout
  listed := fun c q hq => by
    rcases mem_push_free.mp hq with ⟨rfl, rfl⟩ | hq
    · exact ⟨n, hn, hst, rfl, hl, fun h => absurd hG h⟩
    · exact h.listed c q hq
  complete := fun q m hm hst hr hl hF hG =>
    mem_push_free.mpr (.inr (h.complete q m hm hst hr hl hF hG))

lemma Lists.remove (h : Lists F (insert (b :: p) G) s)
    (hs : ∀ q, s'.node q = if ∃ c, q = c :: p then none else s.node q)
    (hf : ∀ c, ∃ l, s'.free c = (s.free c).filter l ∧ ∀ q, l q = true ↔ ∀ a, q ≠ a :: p) :
    Lists F (insert p G) s' := by
  have hmem : ∀ c q, q ∈ s'.free c ↔ q ∈ s.free c ∧ ∀ a, q ≠ a :: p := by
    intro c q
    obtain ⟨l, hl, hiff⟩ := hf c
    rw [hl, mem_filter, hiff]
  have hkeep : ∀ q, (∀ a, q ≠ a :: p) → s'.node q = s.node q :=
    fun q hq => (hs q).trans (if_neg fun ⟨a, ha⟩ => hq a ha)
  constructor
  · intro c
    obtain ⟨l, hl, -⟩ := hf c
    rw [hl]
    exact (h.nodup c).filter _
  · intro c q hq
    obtain ⟨hq, hne⟩ := (hmem c q).mp hq
    obtain ⟨m, hm, hst, hc, hl, hr⟩ := h.listed c q hq
    refine ⟨m, (hkeep q hne).trans hm, hst, hc, fun a => ?_, fun hG => hr fun hins => ?_⟩
    · rw [hs]
      split
      · rfl
      · exact hl a
    · exact hins.elim (hne b) fun hin => hG (Set.mem_insert_of_mem _ hin)
  · intro q m hm hst hr hl hF hG
    have hne : ∀ a, q ≠ a :: p := by
      intro a ha
      rw [hs, if_pos ⟨a, ha⟩] at hm
      cases hm
    have hqp : q ≠ p := fun h => hG (h ▸ Set.mem_insert _ _)
    refine (hmem m.cls q).mpr ⟨h.complete q m ((hkeep q hne).symm.trans hm) hst hr (fun a => ?_) hF
      fun hins => hins.elim (hne b) fun hin => hG (Set.mem_insert_of_mem _ hin), hne⟩
    rw [← hkeep (a :: q) fun c hc => hqp (cons.inj hc).2]
    exact hl a

def CountedBelow (d : Path → ℕ) (s : Phys) (p : Path) : Prop :=
  ∀ b q n m, p <:+ q → s.node q = some n → s.node (b :: q) = some m →
    m.refc.toNat = d (b :: q) + if n.refc = 0 then 0 else 1

/-- **The counters**: with `d` direct references to each page. -/
structure Counted (d : Path → ℕ) (s : Phys) : Prop where
  root : ∀ n, s.node [] = some n → n.refc.toNat = d []
  below : CountedBelow d s []
  present : ∀ p, 0 < d p → s.Has p
  bound : ∀ p, d p + 1 < 2 ^ 32

variable {d : Path → ℕ}

lemma CountedBelow.of_suffix (h : CountedBelow d s p) (hpq : p <:+ q) : CountedBelow d s q :=
  fun b r n m hr => h b r n m (hpq.trans hr)

lemma CountedBelow.congr (h : CountedBelow d s p)
    (hs : ∀ q, p <:+ q → s'.node q = none ∨ s'.node q = s.node q) : CountedBelow d s' p := by
  intro b q n m hq hn hm
  have h1 : s.node q = some n := by
    rcases hs q hq with h | h
    · rw [h] at hn; cases hn
    · rwa [h] at hn
  have h2 : s.node (b :: q) = some m := by
    rcases hs (b :: q) (hq.trans (suffix_cons _ _)) with h | h
    · rw [h] at hm; cases hm
    · rwa [h] at hm
  exact h b q n m hq h1 h2

lemma Counted.count_le (h : Counted d s) (hn : s.node p = some n) (hs : Shape s) : d p ≤ n.refc.toNat := by
  cases p with
  | nil => rw [h.root n hn]
  | cons b p =>
    obtain ⟨m, hm⟩ := has_iff.mp (hs.parent b p (has_of_node hn))
    rw [h.below b p m n nil_suffix hm hn]
    exact Nat.le_add_right _ _

lemma Counted.above (h : Counted d s) (hs : Shape s) (hn : s.node q = some n) (hr : n.refc = 0)
    (hpq : p <:+ q) : ∀ m, s.node p = some m → m.refc = 0 := by
  induction q generalizing n with
  | nil =>
    rw [suffix_nil.mp hpq]
    intro m hm
    rw [hn] at hm
    cases hm
    exact hr
  | cons b q ih =>
    rcases suffix_cons_iff.mp hpq with rfl | hpq
    · intro m hm
      rw [hn] at hm
      cases hm
      exact hr
    · obtain ⟨m, hm⟩ := has_iff.mp (hs.parent b q (has_of_node hn))
      have hcount := h.below b q m n nil_suffix hm hn
      refine ih hm ?_ hpq
      by_contra hne
      rw [hr, if_neg hne] at hcount
      have h0 : (0 : UInt32).toNat = 0 := rfl
      omega

lemma Counted.exists_direct (hc : Counted d s) (hs : Shape s)
    (hn : s.node p = some n) (hr : n.refc ≠ 0) : ∃ q, q <:+ p ∧ 0 < d q := by
  have hpos : 0 < n.refc.toNat := Nat.pos_of_ne_zero fun h0 => hr (UInt32.toNat_inj.mp h0)
  induction p generalizing n with
  | nil => exact ⟨[], suffix_refl _, by rw [← hc.root n hn]; exact hpos⟩
  | cons b p ih =>
    obtain ⟨m, hm⟩ := has_iff.mp (hs.parent b p (has_of_node hn))
    have hcount := hc.below b p m n nil_suffix hm hn
    by_cases hd : 0 < d (b :: p)
    · exact ⟨b :: p, suffix_refl _, hd⟩
    · by_cases hm0 : m.refc = 0
      · rw [if_pos hm0] at hcount
        omega
      · obtain ⟨q, hq, hdq⟩ := ih hm hm0 (Nat.pos_of_ne_zero fun h0 => hm0 (UInt32.toNat_inj.mp h0))
        exact ⟨q, hq.trans (suffix_cons b p), hdq⟩

end Jos.PmapModel
