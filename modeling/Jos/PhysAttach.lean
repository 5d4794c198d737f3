import Jos.PhysAlloc

/-!
Attaching memory.

The look-up for a type passes pages of another type, which from then on have memory of both. The
page at its end loses what is below it and becomes memory of the type, or stays reserved.
-/

namespace Jos.PmapModel

open CArray Jos.Dyadic List Phys

variable {ext : Path → ℕ} {F : Set Path} {s s' s₁ s₂ : Phys} {p q : Path} {n m : Page}
  {ensure : Ensure} {type : PageState} {addr cls : ℕ} {r : Phys × Path}

structure Cleared (p : Path) (s s' : Phys) : Prop where
  node : ∀ q, s'.node q = if p <:+ q then none else s.node q
  zero : ∀ q m, p <:+ q → s.node q = some m → m.refc = 0
  free : ∀ c, ∃ l, s'.free c = (s.free c).filter l ∧ ∀ q, l q = true ↔ ¬(p <:+ q ∧ s.Has q)
  pools : s'.pools = s.pools
  currentSpace : s'.currentSpace = s.currentSpace
  kernelEnd : s'.kernelEnd = s.kernelEnd

lemma has_of_closed (hclosed : ∀ b q, p <:+ q → s.Has (b :: q) → s.Has q) (hpq : p <:+ q)
    (hq : s.Has q) : s.Has p := by
  induction q with
  | nil => rwa [suffix_nil.mp hpq]
  | cons b q ih =>
    rcases suffix_cons_iff.mp hpq with rfl | hpq
    · exact hq
    · exact ih hpq (hclosed b q hpq hq)

lemma cleared_null (hclosed : ∀ b q, p <:+ q → s.Has (b :: q) → s.Has q) (hn : s.node p = none) : Cleared p s s := by
  have hnone : ∀ q, p <:+ q → s.node q = none := fun q hq =>
    not_not.mp fun hhas => has_of_closed hclosed hq hhas hn
  refine ⟨fun q => ?_, fun q m hq hm => ?_, fun c => ⟨fun _ => true, ?_, fun q => ?_⟩, rfl, rfl, rfl⟩
  · split
    · next hq => exact hnone q hq
    · rfl
  · rw [hnone q hq] at hm
    cases hm
  · rw [filter_true]
  · exact iff_of_true rfl fun h => h.2 (hnone q h.1)

lemma cleared_page (hn : s.node p = some n) (h0 : n.refc = 0) (hr : Cleared (true :: p) s s₁)
    (hl : Cleared (false :: p) (s₁.freeDescriptor p) s₂) : Cleared p s s₂ := by
  have hnode : ∀ q, (s₁.freeDescriptor p).node q =
      if q = p ∨ (true :: p) <:+ q then none else s.node q := by
    intro q
    by_cases hq : q = p
    · rw [if_pos (.inl hq), hq, freeDescriptor_node_self]
    · rw [freeDescriptor_node_ne hq, hr.node]
      simp only [hq, false_or]
  have hcases : ∀ q, p <:+ q ↔ (false :: p) <:+ q ∨ q = p ∨ (true :: p) <:+ q := by
    intro q
    constructor
    · intro hq
      rcases suffix_cases hq with h | ⟨_ | _, h⟩
      · exact .inr (.inl h)
      · exact .inl h
      · exact .inr (.inr h)
    · rintro (h | rfl | h)
      · exact suffix_of_cons_suffix h
      · exact suffix_refl q
      · exact suffix_of_cons_suffix h
  have hleft : ∀ q, (false :: p) <:+ q → (s₁.freeDescriptor p).node q = s.node q := by
    intro q hq
    rw [hnode, if_neg]
    rintro (rfl | h)
    · exact not_cons_suffix false q hq
    · exact not_suffix_of_half hq h
  constructor
  · intro q
    rw [hl.node, hnode]
    simp only [hcases q]
    by_cases h : (false :: p) <:+ q
    · rw [if_pos h, if_pos (.inl h)]
    · simp only [h, if_false, false_or]
  · intro q m hq hm
    rcases (hcases q).mp hq with h | rfl | h
    · exact hl.zero q m h ((hleft q h).trans hm)
    · rw [hn] at hm
      cases hm
      exact h0
    · exact hr.zero q m h hm
  · intro c
    obtain ⟨l₁, hl₁, hiff₁⟩ := hr.free c
    obtain ⟨l₂, hl₂, hiff₂⟩ := hl.free c
    refine ⟨fun q => l₁ q && (decide (q ≠ p) && l₂ q), ?_, fun q => ?_⟩
    · rw [hl₂, freeDescriptor, listDel]
      dsimp only
      rw [hl₁, filter_filter, filter_filter]
      refine filter_congr fun q _ => ?_
      cases l₁ q <;> cases l₂ q <;> simp
    · simp only [Bool.and_eq_true, decide_eq_true_eq, hiff₁, hiff₂, hcases q]
      have hhas : (false :: p) <:+ q → ((s₁.freeDescriptor p).Has q ↔ s.Has q) := fun h => by
        unfold Phys.Has
        rw [hleft q h]
      have hp : q = p → s.Has q := fun h => h ▸ has_of_node hn
      tauto
  · exact hl.pools.trans hr.pools
  · exact hl.currentSpace.trans hr.currentSpace
  · exact hl.kernelEnd.trans hr.kernelEnd

lemma freeDescRec_spec {fuel : ℕ} (hfuel : maxClass < fuel + p.length) (hlen : ∀ q, s.Has q → q.length ≤ maxClass)
    (hclosed : ∀ b q, p <:+ q → s.Has (b :: q) → s.Has q) (h : freeDescRec fuel p s = .ok s') :
    Cleared p s s' := by
  induction fuel generalizing p s s' with
  | zero =>
    cases h
    refine cleared_null hclosed (not_not.mp fun hp => ?_)
    have := hlen p hp
    omega
  | succ fuel ih =>
    rw [freeDescRec] at h
    cases hn : s.node p with
    | none =>
      rw [hn] at h
      cases h
      exact cleared_null hclosed hn
    | some n =>
      rw [hn] at h
      obtain ⟨_, h0, h⟩ := bind_eq_ok.mp h
      obtain ⟨s₁, h₁, h⟩ := bind_eq_ok.mp h
      have hfuel' : ∀ b : Bool, maxClass < fuel + (b :: p).length := by
        intro b
        rw [length_cons]
        omega
      have hright : Cleared (true :: p) s s₁ :=
        ih (hfuel' true) hlen (fun b q hq => hclosed b q (suffix_of_cons_suffix hq)) h₁
      have hhas : ∀ q, (s₁.freeDescriptor p).Has q → s.Has q := by
        intro q hq hnone
        have hqp : q ≠ p := by
          rintro rfl
          exact hq (freeDescriptor_node_self _ _)
        rw [Phys.Has, freeDescriptor_node_ne hqp, hright.node] at hq
        split at hq
        · exact hq rfl
        · exact hq hnone
      refine cleared_page hn (assert_eq_ok.mp h0) hright
        (ih (hfuel' false) (fun q hq => hlen q (hhas q hq)) (fun b q hq hb => ?_) h)
      -- what is left in the other half was there before
      have hqp : q ≠ p := by
        rintro rfl
        exact not_cons_suffix false q hq
      have hnot : ¬(true :: p) <:+ q := not_suffix_of_half hq
      rw [Phys.Has, freeDescriptor_node_ne hqp, hright.node, if_neg hnot]
      exact hclosed b q (suffix_of_cons_suffix hq) (hhas _ hb)

def Page.attached (n : Page) (type : PageState) : PageState :=
  if n.state = .reserved then .reserved else type

structure HalvesCleared (p : Path) (s s' : Phys) : Prop where
  node : ∀ q, s'.node q = if p <:+ q ∧ q ≠ p then none else s.node q
  zero : ∀ q m, p <:+ q → q ≠ p → s.node q = some m → m.refc = 0
  nodup : ∀ c, (s'.free c).Nodup
  free : ∀ c q, q ∈ s'.free c ↔ ¬(p <:+ q ∧ q ≠ p) ∧ q ∈ s.free c
  pools : s'.pools = s.pools
  currentSpace : s'.currentSpace = s.currentSpace
  kernelEnd : s'.kernelEnd = s.kernelEnd

lemma freeHalves_spec (hs : Shape s) (hl : Lists F ∅ s) (h₁ : freeDescRec maxClass (false :: p) s = .ok s₁)
    (h₂ : freeDescRec maxClass (true :: p) s₁ = .ok s₂) : HalvesCleared p s s₂ := by
  have hleft : Cleared (false :: p) s s₁ :=
    freeDescRec_spec (by rw [length_cons]; omega) (fun q => hs.length_le) (fun b q _ => hs.parent b q) h₁
  have hhas₁ : ∀ q, s₁.Has q → s.Has q := by
    intro q hq hnone
    rw [Phys.Has, hleft.node, hnone, ite_self] at hq
    exact hq rfl
  have hright : Cleared (true :: p) s₁ s₂ := by
    refine freeDescRec_spec (by rw [length_cons]; omega) (fun q hq => hs.length_le (hhas₁ q hq))
      (fun b q hq hb => ?_) h₂
    have hnot : ¬(false :: p) <:+ q := not_suffix_of_half hq
    rw [Phys.Has, hleft.node, if_neg hnot]
    exact hs.parent b q (hhas₁ _ hb)
  have hcases : ∀ q, p <:+ q ∧ q ≠ p ↔ (false :: p) <:+ q ∨ (true :: p) <:+ q := by
    intro q
    constructor
    · rintro ⟨hq, hqp⟩
      rcases suffix_cases hq with h | ⟨_ | _, h⟩
      · exact absurd h hqp
      · exact .inl h
      · exact .inr h
    · have hhalf : ∀ b, (b :: p) <:+ q → p <:+ q ∧ q ≠ p := fun b h =>
        ⟨suffix_of_cons_suffix h, fun hqp => not_cons_suffix b p (hqp ▸ h)⟩
      exact fun h => h.elim (hhalf false) (hhalf true)
  constructor
  · intro q
    rw [hright.node, hleft.node]
    simp only [hcases q]
    by_cases hf : (false :: p) <:+ q
    · simp only [hf, if_true, true_or, ite_self]
    · simp only [hf, if_false, false_or]
  · intro q m hq hqp hm
    rcases (hcases q).mp ⟨hq, hqp⟩ with hf | ht
    · exact hleft.zero q m hf hm
    · have hnot : ¬(false :: p) <:+ q := not_suffix_of_half ht
      exact hright.zero q m ht (by rw [hleft.node, if_neg hnot, hm])
  · intro c
    obtain ⟨l₁, hl₁, -⟩ := hleft.free c
    obtain ⟨l₂, hl₂, -⟩ := hright.free c
    rw [hl₂, hl₁]
    exact ((hl.nodup c).filter _).filter _
  · intro c q
    obtain ⟨l₁, hl₁, hiff₁⟩ := hleft.free c
    obtain ⟨l₂, hl₂, hiff₂⟩ := hright.free c
    have hmem : q ∈ s.free c → s.Has q := fun hq => by
      obtain ⟨m, hm, -⟩ := hl.listed c q hq
      exact has_of_node hm
    have hkept : (true :: p) <:+ q → s.Has q → s₁.Has q := fun hq hhas => by
      have hnot : ¬(false :: p) <:+ q := not_suffix_of_half hq
      rwa [Phys.Has, hleft.node, if_neg hnot]
    rw [hl₂, hl₁, mem_filter, mem_filter, hiff₁, hiff₂, hcases q]
    constructor
    · rintro ⟨⟨hq, hnf⟩, hnt⟩
      refine ⟨?_, hq⟩
      rintro (hf | ht)
      · exact hnf ⟨hf, hmem hq⟩
      · exact hnt ⟨ht, hkept ht (hmem hq)⟩
    · rintro ⟨hnot, hq⟩
      exact ⟨⟨hq, fun h => hnot (.inl h.1)⟩, fun h => hnot (.inr h.1)⟩
  · exact hright.pools.trans hleft.pools
  · exact hright.currentSpace.trans hleft.currentSpace
  · exact hright.kernelEnd.trans hleft.kernelEnd

/-- The page becomes memory of the type, without anything below it. -/
structure Attached (type : PageState) (p : Path) (n : Page) (s s' : Phys) : Prop where
  node : ∀ q, s'.node q =
    if q = p then some { n with state := n.attached type } else if p <:+ q then none else s.node q
  zero : ∀ q m, p <:+ q → s.node q = some m → m.refc = 0
  nodup : ∀ c, (s'.free c).Nodup
  free : ∀ c q, q ∈ s'.free c ↔
    (q = p ∧ c = n.cls ∧ n.attached type = .allocatable) ∨ (¬p <:+ q ∧ q ∈ s.free c)
  pools : s'.pools = s.pools
  currentSpace : s'.currentSpace = s.currentSpace
  kernelEnd : s'.kernelEnd = s.kernelEnd

lemma attachPage_attached (hs : Shape s) (hl : Lists F ∅ s) (hn : s.node p = some n)
    (h : attachPage type s p = .ok s') : Attached type p n s s' := by
  obtain ⟨n', hn', h⟩ := bind_eq_ok.mp h
  rw [deref_eq_ok, hn] at hn'
  cases hn'
  obtain ⟨_, h0, h⟩ := bind_eq_ok.mp h
  obtain ⟨s₁, h₁, h⟩ := bind_eq_ok.mp h
  obtain ⟨s₂, h₂, h⟩ := bind_eq_ok.mp h
  have hcl := freeHalves_spec hs hl h₁ h₂
  -- the page is out of the lists, and then in its own
  set t := (s₂.listDel p).set p { n with state := n.attached type } with ht
  have hs' : s' = if n.attached type = .allocatable then t.push n.cls p else t := by
    change (if n.attached type = .allocatable then t.listAppend n.cls p else .ok t) = .ok s' at h
    split at h
    · next hst =>
      rw [if_pos hst]
      exact (listAppend_eq_ok.mp h).2
    · next hst =>
      rw [if_neg hst]
      exact (Except.ok.inj h).symm
  have hmem_t : ∀ c q, q ∈ t.free c ↔ ¬p <:+ q ∧ q ∈ s.free c := by
    intro c q
    refine mem_listDel_free.trans ?_
    rw [hcl.free]
    tauto
  have hnodup_t : ∀ c, (t.free c).Nodup := fun c => (hcl.nodup c).filter _
  constructor
  · intro q
    have hnode' : s'.node = t.node := by
      rw [hs']
      split <;> rfl
    rw [hnode']
    by_cases hqp : q = p
    · rw [if_pos hqp, hqp]
      exact set_node_self _ _ _
    · rw [if_neg hqp]
      refine (set_node_ne hqp _).trans ((hcl.node q).trans ?_)
      simp only [hqp, ne_eq, not_false_eq_true, and_true]
  · intro q m hq hm
    by_cases hqp : q = p
    · rw [hqp, hn] at hm
      cases hm
      exact assert_eq_ok.mp h0
    · exact hcl.zero q m hq hqp hm
  · intro c
    rw [hs']
    split
    · exact push_nodup hnodup_t (fun hp => ((hmem_t _ p).mp hp).1 (suffix_refl p)) c
    · exact hnodup_t c
  · intro c q
    rw [hs']
    split
    · next hst => rw [mem_push_free, hmem_t]; simp only [hst, and_true]
    · next hst => rw [hmem_t]; simp only [hst, and_false, false_or]
  · rw [hs']
    split <;> exact hcl.pools
  · rw [hs']
    split <;> exact hcl.currentSpace
  · rw [hs']
    split <;> exact hcl.kernelEnd

def ParentOf (type : PageState) (s : Phys) (p : Path) : Prop :=
  ∀ b q m, p = b :: q → s.node q = some m → m.state = .partialNode ∨ m.state = type

namespace Attached

section

variable (h : Attached type p n s s')
include h

lemma node_self : s'.node p = some { n with state := n.attached type } := by
  rw [h.node, if_pos rfl]

lemma node_outside (hq : ¬p <:+ q) : s'.node q = s.node q := by
  rw [h.node, if_neg (ne_of_not_suffix hq), if_neg hq]

lemma node_below (hq : p <:+ q) (hne : q ≠ p) : s'.node q = none := by
  rw [h.node, if_neg hne, if_pos hq]

lemma node_cases (hm : s'.node q = some m) :
    (q = p ∧ m = { n with state := n.attached type }) ∨ (¬p <:+ q ∧ s.node q = some m) := by
  by_cases hpq : p <:+ q
  · by_cases hqp : q = p
    · rw [hqp, h.node_self] at hm
      exact .inl ⟨hqp, (Option.some.inj hm).symm⟩
    · rw [h.node_below hpq hqp] at hm
      cases hm
  · rw [h.node_outside hpq] at hm
    exact .inr ⟨hpq, hm⟩

lemma leaf_self : s'.Leaf p := fun b => h.node_below (suffix_cons b p) (cons_ne_self b p)

lemma leaf_outside (hn : s.node p = some n) (hq : ¬p <:+ q) : s'.Leaf q ↔ s.Leaf q := by
  rw [leaf_iff, leaf_iff]
  refine forall_congr' fun b => not_congr ?_
  rcases eq_or_not_suffix (b := b) hq with heq | hout
  · rw [heq]
    exact iff_of_true (has_of_node h.node_self) (has_of_node hn)
  · unfold Phys.Has
    rw [h.node_outside hout]

lemma shape (hs : Shape s) (hn : s.node p = some n) (hpar : ParentOf type s p) : Shape s' := by
  have hhas : ∀ q, ¬p <:+ q ∨ q = p → s.Has q → s'.Has q := by
    rintro q (hq | rfl) hs
    · unfold Phys.Has
      rwa [h.node_outside hq]
    · exact has_of_node h.node_self
  have hback : ∀ q, s'.Has q → s.Has q ∧ (¬p <:+ q ∨ q = p) := by
    intro q hq
    obtain ⟨m, hm⟩ := has_iff.mp hq
    rcases h.node_cases hm with ⟨rfl, -⟩ | ⟨hq, hm⟩
    · exact ⟨has_of_node hn, .inr rfl⟩
    · exact ⟨has_of_node hm, .inl hq⟩
  have hout : ∀ b q, ¬p <:+ (b :: q) ∨ b :: q = p → ¬p <:+ q := by
    rintro b q (hq | rfl) hpq
    · exact hq (hpq.trans (suffix_cons b q))
    · exact not_cons_suffix b q hpq
  constructor
  · refine hhas [] ?_ hs.root
    by_cases hp : p = []
    · exact .inr hp.symm
    · exact .inl fun h => hp (suffix_nil.mp h)
  · intro b q hq
    obtain ⟨hq, hor⟩ := hback _ hq
    exact hhas q (.inl (hout b q hor)) (hs.parent b q hq)
  · intro b q hq
    obtain ⟨hq, hor⟩ := hback _ hq
    refine hhas _ ?_ (hs.buddy b q hq)
    rcases eq_or_not_suffix (b := !b) (hout b q hor) with heq | hnot
    · exact .inr heq
    · exact .inl hnot
  · intro q m hm
    rcases h.node_cases hm with ⟨rfl, rfl⟩ | ⟨-, hm⟩
    · exact hs.place q n hn
    · exact hs.place q m hm
  · intro b q k m hk hne hm
    rcases h.node_cases hm with ⟨hbq, rfl⟩ | ⟨hbq, hm⟩
    · -- the page it is a half of is of the type already
      rcases h.node_cases hk with ⟨hqp, -⟩ | ⟨-, hk⟩
      · rw [hqp] at hbq
        exact absurd hbq (cons_ne_self b p)
      · rw [← hbq] at hn
        have hsame := hs.uniform b q k n hk hne hn
        have htype := (hpar b q k hbq.symm hk).resolve_left hne
        dsimp only [Page.attached]
        rw [hsame, htype]
        split
        · next hres => exact hres.symm
        · rfl
    · rcases h.node_cases hk with ⟨rfl, -⟩ | ⟨-, hk⟩
      · exact absurd (suffix_cons b q) hbq
      · exact hs.uniform b q k m hk hne hm

lemma lists (hl : Lists (insert p F) ∅ s) (hn : s.node p = some n) : Lists F ∅ s' where
  nodup := h.nodup
  listed := fun c q hq => by
    rcases (h.free c q).mp hq with ⟨rfl, rfl, hst⟩ | ⟨hout, hq⟩
    · exact ⟨_, h.node_self, hst, rfl, h.leaf_self, fun _ => h.zero q n (suffix_refl q) hn⟩
    · obtain ⟨m, hm, hst, hc, hlq, hr⟩ := hl.listed c q hq
      exact ⟨m, (h.node_outside hout).trans hm, hst, hc, (h.leaf_outside hn hout).mpr hlq, hr⟩
  complete := fun q m hm hst hr hlq hF hG => by
    rw [h.free]
    rcases h.node_cases hm with ⟨rfl, rfl⟩ | ⟨hout, hm⟩
    · exact .inl ⟨rfl, rfl, hst⟩
    · refine .inr ⟨hout, hl.complete q m hm hst hr ((h.leaf_outside hn hout).mp hlq) ?_ hG⟩
      exact fun hq => hq.elim (ne_of_not_suffix hout) hF

end

lemma counted {d : Path → ℕ} (h : Attached type p n s s') (hc : Counted d s) (hs : Shape s)
    (hn : s.node p = some n) : Counted d s' := by
  have hkeep : ∀ q m, s'.node q = some m → ∃ k, s.node q = some k ∧ k.refc = m.refc := by
    intro q m hm
    rcases h.node_cases hm with ⟨rfl, rfl⟩ | ⟨-, hm⟩
    · exact ⟨n, hn, rfl⟩
    · exact ⟨m, hm, rfl⟩
  refine ⟨fun m hm => ?_, fun b q k m _ hk hm => ?_, fun q hq => ?_, hc.bound⟩
  · obtain ⟨k, hk, hr⟩ := hkeep _ m hm
    rw [← hr]
    exact hc.root k hk
  · obtain ⟨k', hk', hr⟩ := hkeep q k hk
    obtain ⟨m', hm', hr'⟩ := hkeep _ m hm
    rw [← hr, ← hr']
    exact hc.below b q k' m' nil_suffix hk' hm'
  · -- what is gone was not referenced
    obtain ⟨m, hm⟩ := has_iff.mp (hc.present q hq)
    by_cases hpq : p <:+ q
    · have := hc.count_le hm hs
      rw [h.zero q m hpq hm] at this
      exact absurd (lt_of_lt_of_le hq this) (lt_irrefl 0)
    · unfold Phys.Has
      rw [h.node_outside hpq, hm]
      exact nofun

/-- **The memory is attached.** -/
lemma inv (h : Attached type p n s s') (hi : Inv ext (insert p F) s) (hn : s.node p = some n)
    (hpar : ParentOf type s p) : Inv ext F s' := by
  refine ⟨h.shape hi.shape hn hpar, h.lists hi.lists hn, ?_⟩
  rw [direct_congr ext h.pools]
  exact h.counted hi.counted hi.shape hn

lemma type_inside (h : Attached type p n s s') {x : ℕ} (hx : Covers maxClass p x) : HasType s' x (n.attached type) :=
  ⟨p, _, h.node_self, h.leaf_self, hx, rfl⟩

lemma type_outside (h : Attached type p n s s') (hs : Shape s) (hn : s.node p = some n) {x : ℕ}
    {t : PageState} (hx : ¬Covers maxClass p x) (ht : HasType s x t) : HasType s' x t := by
  obtain ⟨q, m, hm, hl, hc, hst⟩ := ht
  have hout : ¬p <:+ q := fun hpq =>
    hx (covers_of_suffix (hs.length_le (has_of_node hm)) hpq hc)
  exact ⟨q, m, (h.node_outside hout).trans hm, (h.leaf_outside hn hout).mpr hl, hc, hst⟩

end Attached

namespace Phys

lemma retype_node_ne (hq : q ≠ p) : (s.retype type p n).node q = s.node q := by
  unfold retype
  split
  · exact set_node_ne hq _
  · rfl

lemma retype_node_self (htype : type ≠ .partialNode) (hn : s.node p = some n) :
    ∃ m, (s.retype type p n).node p = some m ∧ m.refc = n.refc ∧ m.cls = n.cls ∧ m.addr = n.addr ∧
      (m.state = .partialNode ∨ m.state = type ∧ n.state = type) := by
  unfold retype
  split
  · exact ⟨_, set_node_self _ _ _, rfl, rfl, rfl, .inl rfl⟩
  · next hc =>
    have hst : n.state = type := by
      by_contra hne
      exact hc ⟨htype, hne⟩
    exact ⟨n, hn, rfl, rfl, rfl, .inr ⟨hst, hst⟩⟩

lemma retype_has_iff (hp : s.Has p) : (s.retype type p n).Has q ↔ s.Has q := by
  unfold retype
  split
  · exact set_has_iff hp _
  · rfl

lemma retype_leaf_iff (hp : s.Has p) : (s.retype type p n).Leaf q ↔ s.Leaf q := by
  simp only [leaf_iff, retype_has_iff hp]

lemma retype_eq (s : Phys) (type : PageState) (p : Path) (n : Page) :
    (s.retype type p n).free = s.free ∧ (s.retype type p n).pools = s.pools ∧
      (s.retype type p n).currentSpace = s.currentSpace ∧
      (s.retype type p n).kernelEnd = s.kernelEnd := by
  unfold retype
  split <;> exact ⟨rfl, rfl, rfl, rfl⟩

end Phys

lemma retype_cases (htype : type ≠ .partialNode) (hn : s.node p = some n) (hm : (s.retype type p n).node q = some m) :
    ∃ k, s.node q = some k ∧ m.refc = k.refc ∧ m.cls = k.cls ∧ m.addr = k.addr ∧
      (m.state = k.state ∨ q = p ∧ m.state = .partialNode) := by
  by_cases hq : q = p
  · subst hq
    obtain ⟨k, hk, hr, hc, ha, hst⟩ := retype_node_self htype hn
    rw [hm] at hk
    cases hk
    refine ⟨n, hn, hr, hc, ha, ?_⟩
    rcases hst with hst | ⟨h1, h2⟩
    · exact .inr ⟨rfl, hst⟩
    · exact .inl (h1.trans h2.symm)
  · rw [retype_node_ne hq] at hm
    exact ⟨m, hm, rfl, rfl, rfl, .inl rfl⟩

lemma Inv.retype (h : Inv ext F s) (htype : type ≠ .partialNode) (hn : s.node p = some n)
    (hleaf : ¬s.Leaf p) (hpar : ParentOf type s p) : Inv ext F (s.retype type p n) := by
  have hp := has_of_node hn
  have hhas : ∀ q, (s.retype type p n).Has q ↔ s.Has q := fun q => retype_has_iff hp
  obtain ⟨hfree, hpools, -⟩ := s.retype_eq type p n
  refine ⟨⟨(hhas _).mpr h.shape.root, fun b q hq => (hhas _).mpr (h.shape.parent b q ((hhas _).mp hq)),
    fun b q hq => (hhas _).mpr (h.shape.buddy b q ((hhas _).mp hq)), ?_, ?_⟩,
    ⟨by rw [hfree]; exact h.lists.nodup, ?_, ?_⟩, ?_⟩
  · intro q m hm
    obtain ⟨k, hk, -, hc, ha, -⟩ := retype_cases htype hn hm
    rw [hc, ha]
    exact h.shape.place q k hk
  · intro b q k m hk hne hm
    obtain ⟨m', hm', -, -, -, hmst⟩ := retype_cases htype hn hm
    obtain ⟨k', hk', -, -, -, hkst⟩ := retype_cases htype hn hk
    have hkst := hkst.resolve_right fun hc => hne hc.2
    rw [hkst] at hne ⊢
    have hsame := h.shape.uniform b q k' m' hk' hne hm'
    rcases hmst with hmst | ⟨hbq, hmst⟩
    · rw [hmst, hsame]
    · -- below a page of the type there is none to retype
      have htq := (hpar b q k' hbq.symm hk').resolve_left hne
      rw [hbq, hn] at hm'
      cases hm'
      obtain ⟨j, hj, -, -, -, hjst⟩ := retype_node_self htype hn
      rw [hbq, hj] at hm
      cases hm
      unfold Phys.retype at hj
      rw [if_neg fun hc => hc.2 (hsame.trans htq), hn] at hj
      cases hj
      exact hsame
  · intro c q hq
    rw [hfree] at hq
    obtain ⟨m, hm, hst, hc, hl, hr⟩ := h.lists.listed c q hq
    have hqp : q ≠ p := by
      rintro rfl
      exact hleaf hl
    exact ⟨m, (retype_node_ne hqp).trans hm, hst, hc, (retype_leaf_iff hp).mpr hl, hr⟩
  · intro q m hm hst hr hl hF hG
    rw [retype_leaf_iff hp] at hl
    have hqp : q ≠ p := by
      rintro rfl
      exact hleaf hl
    rw [retype_node_ne hqp] at hm
    rw [hfree]
    exact h.lists.complete q m hm hst hr hl hF hG
  · rw [direct_congr ext hpools]
    refine ⟨fun m hm => ?_, fun b q k m _ hk hm => ?_, fun q hq => ?_, h.counted.bound⟩
    · obtain ⟨k, hk, hr, -⟩ := retype_cases htype hn hm
      rw [hr]
      exact h.counted.root k hk
    · obtain ⟨m', hm', hr', -⟩ := retype_cases htype hn hm
      obtain ⟨k', hk', hr, -⟩ := retype_cases htype hn hk
      rw [hr, hr']
      exact h.counted.below b q k' m' nil_suffix hk' hm'
    · exact (hhas q).mpr (h.counted.present q hq)

lemma types_retype (hn : s.node p = some n) (hleaf : ¬s.Leaf p) : TypesKept s (s.retype type p n) := by
  rintro x t ⟨q, m, hm, hl, hc, hst⟩
  have hqp : q ≠ p := by
    rintro rfl
    exact hleaf hl
  exact ⟨q, m, (retype_node_ne hqp).trans hm, (retype_leaf_iff (has_of_node hn)).mpr hl, hc, hst⟩

def InReserved (s : Phys) (p : Path) : Prop :=
  ∃ q n, q <:+ p ∧ s.node q = some n ∧ n.state = .reserved

/-- What the look-up for a type does, `k` classes below the page it begins with. -/
structure Approached (ext : Path → ℕ) (F : Set Path) (type : PageState) (addr : ℕ) (p : Path) (k : ℕ)
    (s : Phys) (r : Phys × Path) : Prop where
  inv : Inv ext (insert r.2 F) r.1
  parent : ParentOf type r.1 r.2
  types : TypesKept s r.1
  below : p <:+ r.2
  length : r.2.length = p.length + k
  has : r.1.Has r.2
  way : OnWay addr p → OnWay addr r.2
  kept : ∀ q n, r.2 <:+ q → s.node q = some n → ∃ m, r.1.node q = some m ∧ m.frame = n.frame
  -- what is in reserved memory stays in it, on the way and beside it
  reserved : ∀ q n, p <:+ q → q <:+ r.2 → s.node q = some n → n.state = .reserved →
    ∃ m, r.1.node r.2 = some m ∧ m.state = .reserved
  beside : ∀ q, ¬q <:+ r.2 → InReserved s q → InReserved r.1 q

lemma Approached.refl (h : Inv ext (insert p F) s) (hp : s.Has p) (hpar : ParentOf type s p) :
    Approached ext F type addr p 0 s (s, p) where
  inv := h
  parent := hpar
  types := TypesKept.refl s
  below := suffix_refl p
  length := rfl
  has := hp
  way := id
  kept := fun q n _ hn => ⟨n, hn, rfl⟩
  reserved := fun q n hpq hqp hn hst => by
    obtain rfl := hpq.eq_of_length_le hqp.length_le
    exact ⟨n, hn, hst⟩
  beside := fun _ _ h => h

lemma Approached.trans {k j : ℕ} {r' : Phys × Path} (h : Approached ext F type addr p k s r)
    (h' : Approached ext F type addr r.2 j r.1 r') : Approached ext F type addr p (k + j) s r' where
  inv := h'.inv
  parent := h'.parent
  types := h.types.trans h'.types
  below := h.below.trans h'.below
  length := by rw [h'.length, h.length, Nat.add_assoc]
  has := h'.has
  way := fun hw => h'.way (h.way hw)
  kept := fun q n hq hn => by
    obtain ⟨m, hm, hf⟩ := h.kept q n (h'.below.trans hq) hn
    obtain ⟨m', hm', hf'⟩ := h'.kept q m hq hm
    exact ⟨m', hm', hf'.trans hf⟩
  reserved := fun q n hpq hq hn hst => by
    rcases suffix_or_suffix_of_suffix hq h'.below with hqr | hrq
    · obtain ⟨m, hm, hmst⟩ := h.reserved q n hpq hqr hn hst
      exact h'.reserved r.2 m (suffix_refl _) h'.below hm hmst
    · obtain ⟨m, hm, hf⟩ := h.kept q n hrq hn
      exact h'.reserved q m hrq hq hm ((congrArg Prod.fst hf).trans hst)
  beside := fun q hq hres => h'.beside q hq (h.beside q (fun hqr => hq (hqr.trans h'.below)) hres)

lemma lookupStep_typed (he : Provides ensure) (htype : type ≠ .partialNode)
    (hi : Inv ext (insert p F) s) (hn : s.node p = some n) (hcls : n.cls ≠ 0)
    (hpar : ParentOf type s p) (h : lookupStep ensure type addr cls s p = .ok r) :
    Approached ext F type addr p 1 s r := by
  obtain ⟨s₁, n₁, hs₁, hn₁, rfl⟩ := lookupStep_inv he hi hn hcls h
  obtain ⟨hi₁, hg₁, -⟩ := he.spec _ _ _ _ _ hi hs₁
  obtain ⟨m, hm, hf⟩ := hg₁.frames p n hn
  rw [hn₁] at hm
  cases hm
  have hcls₁ : n₁.cls = n.cls := congrArg (fun f => f.2.1) hf
  have hne : n₁.cls ≠ 0 := by rwa [hcls₁]
  set right := addr.testBit (n.cls - 1 + classBase) with hright
  set s₂ := s₁.divide p n₁ right with hs₂
  have hi₂ : Inv ext (insert (right :: p) F) s₂ := hi₁.divide hn₁ hne
  have hn₂ : s₂.node p = some n₁ := (divide_node_of_has (has_of_node hn₁)).trans hn₁
  have hleaf₂ : ¬s₂.Leaf p := fun hl =>
    leaf_iff.mp hl right (divide_has_half hi₁.shape right)
  have hg₂ : Grown {q | p <:+ q} s s₂ := (hg₁.mono (Set.empty_subset _)).trans (Grown.divide hi₁.shape)
  have hpar₂ : ParentOf type s₂ p := by
    intro b q k hp hk
    subst hp
    obtain ⟨j, hj⟩ := has_iff.mp (hi.shape.parent b q (has_of_node hn))
    obtain ⟨k', hk', hfk⟩ := hg₂.frames q j hj
    rw [hk] at hk'
    cases hk'
    have hst : k.state = j.state := congrArg Prod.fst hfk
    rw [hst]
    exact hpar b q j rfl hj
  have hchild : ∀ b k, (s₂.retype type p n₁).node (b :: p) = some k ↔ s₂.node (b :: p) = some k :=
    fun b k => by rw [retype_node_ne (cons_ne_self b p)]
  -- both halves of a reserved page are reserved
  have hhalf : n.state = .reserved → ∀ b, ∃ j, (s₂.retype type p n₁).node (b :: p) = some j ∧
      j.state = .reserved := by
    intro hst b
    have hst₁ : n₁.state = .reserved := (congrArg Prod.fst hf).trans hst
    have hhas : s₂.Has (b :: p) := divide_has_half hi₁.shape b
    obtain ⟨j, hj⟩ := has_iff.mp hhas
    refine ⟨j, (hchild b j).mpr hj, ?_⟩
    rw [hi₂.shape.uniform b p n₁ j hn₂ (by rw [hst₁]; decide) hj, hst₁]
  refine ⟨hi₂.retype htype hn₂ hleaf₂ hpar₂, ?_,
    ((hg₁.types hi.lists hi₁.shape).trans (types_divide hi₁.shape hn₁ hne)).trans (types_retype hn₂ hleaf₂),
    suffix_cons _ _, rfl,
    (retype_has_iff (has_of_node hn₂)).mpr (divide_has_half hi₁.shape _),
    fun hw => ?_, ?_, ?_, ?_⟩
  · intro b q k hbq hk
    obtain ⟨-, rfl⟩ := cons.inj hbq
    obtain ⟨j, hj, -, -, -, hst⟩ := retype_node_self htype hn₂
    rw [hj] at hk
    cases hk
    exact hst.imp_right And.left
  · have hplace := (hi.shape.place p n hn).1
    rw [OnWay, length_cons, toward, ← hw, testBit_frameOf, hright]
    rw [show maxClass - (p.length + 1) = n.cls - 1 by omega]
  · intro q k hq hk
    have hqp : q ≠ p := by
      rintro rfl
      exact not_cons_suffix _ q hq
    obtain ⟨j, hj, hfj⟩ := hg₂.frames q k hk
    exact ⟨j, (retype_node_ne hqp).trans hj, hfj⟩
  · intro q k hpq hq hk hst
    rcases suffix_cons_iff.mp hq with rfl | hqp
    · obtain ⟨j, hj, hfj⟩ := hg₂.frames _ k hk
      exact ⟨j, (hchild right j).mpr hj, (congrArg Prod.fst hfj).trans hst⟩
    · obtain rfl := hpq.eq_of_length_le hqp.length_le
      rw [hn] at hk
      cases hk
      exact hhalf hst right
  · rintro t ht ⟨q, k, hqt, hk, hst⟩
    by_cases hqp : q = p
    · subst hqp
      rw [hn] at hk
      cases hk
      rcases suffix_cases hqt with rfl | ⟨c, hc⟩
      · exact absurd (suffix_cons right t) ht
      · obtain ⟨j, hj, hjst⟩ := hhalf hst c
        exact ⟨c :: q, j, hc, hj, hjst⟩
    · obtain ⟨j, hj, hfj⟩ := hg₂.frames q k hk
      exact ⟨q, j, hqt, (retype_node_ne hqp).trans hj, (congrArg Prod.fst hfj).trans hst⟩

lemma lookupLoop_typed {k : ℕ} (he : Provides ensure) (htype : type ≠ .partialNode)
    (hi : Inv ext (insert p F) s) (hn : s.node p = some n) (hk : k ≤ n.cls)
    (hpar : ParentOf type s p) (h : lookupLoop ensure type addr cls k s p = .ok r) :
    Approached ext F type addr p k s r := by
  induction k generalizing s p n with
  | zero =>
    cases h
    exact Approached.refl hi (has_of_node hn) hpar
  | succ k ih =>
    obtain ⟨r₁, h₁, h⟩ := bind_eq_ok.mp h
    have hone := lookupStep_typed he htype hi hn (by omega) hpar h₁
    obtain ⟨m, hm⟩ := has_iff.mp hone.has
    have hplace := (hi.shape.place p n hn).1
    have hplace' := (hone.inv.shape.place _ m hm).1
    have hlen := hone.length
    rw [Nat.add_comm k 1]
    exact hone.trans (ih hone.inv hm (by omega) hone.parent h)

/-- **`page_lookup`** for a type of memory: the page on the way to the address is attached. -/
theorem pageLookup_typed (he : Provides ensure) (htype : type ≠ .partialNode) (hi : Inv ext F s)
    (h : pageLookup ensure type s [] addr cls = .ok r) :
    ∃ s₁ n, Approached ext F type addr [] (maxClass - cls) s (s₁, r.2) ∧ s₁.node r.2 = some n ∧
      Attached type r.2 n s₁ r.1 ∧ Inv ext F r.1 := by
  obtain ⟨n₀, hn₀, h⟩ := bind_eq_ok.mp h
  rw [deref_eq_ok] at hn₀
  obtain ⟨⟨s₁, p⟩, h₁, h⟩ := bind_eq_ok.mp (then_ok h)
  rw [if_neg htype] at h
  obtain ⟨s₂, h₂, h⟩ := bind_eq_ok.mp h
  obtain ⟨m, -, h⟩ := bind_eq_ok.mp h
  replace h := then_ok h
  cases h
  have hcls : n₀.cls = maxClass := (hi.shape.place [] n₀ hn₀).1
  have hpar : ParentOf type s [] := fun b q _ hq => absurd hq.symm (cons_ne_nil b q)
  have happ := lookupLoop_typed he htype (hi.mono (Set.subset_insert [] F)) hn₀ (Nat.sub_le _ _) hpar h₁
  rw [hcls] at happ
  obtain ⟨n, hn⟩ := has_iff.mp happ.has
  have hatt := attachPage_attached happ.inv.shape happ.inv.lists hn h₂
  exact ⟨s₁, n, happ, hn, hatt, hatt.inv happ.inv hn happ.parent⟩

lemma attachLoop_inv {fin fuel iter t : ℕ} (htype : type ≠ .partialNode) (hi : Inv ext F s)
    (h : attachLoop type fin fuel iter t s = .ok s') : Inv ext F s' := by
  induction fuel generalizing iter t s with
  | zero =>
    cases h
    exact hi
  | succ fuel ih =>
    rw [attachLoop] at h
    split at h
    · obtain ⟨t', -, h⟩ := bind_eq_ok.mp h
      split at h
      · cases h
        exact hi
      · obtain ⟨r, hr, h⟩ := bind_eq_ok.mp h
        obtain ⟨_, _, -, -, -, hi'⟩ := pageLookup_typed provides_ensureFreeDesc htype hi hr
        exact ih hi' h
    · cases h
      exact hi

lemma Region.type_ne (x : Region) : x.type ≠ .partialNode := by
  unfold Region.type
  split <;> exact nofun

/-- **`attach_region`** keeps the invariant. -/
theorem attach_inv {x : Region} (hi : Inv ext F s) (h : x.attach s = .ok s') : Inv ext F s' :=
  attachLoop_inv x.type_ne hi h

lemma inv_initAllocator (kernelEnd : ℕ) : Inv (fun _ => 0) ∅ (initAllocator kernelEnd) := by
  have hroot : (initAllocator kernelEnd).node [] = some ⟨.partialNode, 0, maxClass, 0⟩ := rfl
  have hnone : ∀ b p, (initAllocator kernelEnd).node (b :: p) = none := fun _ _ => rfl
  have honly : ∀ p n, (initAllocator kernelEnd).node p = some n → p = [] ∧ n = ⟨.partialNode, 0, maxClass, 0⟩ := by
    intro p n hn
    cases p with
    | nil =>
      exact ⟨rfl, (Option.some.inj hn).symm⟩
    | cons b p =>
      cases hn
  refine ⟨⟨has_of_node hroot, fun b p h => absurd (hnone b p) h,
    fun b p h => absurd (hnone b p) h, ?_, ?_⟩, ⟨fun _ => nodup_nil, nofun, ?_⟩, ?_⟩
  · intro p n hn
    obtain ⟨rfl, rfl⟩ := honly p n hn
    exact ⟨rfl, rfl⟩
  · intro b p n m _ _ hm
    cases hm
  · intro p n hn hst
    obtain ⟨-, rfl⟩ := honly p n hn
    cases hst
  · refine ⟨fun n hn => ?_, fun b p n m _ _ hm => ?_, fun p hp => absurd hp (lt_irrefl 0), fun p => ?_⟩
    · obtain ⟨-, rfl⟩ := honly [] n hn
      rfl
    · rw [hnone] at hm
      cases hm
    · exact Nat.one_lt_two_pow (by decide)

end Jos.PmapModel
