import Jos.PhysShape
import Jos.Outcome

/-!
What all physical operations have in common. They never put a mapping in a list, and they check
nothing that has to do with one; and the class of a page follows from its place in the tree.
-/

namespace Jos.PmapModel

open CArray Jos.Dyadic Outcome Phys

/-- The failure is none of the assertions about mappings and references. -/
def Failure.Other : Failure → Prop
  | .assertion .pageUnref => False
  | .assertion .unmapPageRemove => False
  | .assertion .pageLookupVirtual => False
  | .assertion .allocVirtualChild => False
  | _ => True

instance : DecidablePred Failure.Other := fun e => by
  unfold Failure.Other
  split <;> infer_instance

def Phys.Shrunk (s s' : Phys) : Prop := ∀ q, s'.maps q ⊆ s.maps q

def Phys.Placed (s : Phys) : Prop := ∀ p n, s.node p = some n → n.cls + p.length = maxClass

structure Phys.Quiet (s s' : Phys) : Prop where
  maps : s.Shrunk s'
  placed : s.Placed → s'.Placed
  currentSpace : s'.currentSpace = s.currentSpace

variable {s s' s₁ : Phys} {p q : Path} {n : Page} {ensure : Ensure} {type : PageState}
  {addr cls fuel : ℕ} {site : Site}

lemma Phys.Shrunk.refl (s : Phys) : s.Shrunk s := fun _ => List.Subset.refl _

lemma Phys.Shrunk.trans (h : s.Shrunk s₁) (h' : s₁.Shrunk s') : s.Shrunk s' := fun q => List.Subset.trans (h' q) (h q)

lemma shrunk_listDel (s : Phys) (p : Path) : s.Shrunk (s.listDel p) := by
  intro q
  unfold listDel
  dsimp only
  by_cases hq : q = p
  · rw [hq, Function.update_self]
    exact List.nil_subset _
  · rw [Function.update_of_ne hq]
    exact List.Subset.refl _

lemma Phys.Shrunk.of_maps (h : s.Shrunk s₁) (hm : s'.maps = s₁.maps) : s.Shrunk s' := by
  intro q
  rw [hm]
  exact h q

lemma shrunk_freeDescriptor (s : Phys) (p : Path) : s.Shrunk (s.freeDescriptor p) := (shrunk_listDel s p).of_maps rfl

namespace Phys

lemma Quiet.refl (s : Phys) : s.Quiet s := ⟨Shrunk.refl s, id, rfl⟩

lemma Quiet.trans (h : s.Quiet s₁) (h' : s₁.Quiet s') : s.Quiet s' :=
  ⟨h.maps.trans h'.maps, h'.placed ∘ h.placed, h'.currentSpace.trans h.currentSpace⟩

lemma Quiet.of_eq (h : s.Quiet s₁) (hn : s'.node = s₁.node) (hm : s'.maps = s₁.maps)
    (hc : s'.currentSpace = s₁.currentSpace) : s.Quiet s' where
  maps := h.maps.of_maps hm
  placed := fun hp => by
    unfold Placed
    rw [hn]
    exact h.placed hp
  currentSpace := hc.trans h.currentSpace

lemma Quiet.set (h : s.Quiet s₁) (hn : s.Placed → n.cls + p.length = maxClass) : s.Quiet (s₁.set p n) where
  maps := h.maps
  placed := fun hp q m hm => by
    by_cases hq : q = p
    · rw [hq, set_node_self] at hm
      cases hm
      rw [hq]
      exact hn hp
    · rw [set_node_ne hq] at hm
      exact h.placed hp q m hm
  currentSpace := h.currentSpace

lemma quiet_listDel (s : Phys) (p : Path) : s.Quiet (s.listDel p) := ⟨shrunk_listDel s p, id, rfl⟩

lemma quiet_freeDescriptor (s : Phys) (p : Path) : s.Quiet (s.freeDescriptor p) where
  maps := shrunk_freeDescriptor s p
  placed := fun hp q m hm => by
    by_cases hq : q = p
    · rw [hq, freeDescriptor_node_self] at hm
      cases hm
    · rw [freeDescriptor_node_ne hq] at hm
      exact hp q m hm
  currentSpace := rfl

end Phys

lemma deref_ends (s : Phys) (p : Path) : Ends (s.deref p) (fun n => s.node p = some n) Failure.Other :=
  ends_of (fun _ hn => deref_eq_ok.mp hn) fun e he => by
    unfold deref at he
    cases hn : s.node p with
    | none =>
      rw [hn] at he
      cases he
      trivial
    | some n =>
      rw [hn] at he
      cases he

lemma assert_ends {P : Prop} [Decidable P] (h : P ∨ Failure.Other (.assertion site)) :
    Ends (assert site P) (fun _ => P) Failure.Other := by
  unfold assert
  split
  · next hp => exact hp
  · next hp => exact h.resolve_left hp

lemma listAppend_ends (s : Phys) (c : ℕ) (p : Path) : Ends (s.listAppend c p) s.Quiet Failure.Other := by
  unfold listAppend
  split
  · exact (Phys.Quiet.refl s).of_eq rfl rfl rfl
  · trivial

section Lookup

variable (he : ∀ count s, Ends (ensure count s) s.Quiet Failure.Other)
include he

lemma allocDescriptor_ends (s : Phys) : Ends (allocDescriptor ensure s) s.Quiet Failure.Other :=
  (he 1 s).bind fun _ hs => hs.of_eq rfl rfl rfl

lemma allocChild_ends (s : Phys) (p : Path) (right : Bool) :
    Ends (allocChild ensure s p right) s.Quiet Failure.Other := by
  refine (deref_ends s p).bind fun n hn => .ite (fun _ => Phys.Quiet.refl s) fun hcls => ?_
  refine (allocDescriptor_ends he s).bind fun s₁ h₁ => ?_
  refine (deref_ends s₁ p).bind fun n₁ hn₁ => h₁.set fun hp => ?_
  have hn := hp p n hn
  have hn₁ := h₁.placed hp p n₁ hn₁
  simp only [Page.half, List.length_cons]
  omega

lemma needChild_ends (s : Phys) (p : Path) (right : Bool) : Ends (needChild ensure s p right) s.Quiet Failure.Other :=
  .ite (fun _ => allocChild_ends he s p right) fun _ => Phys.Quiet.refl s

lemma lookupStep_ends (s : Phys) (p : Path) :
    Ends (lookupStep ensure type addr cls s p) (fun r => s.Quiet r.1) Failure.Other := by
  refine (deref_ends s p).bind fun n _ => (he _ s).bind fun s₁ h₁ => ?_
  refine (deref_ends s₁ p).bind fun n₁ hn₁ => ?_
  refine (needChild_ends he s₁ p false).bind fun s₂ h₂ => ?_
  refine (needChild_ends he s₂ p true).bind fun s₃ h₃ => ?_
  have hs₃ : s.Quiet s₃ := (h₁.trans h₂).trans h₃
  refine Ends.bind (P := fun s₄ => s.Quiet s₄) (.ite (fun _ => ?_) fun _ => hs₃) fun s₄ h₄ => ?_
  · refine (deref_ends s₃ _).bind fun _ _ => (assert_ends (.inr (by trivial))).bind fun _ _ => ?_
    exact (listAppend_ends _ _ _).imp fun _ h => (hs₃.trans (quiet_listDel _ _)).trans h
  · refine (assert_ends (.inr (by trivial))).bind fun _ _ => ?_
    dsimp only [Ends]
    split
    · exact h₄.set fun hp => h₁.placed hp p n₁ hn₁
    · exact h₄

lemma lookupLoop_ends (k : ℕ) (s : Phys) (p : Path) :
    Ends (lookupLoop ensure type addr cls k s p) (fun r => s.Quiet r.1) Failure.Other := by
  induction k generalizing s p with
  | zero => exact Phys.Quiet.refl s
  | succ k ih =>
    refine (lookupStep_ends he s p).bind fun r hr => ?_
    exact (ih r.1 r.2).imp fun _ h => hr.trans h

omit he in
lemma freeDescRec_ends (fuel : ℕ) (p : Path) (s : Phys) : Ends (freeDescRec fuel p s) s.Quiet Failure.Other := by
  induction fuel generalizing p s with
  | zero => exact Phys.Quiet.refl s
  | succ fuel ih =>
    rw [freeDescRec]
    cases s.node p with
    | none => exact Phys.Quiet.refl s
    | some n =>
      refine (assert_ends (.inr (by trivial))).bind fun _ _ => (ih (true :: p) s).bind fun s₁ h₁ => ?_
      exact (ih (false :: p) _).imp fun _ h => (h₁.trans (quiet_freeDescriptor s₁ p)).trans h

omit he in
lemma attachPage_ends (s : Phys) (p : Path) : Ends (attachPage type s p) s.Quiet Failure.Other := by
  refine (deref_ends s p).bind fun n hn => (assert_ends (.inr (by trivial))).bind fun _ _ => ?_
  refine (freeDescRec_ends _ _ s).bind fun s₁ h₁ => (freeDescRec_ends _ _ s₁).bind fun s₂ h₂ => ?_
  have hdel : s.Quiet (s₂.listDel p) := (h₁.trans h₂).trans (quiet_listDel s₂ p)
  have hset : s.Quiet ((s₂.listDel p).set p
      { n with state := if n.state = .reserved then .reserved else type }) := hdel.set fun hp => hp p n hn
  refine .ite (fun _ => ?_) fun _ => hset
  exact (listAppend_ends _ _ _).imp fun _ h => hset.trans h

lemma pageLookup_ends (s : Phys) (hint : Path) (addr cls : ℕ) :
    Ends (pageLookup ensure type s hint addr cls) (fun r => s.Quiet r.1) Failure.Other := by
  refine (deref_ends s hint).bind fun n _ => (assert_ends (.inr (by trivial))).bind fun _ _ => ?_
  refine (lookupLoop_ends he _ s hint).bind fun r hr => ?_
  refine Ends.bind (P := fun s₁ => s.Quiet s₁) (.ite (fun _ => hr) fun _ => ?_) fun s₁ h₁ => ?_
  · exact (attachPage_ends r.1 r.2).imp fun _ h => hr.trans h
  · exact (deref_ends s₁ _).bind fun _ _ => (assert_ends (.inr (by trivial))).bind fun _ _ => h₁

end Lookup

lemma quiet_pageRefRec (fuel : ℕ) (p : Path) (s : Phys) : s.Quiet (pageRefRec fuel p s) := by
  induction fuel generalizing p s with
  | zero => exact Phys.Quiet.refl s
  | succ fuel ih =>
    rw [pageRefRec]
    cases hn : s.node p with
    | none => exact Phys.Quiet.refl s
    | some n =>
      dsimp only
      have hset : s.Quiet (s.set p { n with refc := n.refc + 1 }) := (Phys.Quiet.refl s).set fun hp => hp p n hn
      split
      · exact ((hset.trans (quiet_listDel _ p)).trans (ih _ _)).trans (ih _ _)
      · exact hset

lemma quiet_pageRef (p : Path) (s : Phys) : s.Quiet (pageRef p s) := quiet_pageRefRec _ p s

lemma mergeUp_quiet {r : Phys × Path} (h : mergeUp p s = .ok r) : s.Quiet r.1 := by
  induction p generalizing s with
  | nil =>
    cases h
    exact Phys.Quiet.refl s
  | cons b p ih =>
    rw [mergeUp] at h
    obtain ⟨m, -, h⟩ := bind_eq_ok.mp h
    obtain ⟨n, -, h⟩ := bind_eq_ok.mp h
    split at h
    swap
    · cases h
      exact Phys.Quiet.refl s
    have hfree : s.Quiet ((s.freeDescriptor (false :: p)).freeDescriptor (true :: p)) :=
      (quiet_freeDescriptor s _).trans (quiet_freeDescriptor _ _)
    split at h
    · obtain ⟨s₂, h₂, h⟩ := bind_eq_ok.mp (then_ok h)
      exact (hfree.trans ((listAppend_ends _ _ _).ok h₂)).trans (ih h)
    · exact hfree.trans (ih h)

lemma releasePage_quiet (h : releasePage p s = .ok s') : s.Quiet s' := by
  obtain ⟨r, hr, h⟩ := bind_eq_ok.mp h
  obtain ⟨m, -, h⟩ := bind_eq_ok.mp h
  have hdel : s.Quiet (r.1.listDel r.2) := (mergeUp_quiet hr).trans (quiet_listDel _ _)
  split at h
  · exact hdel.trans ((listAppend_ends _ _ _).ok h)
  · cases h
    exact hdel

lemma pageUnrefRec_quiet (h : pageUnrefRec fuel p s = .ok s') : s.Quiet s' := by
  induction fuel generalizing p s s' with
  | zero =>
    cases h
    exact Phys.Quiet.refl s
  | succ fuel ih =>
    rw [pageUnrefRec] at h
    cases hn : s.node p with
    | none =>
      rw [hn] at h
      cases h
      exact Phys.Quiet.refl s
    | some n =>
      rw [hn] at h
      obtain ⟨s₁, h₁, h⟩ := bind_eq_ok.mp (then_ok h)
      obtain ⟨m, hm, h⟩ := bind_eq_ok.mp h
      have hs₁ : s.Quiet s₁ := by
        split at h₁
        · obtain ⟨s₀, h₀, h₁⟩ := bind_eq_ok.mp h₁
          exact (ih h₀).trans (ih h₁)
        · cases h₁
          exact Phys.Quiet.refl s
      have hset : s.Quiet (s₁.set p { m with refc := m.refc - 1 }) :=
        hs₁.set fun hp => hs₁.placed hp p m (deref_eq_ok.mp hm)
      dsimp only at h
      split at h
      · exact hset.trans (releasePage_quiet h)
      · cases h
        exact hset

lemma pageUnref_quiet (h : pageUnref p s = .ok s') : s.Quiet s' := pageUnrefRec_quiet h

lemma scanFree_ends (s : Phys) (fits : Page → Bool) (l : List Path) :
    Ends (scanFree s fits l) (fun _ => True) Failure.Other := by
  induction l with
  | nil => trivial
  | cons p l ih =>
    refine (deref_ends s p).bind fun n _ => (assert_ends (.inr (by trivial))).bind fun _ _ => ?_
    exact .ite (fun _ => trivial) fun _ => ih

lemma allocPageWith_ends (he : ∀ count s, Ends (ensure count s) s.Quiet Failure.Other)
    (pool bootmem : Bool) (s : Phys) (cls : ℕ) :
    Ends (allocPageWith ensure pool bootmem s cls) (fun r => s.Quiet r.1) Failure.Other := by
  refine (scanFree_ends s _ _).bind fun found _ => ?_
  cases found with
  | none => exact Phys.Quiet.refl s
  | some peer =>
    refine (deref_ends s peer).bind fun n _ => ?_
    dsimp only
    have hdel : s.Quiet (if pool then { s.listDel peer with freeDesc := s.freeDesc + poolEntries }
        else s.listDel peer) := by
      split
      · exact (quiet_listDel s peer).of_eq rfl rfl rfl
      · exact quiet_listDel s peer
    refine (pageLookup_ends he _ peer n.pa cls).bind fun r hr => ?_
    have hs := hdel.trans hr
    refine (deref_ends r.1 r.2).bind fun new _ => (assert_ends (.inr (by trivial))).bind fun _ _ => ?_
    refine Ends.bind (P := fun s₁ => s.Quiet s₁) (.ite (fun _ => ?_) fun _ => hs) fun s₁ h₁ => ?_
    · refine (assert_ends (.inr (by trivial))).bind fun _ _ => ?_
      exact (hs.trans (quiet_pageRef r.2 r.1)).of_eq rfl rfl rfl
    · exact (assert_ends (.inr (by trivial))).bind fun _ _ => h₁

lemma ensureHeld_ends (count : ℕ) (s : Phys) : Ends (ensureHeld count s) s.Quiet Failure.Other :=
  .ite (fun _ => trivial) fun _ => Phys.Quiet.refl s

lemma ensureFreeDesc_ends (count : ℕ) (s : Phys) : Ends (ensureFreeDesc count s) s.Quiet Failure.Other := by
  refine .ite (fun _ => ?_) fun _ => Phys.Quiet.refl s
  refine (allocPageWith_ends ensureHeld_ends _ _ s _).bind fun r hr => ?_
  cases r.2 with
  | none => trivial
  | some p => exact (assert_ends (.inr (by trivial))).bind fun _ _ => hr

lemma allocPage_ends (bootmem : Bool) (s : Phys) (cls : ℕ) :
    Ends (allocPage bootmem s cls) (fun r => s.Quiet r.1) Failure.Other :=
  allocPageWith_ends ensureFreeDesc_ends _ _ s cls

lemma attachLoop_quiet {fin iter t : ℕ} (h : attachLoop type fin fuel iter t s = .ok s') : s.Quiet s' := by
  induction fuel generalizing iter t s with
  | zero =>
    cases h
    exact .refl _
  | succ fuel ih =>
    rw [attachLoop] at h
    split at h
    swap
    · cases h
      exact .refl _
    obtain ⟨t', -, h⟩ := bind_eq_ok.mp h
    split at h
    · cases h
      exact .refl _
    · obtain ⟨r, hr, h⟩ := bind_eq_ok.mp h
      exact ((pageLookup_ends ensureFreeDesc_ends s [] iter (t' - 1)).ok hr).trans (ih h)

end Jos.PmapModel
