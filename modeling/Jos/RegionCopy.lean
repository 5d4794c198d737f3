import Jos.RegionTiles
import Jos.MapRights

/-!
What `map_region` leaves of the address spaces when it copies a region.

The pages of the region are copied one after the other, in the order of their addresses. Where the
source has a page, the destination gets it; where the source has none, nothing is done.
-/

namespace Jos.PmapModel

open CArray Jos.Dyadic Runs AttachOrder Tiling RegionTiles List Function Nat

namespace VTree

def IsBranch (t : VTree) : Prop := t ≠ .null ∧ t.phy = none

/-- Above the depth `L` branches stay branches. -/
def Grows (L : ℕ) (t t' : VTree) : Prop := ∀ w, w.length < L → (t.sub w).IsBranch → (t'.sub w).IsBranch

variable {t u t' t'' : VTree} {L d : ℕ} {w : List Bool} {b : Bool}

lemma not_isBranch_null : ¬IsBranch .null := fun h => h.1 rfl

lemma Grows.refl (L : ℕ) (t : VTree) : Grows L t t := fun _ _ h => h

lemma Grows.trans (h : Grows L t t') (h' : Grows L t' t'') : Grows L t t'' := fun w hw hb => h' w hw (h w hw hb)

lemma Grows.mono {L' : ℕ} (h : Grows L t t') (hL : L' ≤ L) : Grows L' t t' := fun w hw => h w (by omega)

lemma grows_null (L : ℕ) (t : VTree) : Grows L .null t := fun w _ hb => by
  rw [null_sub] at hb
  exact absurd hb not_isBranch_null

lemma IsBranch.child_ne_null (h : ((t.child b).sub w).IsBranch) : t.child b ≠ .null := by
  intro hnull
  rw [hnull, null_sub] at h
  exact not_isBranch_null h

lemma IsBranch.setChild (h : t.IsBranch) (b : Bool) (u : VTree) : (t.setChild b u).IsBranch :=
  ⟨setChild_ne_null h.1 b u, (phy_setChild t b u).trans h.2⟩

lemma grows_put (u : VTree) (h : L ≤ w.length) : Grows L t (t.put u w) := by
  intro x hx hb
  induction w generalizing t x L with
  | nil => exact absurd hx (by simp only [length_nil] at h; omega)
  | cons b w ih =>
    rw [put_cons]
    cases x with
    | nil => exact hb.setChild b _
    | cons c x =>
      have hne := ne_null_of_child hb.child_ne_null
      rw [sub_cons]
      by_cases hc : c = b
      · rw [hc] at hb ⊢
        rw [child_setChild hne]
        exact ih (L := L - 1) (by simp only [length_cons] at h; omega) x (by simp only [length_cons] at hx; omega) hb
      · rw [child_setChild_ne hc]
        exact hb

end VTree

open VTree

variable {t root : VTree} {mode : LookupMode} {addr cls k d L : ℕ} {page : Path} {flags : UInt32}

/-- Looking up a node splits mappings and keeps branches. -/
lemma grows_lookupTree (mode : LookupMode) (addr cls k : ℕ) (h : t.Ok d) (L : ℕ) :
    Grows L t (lookupTree mode addr cls k t).1 := by
  intro w hw hb
  induction k generalizing t d w L with
  | zero => exact hb
  | succ k ih =>
    rw [lookupTree]
    split
    · exact hb
    generalize addr.testBit (cls + k + classBase) = right
    cases w with
    | nil =>
      have hb : t.IsBranch := hb
      refine IsBranch.setChild ?_ _ _
      unfold withChild
      split
      · rw [grow_of_phy hb.2]
        exact hb.setChild _ _
      · exact hb
    | cons c w =>
      have hchild : t.child c ≠ .null := hb.child_ne_null
      have hne := ne_null_of_child hchild
      have hphy := h.phy_of_child hchild
      have hne' : t.withChild right ≠ .null := ne_null_of_child (child_withChild hne right)
      rw [sub_cons]
      by_cases hc : c = right
      · subst hc
        have hsame : t.withChild c = t := if_neg hchild
        rw [child_setChild hne', hsame]
        exact ih (h.child c) (L - 1) w (by simp only [length_cons] at hw; omega) hb
      · rw [child_setChild_ne hc]
        have hsame : (t.withChild right).child c = t.child c := by
          unfold withChild
          split
          · rw [grow_of_phy hphy, child_setChild_ne hc]
          · rfl
        rw [hsame]
        exact hb

lemma grows_mapped (addr cls : ℕ) (page : Path) (flags : UInt32) (h : root.Ok 0) :
    Grows (maxClass - cls) root (mapped addr cls page flags root) := by
  refine Grows.trans (grows_lookupTree .alloc addr cls (maxClass - cls) h _) ?_
  refine grows_put _ ?_
  rw [length_wayTo]

variable {σ σ' σ₁ : Mem} {space dspace sspace dst src size : ℕ} {C : Setting} {r : Mem × Res}
  {phy : Path} {oldflags prot : UInt32} {w : List Bool}

lemma mapPage_grows {n : Page} (hσ : σ.Formed) (hn : σ.phys.node page = some n)
    (h : mapPage space addr page flags σ = .ok r) (u : ℕ) :
    Grows (maxClass - n.cls) (σ.root u) (r.1.root u) := by
  obtain ⟨m, hm, h⟩ := bind_eq_ok.mp (then_ok h)
  obtain rfl : n = m := Option.some.inj (hn.symm.trans (Phys.deref_eq_ok.mp hm))
  obtain ⟨τ, hτ, h⟩ := bind_eq_ok.mp (then_ok h)
  obtain ⟨bits, -, h⟩ := bind_eq_ok.mp h
  obtain ⟨r₁, h₁, h⟩ := bind_eq_ok.mp (then_ok h)
  cases h
  rw [show r₁.1.root = τ.root from (mapEntries_only h₁).root]
  unfold mapNode at hτ
  split at hτ
  · cases hτ
    exact .refl _ _
  obtain ⟨σ₁, hσ₁, hτ⟩ := bind_eq_ok.mp hτ
  obtain ⟨x, hx, hτ⟩ := bind_eq_ok.mp hτ
  cases hτ
  obtain ⟨-, x₁, hx₁, ht₁⟩ := unmapPage_inv hσ₁
  have hroots : σ₁.root = update σ.root space x₁.2 := ht₁.root
  by_cases hu : u = space
  · rw [hu]
    by_cases hnull : σ.root space = .null
    · rw [hnull]
      exact grows_null _ _
    have hroot : σ₁.root space = unmapped addr n.cls (σ.root space) := by
      rw [hroots, update_self, unmapTree_tree hx₁]
    rw [hroot] at hx
    have hx₂ := mapTree_tree (hσ.trees space) hnull hx
    show Grows _ _ (update σ₁.root space x.2 space)
    rw [update_self, hx₂]
    exact grows_mapped _ _ _ _ (hσ.trees space)
  · show Grows _ _ (update σ₁.root space x.2 u)
    rw [update_of_ne hu, hroots, update_of_ne hu]
    exact .refl _ _

lemma samePage_iff_range {va : ℕ} (hcls : cls ≤ maxClass) (halign : classSize cls ∣ addr)
    (haddr : addr + classSize cls ≤ treeSize) (hva : va < treeSize) :
    SamePage cls addr va ↔ addr ≤ va ∧ va < addr + classSize cls := by
  have hpos := classSize_pos cls
  obtain ⟨q, rfl⟩ := halign
  rw [samePage_iff hcls, Nat.mod_eq_of_lt hva, Nat.mod_eq_of_lt (by omega), Nat.mul_div_cancel_left _ hpos]
  rw [Nat.div_eq_iff hpos, Nat.mul_comm q]
  omega

lemma frame_offset (halign : classSize cls ∣ addr) (o : ℕ) :
    (addr + o) / 2 ^ classBase % 2 ^ cls = o / 2 ^ classBase % 2 ^ cls := by
  obtain ⟨q, rfl⟩ := halign
  have hsplit : classSize cls * q + o = 2 ^ classBase * (2 ^ cls * q) + o := by
    rw [classSize, pow_add]
    ring
  rw [hsplit, Nat.mul_add_div (Nat.two_pow_pos _), Nat.mul_add_mod]

/-- A lazy page is asked for as one that is not: the source gets a copy of its own first. -/
def ForcesCopy (oldflags flags : UInt32) : Prop :=
  ¬Sets (combine oldflags flags) protLazy ∧ Sets oldflags protLazy
  deriving Decidable

/-- The source has a page at the address, and the destination the same one: the page that the source
had before, unless it was to be copied. -/
def SharesPage (flags : UInt32) (before source target : Option (ℕ × UInt32)) : Prop :=
  ∀ f prot, before = some (f, prot) → ∃ f' prot' prot'', source = some (f', prot') ∧ target = some (f', prot'') ∧
    (¬ForcesCopy (prot &&& protAll) flags → f' = f)

/-- **A range was copied**: the destination has the pages of the source, and is as before elsewhere. -/
structure Copied (flags : UInt32) (dspace dst sspace src len : ℕ) (σ σ' : Mem) : Prop where
  formed : σ'.Formed
  mapped : ∀ o < len,
    SharesPage flags (σ.view sspace (src + o)) (σ'.view sspace (src + o)) (σ'.view dspace (dst + o))
  hole : ∀ o < len, σ.view sspace (src + o) = none → σ'.view dspace (dst + o) = σ.view dspace (dst + o)
  others : ∀ u va, va < treeSize → ¬(u = dspace ∧ dst ≤ va ∧ va < dst + len) →
    ¬(u = sspace ∧ src ≤ va ∧ va < src + len) → σ'.view u va = σ.view u va

structure Separate (dspace dst sspace src len : ℕ) : Prop where
  target : dst + len ≤ treeSize
  source : src + len ≤ treeSize
  apart : sspace = dspace → dst + len ≤ src ∨ src + len ≤ dst

variable {len len' : ℕ}

lemma Separate.left (h : Separate dspace dst sspace src (len + len')) : Separate dspace dst sspace src len :=
  ⟨by have := h.target; omega, by have := h.source; omega, fun he => (h.apart he).imp (by omega) (by omega)⟩

lemma Separate.right (h : Separate dspace dst sspace src (len + len')) :
    Separate dspace (dst + len) sspace (src + len) len' :=
  ⟨by have := h.target; omega, by have := h.source; omega, fun he => (h.apart he).imp (by omega) (by omega)⟩

namespace Copied

lemma of_view (hσ : σ'.Formed) (hview : σ'.view = σ.view) (hnone : ∀ o < len, σ.view sspace (src + o) = none) :
    Copied flags dspace dst sspace src len σ σ' where
  formed := hσ
  mapped := fun o ho f prot h => by
    rw [hnone o ho] at h
    cases h
  hole := fun o _ _ => by rw [hview]
  others := fun u va _ _ _ => by rw [hview]

lemma congr (h : Copied flags dspace dst sspace src len σ₁ σ') (hview : σ₁.view = σ.view) :
    Copied flags dspace dst sspace src len σ σ' where
  formed := h.formed
  mapped := hview ▸ h.mapped
  hole := hview ▸ h.hole
  others := hview ▸ h.others

lemma source_right (h : Copied flags dspace dst sspace src len σ σ₁) (ha : Separate dspace dst sspace src (len + len'))
    {o : ℕ} (hlo : len ≤ o) (hhi : o < len + len') : σ₁.view sspace (src + o) = σ.view sspace (src + o) := by
  have hsrc := ha.source
  have happart := ha.apart
  refine h.others sspace (src + o) (by omega) (fun hd => ?_) (fun hs => by omega)
  rcases happart hd.1 with h' | h' <;> omega

lemma append (h : Copied flags dspace dst sspace src len σ σ₁)
    (h' : Copied flags dspace (dst + len) sspace (src + len) len' σ₁ σ')
    (ha : Separate dspace dst sspace src (len + len')) : Copied flags dspace dst sspace src (len + len') σ σ' := by
  have hdst := ha.target
  have happart := ha.apart
  -- the second copy leaves the first one alone
  have hkept : ∀ o < len, σ'.view dspace (dst + o) = σ₁.view dspace (dst + o) := fun o ho => by
    refine h'.others dspace (dst + o) (by omega) (fun hd => by omega) (fun hs => ?_)
    rcases happart hs.1.symm with h' | h' <;> omega
  have hsource : ∀ o < len, σ'.view sspace (src + o) = σ₁.view sspace (src + o) := fun o ho => by
    have hsrc := ha.source
    refine h'.others sspace (src + o) (by omega) (fun hd => ?_) (fun hs => by omega)
    rcases happart hd.1 with h' | h' <;> omega
  have hbefore : ∀ o, len ≤ o → o < len + len' → σ₁.view dspace (dst + o) = σ.view dspace (dst + o) := by
    intro o hlo hhi
    refine h.others dspace (dst + o) (by omega) (fun hd => by omega) (fun hs => ?_)
    rcases happart hs.1.symm with h' | h' <;> omega
  refine ⟨h'.formed, fun o ho => ?_, fun o ho hnone => ?_, fun u va hva hd hs => ?_⟩
  · rcases lt_or_ge o len with hlt | hge
    · rw [hkept o hlt, hsource o hlt]
      exact h.mapped o hlt
    · have hp := h'.mapped (o - len) (by omega)
      rw [Nat.add_assoc, Nat.add_assoc, Nat.add_sub_cancel' hge, h.source_right ha hge ho] at hp
      exact hp
  · rcases lt_or_ge o len with hlt | hge
    · rw [hkept o hlt]
      exact h.hole o hlt hnone
    · rw [← h.source_right ha hge ho] at hnone
      have hp := h'.hole (o - len) (by omega) (by rwa [Nat.add_assoc, Nat.add_sub_cancel' hge])
      rw [Nat.add_assoc, Nat.add_sub_cancel' hge] at hp
      rw [hp]
      exact hbefore o hge ho
  · rw [h'.others u va hva (fun h => hd ⟨h.1, by omega, by omega⟩) (fun h => hs ⟨h.1, by omega, by omega⟩)]
    exact h.others u va hva (fun h => hd ⟨h.1, by omega, by omega⟩) (fun h => hs ⟨h.1, by omega, by omega⟩)

end Copied

/-- Where a page of the source is to be copied, `force_alloc_page` looks for it in the space of the source. -/
def ForcedHere (flags : UInt32) (sspace src len : ℕ) (σ : Mem) : Prop :=
  ∀ o < len, classSize 0 ∣ src + o → ∀ f prot, σ.view sspace (src + o) = some (f, prot) →
    ForcesCopy (prot &&& protAll) flags → forcedSpace sspace (src + o) = sspace

lemma ForcedHere.right {σ₁ : Mem} (h : ForcedHere flags sspace src (len + len') σ)
    (hview : ∀ o, len ≤ o → o < len + len' → σ₁.view sspace (src + o) = σ.view sspace (src + o)) :
    ForcedHere flags sspace (src + len) len' σ₁ := by
  intro o ho hdvd f prot hf
  rw [add_assoc] at hdvd hf ⊢
  rw [hview _ (by omega) (by omega)] at hf
  exact h _ (by omega) hdvd f prot hf

lemma not_sets_weak_combine (h : ¬Sets flags allocWeak) (oldflags : UInt32) :
    ¬Sets (keepShared oldflags (combine oldflags flags)) allocWeak := by
  have hand : ∀ f mask, ¬Sets f allocWeak → ¬Sets (f &&& mask) allocWeak := by
    intro f mask hf hs
    refine hf fun h0 => hs ?_
    rw [UInt32.and_assoc, UInt32.and_comm mask, ← UInt32.and_assoc, h0, UInt32.zero_and]
  have hcombine : ¬Sets (combine oldflags flags) allocWeak := by
    unfold combine
    split
    · split <;> exact hand _ _ h
    · exact h
  unfold keepShared
  split
  · rw [sets_or (by decide)]
    exact hand _ _ hcombine
  · exact hcombine

lemma not_sets_weak_old (oldflags : UInt32) : ¬Sets ((oldflags &&& protAll) ||| protLazy) allocWeak := by
  rw [sets_or (by decide)]
  unfold Sets
  rw [UInt32.and_assoc]
  have h0 : protAll &&& allocWeak = 0 := by decide
  rw [h0, UInt32.and_zero]
  exact not_not.mpr rfl

/-- The frames of the page are mapped at the address. -/
def PageAt (phy : Path) (cls space addr : ℕ) (σ : Mem) : Prop :=
  ∀ o < classSize cls, ∃ prot,
    σ.view space (addr + o) = some (start maxClass phy + o / 2 ^ classBase % 2 ^ cls, prot)

/-- Only the page of a class at the address may be mapped in another way, and branches above it stay. -/
structure OnlyAt (space addr cls : ℕ) (σ σ' : Mem) : Prop where
  formed : σ'.Formed
  grows : ∀ u, Grows (maxClass - cls) (σ.root u) (σ'.root u)
  others : ∀ u va, va < treeSize → ¬(u = space ∧ addr ≤ va ∧ va < addr + classSize cls) → σ'.view u va = σ.view u va

lemma OnlyAt.refl (hσ : σ.Formed) : OnlyAt space addr cls σ σ := ⟨hσ, fun _ => .refl _ _, fun _ _ _ _ => rfl⟩

section

variable (hσ : σ.Formed) (hlen : cls + phy.length = maxClass)
include hσ hlen

lemma mapPage_range (halign : classSize cls ∣ addr)
    (haddr : addr + classSize cls ≤ treeSize) (hweak : ¬Sets flags allocWeak)
    (h : mapPage space addr phy flags σ = .ok r) :
    OnlyAt space addr cls σ r.1 ∧ PageAt phy cls space addr r.1 := by
  obtain ⟨n, hn, -, hformed, hview⟩ := mapPage_view hσ h
  have hcls : n.cls = cls := by
    have := hσ.placed phy n hn
    omega
  have hgrows := mapPage_grows hσ hn h
  rw [hcls] at hview hgrows
  refine ⟨⟨hformed, hgrows, fun u va hva hout => ?_⟩, fun o ho => ⟨storedProt flags, ?_⟩⟩
  · rw [hview, if_neg]
    rintro ⟨hu, -, hsame⟩
    exact hout ⟨hu, (samePage_iff_range (by omega) halign haddr hva).mp hsame⟩
  · have hsame : SamePage cls addr (addr + o) :=
      (samePage_iff_range (by omega) halign haddr (by omega)).mpr ⟨by omega, by omega⟩
    rw [hview, if_pos ⟨rfl, hweak, hsame⟩, frame_offset halign]

section

variable (hd : classSize cls ∣ dst) (hs : classSize cls ∣ src)
  (ha : Separate dspace dst sspace src (classSize cls)) (hweak : ¬Sets flags allocWeak)
include hd hs ha hweak

/-- The page is mapped at the destination, and again at the source, if it is lazy from now on. -/
lemma mapOwned_both (hview : PageAt phy cls sspace src σ)
    (h : mapOwned dspace dst sspace src phy (oldflags &&& protAll) flags σ = .ok r) :
    r.1.Formed ∧ (∀ u, Grows (maxClass - cls) (σ.root u) (r.1.root u)) ∧ PageAt phy cls sspace src r.1 ∧
      PageAt phy cls dspace dst r.1 ∧
      ∀ u va, va < treeSize → ¬(u = dspace ∧ dst ≤ va ∧ va < dst + classSize cls) →
        ¬(u = sspace ∧ src ≤ va ∧ va < src + classSize cls) → r.1.view u va = σ.view u va := by
  obtain ⟨r₁, h₁, h⟩ := bind_eq_ok.mp h
  have hσ₀ : Mem.Formed { σ with phys := pageRef phy σ.phys } := hσ.withPhys (pageRef_placed hσ.placed phy)
  obtain ⟨hfirst, hin₁⟩ := mapPage_range hσ₀ hlen hd ha.target hweak (lift_eq_ok.mp h₁)
  obtain ⟨r₂, h₂, h⟩ := bind_eq_ok.mp h
  have htarget := ha.target
  have hsource := ha.source
  have happart := ha.apart
  have hsrc₁ : PageAt phy cls sspace src r₁.1 := fun o ho => by
    rw [hfirst.others sspace (src + o) (by omega) (fun hc => by rcases happart hc.1 with h' | h' <;> omega)]
    exact hview o ho
  -- with or without the second mapping, the first one stays
  obtain ⟨hsecond, hsrc₂⟩ : OnlyAt sspace src cls r₁.1 r₂.1 ∧ PageAt phy cls sspace src r₂.1 := by
    split at h₂
    · exact mapPage_range hfirst.formed hlen hs ha.source (not_sets_weak_old oldflags) (lift_eq_ok.mp h₂)
    · cases h₂
      exact ⟨.refl hfirst.formed, hsrc₁⟩
  obtain ⟨s, hs', h⟩ := bind_eq_ok.mp h
  cases h
  refine ⟨hsecond.formed.withPhys (pageUnref_placed (lift_eq_ok.mp hs') hsecond.formed.placed),
    fun u => (hfirst.grows u).trans (hsecond.grows u), hsrc₂, fun o ho => ?_, fun u va hva hd hs => ?_⟩
  · obtain ⟨p, hp⟩ := hin₁ o ho
    refine ⟨p, ?_⟩
    rw [← hp]
    exact hsecond.others dspace (dst + o) (by omega) (fun hc => by rcases happart hc.1.symm with h' | h' <;> omega)
  · exact (hsecond.others u va hva hs).trans (hfirst.others u va hva hd)

end

end

lemma allocCompositePage_grows (hσ : σ.Formed) (hcls : cls ≤ maxClass)
    (h : allocCompositePage space flags cls addr σ = .ok (σ', .ok)) (u : ℕ) :
    Grows (maxClass - cls) (σ.root u) (σ'.root u) := by
  -- the page that is found is not larger than the class
  have hmap : ∀ {cls addr : ℕ} {σ σ' : Mem} {s : Phys} {p : Path}, σ.Formed →
      allocPage false σ.phys cls = .ok (s, some p) →
      lift (mapPage space addr p flags { σ with phys := s }) = .ok (σ', .ok) →
      Grows (maxClass - cls) (σ.root u) (σ'.root u) := by
    intro cls addr σ σ' s p hσ hs h
    obtain ⟨hplaced, hlen⟩ := allocPage_length hσ.placed hs
    have hσ₀ : Mem.Formed { σ with phys := s } := hσ.withPhys hplaced
    obtain ⟨n, hn, -⟩ := mapPage_view hσ₀ (lift_eq_ok.mp h)
    have hplace := hplaced p n hn
    exact (mapPage_grows hσ₀ hn (lift_eq_ok.mp h) u).mono (by omega)
  induction cls generalizing addr σ σ' with
  | zero =>
    obtain ⟨⟨s, page⟩, hs, h⟩ := bind_eq_ok.mp (then_ok h)
    cases page with
    | none => cases h
    | some p => exact hmap hσ (lift_eq_ok.mp hs) h
  | succ cls ih =>
    obtain ⟨⟨s, page⟩, hs, h⟩ := bind_eq_ok.mp (then_ok h)
    cases page with
    | some p => exact hmap hσ (lift_eq_ok.mp hs) h
    | none =>
      have hσ₀ : Mem.Formed { σ with phys := s } :=
        hσ.withPhys (((allocPage_ends _ _ _).ok (lift_eq_ok.mp hs)).placed hσ.placed)
      obtain ⟨⟨σ₁, res⟩, h₁, h⟩ := bind_eq_ok.mp h
      split at h
      · next hres =>
        cases h
        exact absurd rfl hres
      next hres =>
      obtain rfl : res = .ok := not_not.mp hres
      obtain ⟨⟨σ₂, res⟩, h₂, h⟩ := bind_eq_ok.mp h
      split at h
      · next hres =>
        obtain ⟨σ₃, -, h⟩ := bind_eq_ok.mp h
        cases h
        exact absurd rfl hres
      cases h
      have hacts : Acts (fun _ _ _ => True) { σ with phys := s }
          (allocCompositePage space flags cls addr { σ with phys := s }) :=
        acts_allocCompositePage hσ₀ (by omega) fun _ _ _ _ _ => trivial
      have hfirst := (ih hσ₀ (by omega) h₁).mono (show maxClass - (cls + 1) ≤ _ by omega)
      exact hfirst.trans ((ih (hacts.effect h₁).formed (by omega) h₂).mono (by omega))

section

variable {l t : VTree} (hσ : σ.Formed) (hlen : cls + phy.length = maxClass) (hs : classSize cls ∣ src)
  (hsrc : src + classSize cls ≤ treeSize)
  (hnode : (σ.root sspace).sub (wayTo src cls (maxClass - cls)) = .node (.mapping prot) (some phy) l t)
include hσ hlen hs hsrc hnode

/-- **A lazy page of the source gets memory of its own**, and nothing else changes. -/
lemma forceAllocPage_here (hspace : forcedSpace sspace src = sspace)
    (h : forceAllocPage C sspace src maxClass σ = .ok (σ', .ok)) :
    OnlyAt sspace src cls σ σ' := by
  unfold forceAllocPage at h
  rw [hspace] at h
  obtain ⟨x, hx, h⟩ := bind_eq_ok.mp h
  obtain rfl : (σ.phys, σ.root sspace, []) = x := Except.ok.inj (lift_eq_ok.mp hx)
  obtain ⟨y, hy, h⟩ := bind_eq_ok.mp h
  have hsame : σ.looked sspace (σ.phys, σ.root sspace, []) = σ := by
    unfold Mem.looked Mem.setRoot
    rw [update_eq_self]
  rw [hsame] at hy h
  -- the way ends at the page
  have hpre : wayTo src cls (maxClass - cls) <+: wayTo src 0 (maxClass - 0) := by
    have hadd := wayTo_add src 0 cls (maxClass - cls)
    rw [zero_add, show cls + (maxClass - cls) = maxClass - 0 by omega] at hadd
    exact ⟨_, hadd.symm⟩
  have hway : y.2.2 = wayTo src cls (maxClass - cls) := by
    rw [show y.2 = lookupTree .preserve src 0 (maxClass - 0) (σ.root sspace) from lookupVirtual_tree (lift_eq_ok.mp hy)]
    exact lookupTree_preserve_mapping (hσ.trees sspace) hpre (by rw [hnode]; rfl)
  obtain ⟨⟨σ₁, res⟩, h₁, h⟩ := bind_eq_ok.mp h
  have hend : (σ₁, res) = (σ', Res.ok) := by
    unfold outOfMemory at h
    split at h
    · split at h
      · cases h
      obtain ⟨σ₂, -, h⟩ := bind_eq_ok.mp h
      split at h <;> cases h
    · exact Except.ok.inj h
  cases hend
  rw [hway, hnode] at h₁
  unfold forceNode at h₁
  dsimp only at h₁
  split at h₁
  · cases h₁
  -- the page is mapped again, or others in its place
  let Q : Change := fun u va _ => u = sspace ∧ SamePage cls src va
  have hclass : ∀ n, σ.phys.node phy = some n → n.cls = cls := fun n hn => by
    have := hσ.placed phy n hn
    omega
  have heffect : σ.Effect Q σ' := (acts_unshare (Q := Q) hσ fun n hn va x hva _ => ⟨rfl, hclass n hn ▸ hva⟩).effect h₁
  refine ⟨heffect.formed, fun u => ?_, fun u va hva hout => ?_⟩
  · obtain ⟨n, hn, h₁⟩ := bind_eq_ok.mp h₁
    have hn := Phys.deref_eq_ok.mp (lift_eq_ok.mp hn)
    rw [hclass n hn, mod_eq_zero_of_dvd hs, Nat.sub_zero] at h₁
    split at h₁
    · have hgrows := mapPage_grows hσ hn (lift_eq_ok.mp h₁) u
      rwa [hclass n hn] at hgrows
    · obtain ⟨⟨σ₂, res⟩, hr, h₁⟩ := bind_eq_ok.mp h₁
      obtain ⟨s, -, h₁⟩ := bind_eq_ok.mp h₁
      cases h₁
      exact allocCompositePage_grows (hσ.withPhys (pageRef_placed hσ.placed phy)) (by omega) hr u
  · refine (heffect.views u va).resolve_right fun hq => hout ⟨hq.1, ?_⟩
    exact (samePage_iff_range (by omega) hs hsrc hva).mp hq.2

/-- The page that is mapped after the copy is the one that the source has then. -/
lemma ownPage_here {phy' : Path} (hlazy : ¬Sets flags protLazy ∧ Sets oldflags protLazy)
    (hspace : forcedSpace sspace src = sspace)
    (h : ownPage C dspace dst sspace src phy oldflags flags σ = .ok (σ', .ok phy')) :
    OnlyAt sspace src cls σ σ' ∧ cls + phy'.length = maxClass ∧ PageAt phy' cls sspace src σ' := by
  unfold ownPage at h
  rw [if_pos hlazy] at h
  obtain ⟨n, hn, h⟩ := bind_eq_ok.mp h
  obtain ⟨⟨σ₁, res⟩, hr, h⟩ := bind_eq_ok.mp h
  split at h
  · cases h
  next hres =>
  obtain rfl : res = .ok := not_not.mp fun hne => hres (.inl hne)
  obtain ⟨y, hy, h⟩ := bind_eq_ok.mp h
  have hy := lift_eq_ok.mp hy
  obtain ⟨_, hc, h⟩ := bind_eq_ok.mp h
  have hdepth := check_eq_ok.mp hc
  have hforced := forceAllocPage_here hσ hlen hs hsrc hnode hspace hr
  have hplace := hσ.placed phy n (Phys.deref_eq_ok.mp (lift_eq_ok.mp hn))
  obtain rfl : cls = n.cls := by omega
  -- the way has its whole length, so it ends where the page was
  have hroot : σ₁.root sspace ≠ .null := fun hnull => by
    rw [hnull, null_sub] at h
    cases h
  obtain ⟨w, hw, hpre, -⟩ := lookupTree_preserve src n.cls (k := maxClass - n.cls) hroot
  have hway : y.2.2 = w := by
    rw [show y.2 = lookupTree .preserve src n.cls (maxClass - n.cls) (σ₁.root sspace) from lookupVirtual_tree hy, hw]
  have hfull : w = wayTo src n.cls (maxClass - n.cls) := hpre.eq_of_length (by
    rw [length_wayTo, ← hway]
    omega)
  rw [hway, hfull] at h
  have hok := (hforced.formed.trees sspace).sub (wayTo src n.cls (maxClass - n.cls))
  split at h
  · next st phy'' l' t' hnode' =>
    cases h
    rw [hnode'] at hok
    obtain ⟨hmap, hphy, -⟩ := hok.2.1 phy' rfl
    rw [length_wayTo] at hphy
    cases st with
    | intermediate => exact absurd rfl hmap
    | mapping prot' =>
      refine ⟨hforced, by omega, fun o ho => ⟨prot', ?_⟩⟩
      have hsame : SamePage n.cls src (src + o) :=
        (samePage_iff_range (by omega) hs hsrc (by omega)).mpr ⟨by omega, by omega⟩
      rw [← frame_offset hs]
      exact translation_of_mapping (hforced.formed.trees sspace) (by omega) hnode' hsame
  · cases h

/-- **`do_map_page`** copies the page of a node. -/
lemma copied_doMapPage (hd : classSize cls ∣ dst) (ha : Separate dspace dst sspace src (classSize cls))
    (hweak : ¬Sets flags allocWeak) (hhere : ForcesCopy (prot &&& protAll) flags → forcedSpace sspace src = sspace)
    (h : doMapPage C dspace dst sspace src phy (prot &&& protAll) flags σ = .ok (σ', .ok)) :
    Copied flags dspace dst sspace src (classSize cls) σ σ' ∧
      ∀ u, Grows (maxClass - cls) (σ.root u) (σ'.root u) := by
  have hview : ∀ o < classSize cls, σ.view sspace (src + o) =
      some (start maxClass phy + o / 2 ^ classBase % 2 ^ cls, prot) := fun o ho => by
    rw [← frame_offset hs]
    exact translation_of_mapping (hσ.trees sspace) (by omega) hnode
      ((samePage_iff_range (by omega) hs hsrc (by omega)).mpr ⟨by omega, by omega⟩)
  replace h := then_ok (then_ok h)
  split at h
  · cases h
  obtain ⟨⟨σ₁, owned⟩, hx, h⟩ := bind_eq_ok.mp h
  -- the page to map is the one of the source by then
  obtain ⟨phy', rfl, hown, hlen', hat, hkept⟩ : ∃ phy', owned = .ok phy' ∧ OnlyAt sspace src cls σ σ₁ ∧
      cls + phy'.length = maxClass ∧ PageAt phy' cls sspace src σ₁ ∧
      (¬ForcesCopy (prot &&& protAll) flags → phy' = phy) := by
    by_cases hforce : ForcesCopy (prot &&& protAll) flags
    · cases owned with
      | error res =>
        have hpos := classSize_pos cls
        cases ownPage_owned hσ hx with
        | done r _ _ hdone =>
          rcases hdone with hne | ⟨he, heq⟩
          · exact absurd (congrArg Prod.snd (Except.ok.inj h)) hne
          · rcases ha.apart he with h' | h' <;> omega
      | ok phy' =>
        obtain ⟨hforced, hlen', hat⟩ := ownPage_here hσ hlen hs hsrc hnode hforce (hhere hforce) hx
        exact ⟨phy', rfl, hforced, hlen', hat, fun hno => absurd hforce hno⟩
    · have hno : ¬(¬Sets (combine (prot &&& protAll) flags) protLazy ∧ Sets (prot &&& protAll) protLazy) := hforce
      unfold ownPage at hx
      rw [if_neg hno] at hx
      cases hx
      exact ⟨phy, rfl, .refl hσ, hlen, fun o ho => ⟨prot, hview o ho⟩, fun _ => rfl⟩
  obtain ⟨hf, hg, hsource, htarget, hout⟩ :=
    mapOwned_both hown.formed hlen' hd hs ha (not_sets_weak_combine hweak _) hat h
  refine ⟨⟨hf, fun o ho f p hp => ?_, fun o ho hnone => ?_, fun u va hva hd hs => ?_⟩, fun u => (hown.grows u).trans (hg u)⟩
  · cases (hview o ho).symm.trans hp
    obtain ⟨p', hp'⟩ := hsource o ho
    obtain ⟨p'', hp''⟩ := htarget o ho
    exact ⟨_, p', p'', hp', hp'', fun hno => by rw [hkept hno]⟩
  · cases (hview o ho).symm.trans hnone
  · rw [hout u va hva hd hs, hown.others u va hva hs]

end

def NodeView (σ : Mem) (sspace src cls : ℕ) (w : List Bool) : Prop :=
  ∀ o < classSize cls, σ.view sspace (src + o) = translate (src + o) cls ((σ.root sspace).sub w)

lemma nodeView_of_sub (hσ : σ.Formed) (hcls : cls ≤ maxClass) (hs : classSize cls ∣ src)
    (hsrc : src + classSize cls ≤ treeSize) (hsub : (σ.root sspace).sub (wayTo src cls (maxClass - cls)) ≠ .null) :
    NodeView σ sspace src cls (wayTo src cls (maxClass - cls)) := by
  intro o ho
  have hsame : SamePage cls src (src + o) := (samePage_iff_range hcls hs hsrc (by omega)).mpr ⟨by omega, by omega⟩
  have hway : wayTo (src + o) cls (maxClass - cls) = wayTo src cls (maxClass - cls) := hsame
  have htop : cls + (maxClass - cls) = maxClass := by omega
  have hview : translate (src + o) (cls + (maxClass - cls)) (σ.root sspace) = _ :=
    translate_sub (hσ.trees sspace) (by rw [hway]; exact hsub)
  rw [htop, hway] at hview
  exact hview

lemma testBit_half {o : ℕ} (h : classSize (cls + 1) ∣ src) (ho : o < classSize cls) (b : Bool) :
    (src + (if b then classSize cls else 0) + o).testBit (cls + classBase) = b := by
  obtain ⟨q, rfl⟩ := h
  have hpos := classSize_pos cls
  have hsize : 2 ^ (cls + classBase) = classSize cls := rfl
  have hsplit : classSize (cls + 1) * q + (if b then classSize cls else 0) + o =
      classSize cls * (2 * q + if b then 1 else 0) + o := by
    rw [classSize_double]
    split <;> ring
  rw [testBit_eq_decide_div_mod_eq, hsize, hsplit, mul_add_div hpos, div_eq_of_lt ho, add_zero]
  cases b <;> simp [add_mod]

lemma wayTo_half (hcls : cls + 1 ≤ maxClass) (hs : classSize (cls + 1) ∣ src)
    (hsrc : src + classSize (cls + 1) ≤ treeSize) (b : Bool) :
    wayTo src (cls + 1) (maxClass - (cls + 1)) ++ [b] =
      wayTo (src + if b then classSize cls else 0) cls (maxClass - cls) := by
  have hpos := classSize_pos cls
  have hdouble := classSize_double cls
  have hle : (if b then classSize cls else 0) ≤ classSize cls := by split <;> omega
  have hsame : SamePage (cls + 1) src (src + if b then classSize cls else 0) :=
    (samePage_iff_range hcls hs hsrc (by omega)).mpr ⟨by omega, by omega⟩
  have hway : wayTo (src + if b then classSize cls else 0) (cls + 1) (maxClass - (cls + 1)) = _ := hsame
  have hbit : (src + if b then classSize cls else 0).testBit (cls + 0 + classBase) = b := testBit_half hs hpos b
  rw [show maxClass - cls = 1 + (maxClass - (cls + 1)) by omega, wayTo_add, hway, wayTo, wayTo, hbit]

lemma NodeView.half (h : NodeView σ sspace src (cls + 1) w) (hb : ((σ.root sspace).sub w).IsBranch)
    (hs : classSize (cls + 1) ∣ src) (b : Bool) :
    NodeView σ sspace (src + if b then classSize cls else 0) cls (w ++ [b]) := by
  intro o ho
  have hdouble := classSize_double cls
  have hin : (if b then classSize cls else 0) + o < classSize (cls + 1) := by split <;> omega
  have hview := h _ hin
  rw [← add_assoc] at hview
  rw [hview, translate_child hb.2, testBit_half hs ho b, sub_append]
  rfl

lemma translate_branch_zero {va : ℕ} (h : t.IsBranch) : translate va 0 t = none := by
  cases t with
  | null => exact translate_null va 0
  | node st phy l r =>
    obtain rfl : phy = none := h.2
    rw [VTree.translate]

section Copy

variable (hd : classSize cls ∣ dst) (hs : classSize cls ∣ src)
  (ha : Separate dspace dst sspace src (classSize cls)) (hweak : ¬Sets flags allocWeak)
include hd hs ha hweak

lemma copied_passNode {below : Except Exit (Mem × Res)} (hσ : σ.Formed) (hcls : cls ≤ maxClass)
    (hw : w = wayTo src cls (maxClass - cls)) (hforce : ForcedHere flags sspace src (classSize cls) σ)
    (hnode : NodeView σ sspace src cls w)
    (hbelow : ((σ.root sspace).sub w).IsBranch → below = .ok (σ', .ok) →
      Copied flags dspace dst sspace src (classSize cls) σ σ' ∧ ∀ u, Grows (maxClass - cls) (σ.root u) (σ'.root u))
    (h : passNode C dspace dst sspace src flags ((σ.root sspace).sub w) σ below = .ok (σ', .ok)) :
    Copied flags dspace dst sspace src (classSize cls) σ σ' ∧ ∀ u, Grows (maxClass - cls) (σ.root u) (σ'.root u) := by
  have hok := (hσ.trees sspace).sub w
  have hpos := classSize_pos cls
  unfold NodeView at hnode
  cases hn : (σ.root sspace).sub w with
  | null =>
    rw [hn] at h hnode
    cases h
    exact ⟨.of_view hσ rfl fun o ho => by rw [hnode o ho, translate_null], fun u => .refl _ _⟩
  | node st phy l t =>
    rw [hn] at h hok hnode hbelow
    cases phy with
    | none =>
      replace h := then_ok h
      exact hbelow ⟨node_ne_null, rfl⟩ h
    | some phy =>
      obtain ⟨hmap, hphy, -⟩ := hok.2.1 phy rfl
      cases st with
      | intermediate => cases h
      | mapping prot =>
        rw [hw] at hn hphy
        rw [length_wayTo] at hphy
        have hview : σ.view sspace (src + 0) = some (_, prot) := (hnode 0 hpos).trans (translate_mapping ..)
        exact copied_doMapPage hσ (by omega) hs ha.source hn hd ha hweak
          (hforce 0 hpos ((classSize_dvd (Nat.zero_le cls)).trans hs) _ prot hview) h

end Copy

section

variable (hσ : σ.Formed) (hcls : cls ≤ maxClass) (hd : classSize cls ∣ dst) (hs : classSize cls ∣ src)
include hσ hcls hd hs

section

variable (ha : Separate dspace dst sspace src (classSize cls)) (hweak : ¬Sets flags allocWeak)
include ha hweak

/-- **`do_map_subtree`** copies what the node has. -/
lemma copied_doMapSubtree (hforce : ForcedHere flags sspace src (classSize cls) σ)
    (hw : w = wayTo src cls (maxClass - cls)) (hnode : NodeView σ sspace src cls w)
    (h : doMapSubtree C dspace sspace flags cls w dst src σ = .ok (σ', .ok)) :
    Copied flags dspace dst sspace src (classSize cls) σ σ' ∧ ∀ u, Grows (maxClass - cls) (σ.root u) (σ'.root u) := by
  have hlen : w.length + cls = maxClass := by
    rw [hw, length_wayTo]
    omega
  induction cls generalizing w dst src σ σ' with
  | zero =>
    refine copied_passNode hd hs ha hweak hσ hcls hw hforce hnode (fun hb hbelow => ?_) h
    cases hbelow
    exact ⟨.of_view hσ rfl fun o ho => by rw [hnode o ho, translate_branch_zero hb], fun u => .refl _ _⟩
  | succ cls ih =>
    refine copied_passNode hd hs ha hweak hσ hcls hw hforce hnode (fun hb hbelow => ?_) h
    have hdouble : classSize (cls + 1) = classSize cls + classSize cls := by
      rw [classSize_double, two_mul]
    have hhalf : classSize cls ∣ classSize (cls + 1) := classSize_dvd (le_succ cls)
    have hways := wayTo_half hcls hs ha.source
    have ha' : Separate dspace dst sspace src (classSize cls + classSize cls) := hdouble ▸ ha
    obtain ⟨⟨σ₁, res⟩, h₁, hbelow⟩ := bind_eq_ok.mp hbelow
    split at hbelow
    · next hres =>
      cases hbelow
      exact absurd rfl hres
    next hres =>
    obtain rfl : res = .ok := not_not.mp hres
    have hleft : NodeView σ sspace src cls (w ++ [false]) := hnode.half hb hs false
    obtain ⟨hcopy₁, hgrow₁⟩ := ih hσ (by omega) (hhalf.trans hd) (hhalf.trans hs) ha'.left
      (fun o ho => hforce o (by omega)) (by rw [hw]; exact hways false) hleft h₁
      (by rw [length_append, length_singleton]; omega)
    -- the node is still there, and what its right half has
    have hb₁ : ((σ₁.root sspace).sub w).IsBranch := hgrow₁ sspace w (by omega) hb
    have hnode₁ : NodeView σ₁ sspace src (cls + 1) w := by
      rw [hw] at hb₁ ⊢
      exact nodeView_of_sub hcopy₁.formed hcls hs ha.source hb₁.1
    have hright : NodeView σ₁ sspace (src + classSize cls) cls (w ++ [true]) := hnode₁.half hb₁ hs true
    have hforce₁ : ForcedHere flags sspace (src + classSize cls) (classSize cls) σ₁ :=
      (hdouble ▸ hforce).right fun o => hcopy₁.source_right ha'
    obtain ⟨hcopy₂, hgrow₂⟩ := ih hcopy₁.formed (by omega) (Nat.dvd_add (hhalf.trans hd) (dvd_refl _))
      (Nat.dvd_add (hhalf.trans hs) (dvd_refl _)) ha'.right hforce₁ (by rw [hw]; exact hways true) hright hbelow
      (by rw [length_append, length_singleton]; omega)
    refine ⟨by rw [hdouble]; exact hcopy₁.append hcopy₂ ha', fun u x hx hbx => ?_⟩
    exact hgrow₂ u x (by omega) (hgrow₁ u x (by omega) hbx)

lemma copied_copyRegionPage (hforce : ForcedHere flags sspace src (classSize cls) σ)
    (h : copyRegionPage C dspace dst sspace src cls flags σ = .ok (σ', .ok)) :
    Copied flags dspace dst sspace src (classSize cls) σ σ' := by
  obtain ⟨x, hx, h⟩ := bind_eq_ok.mp h
  have hx := lift_eq_ok.mp hx
  obtain ⟨hf, hview⟩ := looked_view hσ hx
  have hway : x.2.2 = wayTo src cls (maxClass - cls) := by
    rw [show x.2 = _ from pageLookupVirtual_alloc hx]
  have hroot : x.2.1 = (σ.looked sspace x).root sspace := by
    show _ = update σ.root sspace x.2.1 sspace
    rw [update_self]
  have hok := (hf.trees sspace).sub (wayTo src cls (maxClass - cls))
  rw [hway, hroot] at h
  have hforce' : ForcedHere flags sspace src (classSize cls) (σ.looked sspace x) := by
    unfold ForcedHere
    rw [hview]
    exact hforce
  have hsubtree : ((σ.looked sspace x).root sspace).sub (wayTo src cls (maxClass - cls)) ≠ .null →
      doMapSubtree C dspace sspace flags cls (wayTo src cls (maxClass - cls)) dst src (σ.looked sspace x) =
        .ok (σ', .ok) → Copied flags dspace dst sspace src (classSize cls) σ σ' := fun hsub h =>
    (copied_doMapSubtree hf hcls hd hs ha hweak hforce' rfl
      (nodeView_of_sub hf hcls hs ha.source hsub) h).1.congr hview
  cases hn : ((σ.looked sspace x).root sspace).sub (wayTo src cls (maxClass - cls)) with
  | null =>
    rw [hn] at h
    cases h
  | node st phy l t =>
    rw [hn] at h hok
    have hsub : ((σ.looked sspace x).root sspace).sub (wayTo src cls (maxClass - cls)) ≠ .null := by
      rw [hn]
      exact node_ne_null
    cases phy with
    | none => exact hsubtree hsub h
    | some phy =>
      obtain ⟨n, hnode, h⟩ := bind_eq_ok.mp h
      -- the page is of the class of the node
      obtain ⟨-, hphy, -⟩ := hok.2.1 phy rfl
      have hplace := hf.placed phy n (Phys.deref_eq_ok.mp (lift_eq_ok.mp hnode))
      rw [length_wayTo] at hphy
      rw [if_neg (by omega)] at h
      exact hsubtree hsub h

end

lemma copied_onePage (ha : Separate dspace dst sspace src (classSize cls))
    (hflags : ¬Sets flags (allocOne ||| allocZero)) (hweak : ¬Sets flags allocWeak)
    (hforce : ForcedHere flags sspace src (classSize cls) σ)
    (h : doMapRegionOnePage C dspace dst (some sspace) src cls flags σ = .ok (σ', .ok)) :
    Copied flags dspace dst sspace src (classSize cls) σ σ' := by
  replace h := then_ok h
  rw [if_neg hflags] at h
  exact copied_copyRegionPage hσ hcls hd hs ha hweak hforce h

end

lemma copied_sweep {ps : List Piece} {a : ℕ} (hσ : σ.Formed) (ha : Separate dspace dst sspace src size)
    (hflags : ¬Sets flags (allocOne ||| allocZero)) (hweak : ¬Sets flags allocWeak)
    (htiled : Tiled a (dst + size) ps) (hps : ∀ p ∈ ps, Passable dst src p ∧ p.cls ≤ maxClass) (hle : dst ≤ a)
    (hforce : ForcedHere flags sspace (sourceOf dst src a) (dst + size - a) σ)
    (h : sweep .ok (fun p => doMapRegionOnePage C dspace p.addr (some sspace) (sourceOf dst src p.addr) p.cls flags)
      ps σ = .ok (σ', .ok)) :
    Copied flags dspace a sspace (sourceOf dst src a) (dst + size - a) σ σ' := by
  induction ps generalizing a σ with
  | nil =>
    obtain rfl : a = dst + size := htiled
    cases h
    refine .of_view hσ rfl fun o ho => ?_
    omega
  | cons p ps ih =>
    obtain ⟨hp, htail⟩ := htiled
    dsimp only at htail
    have hbound := Tiles.le htail
    obtain ⟨⟨hd, hs, -⟩, hcls⟩ := hps p (by simp)
    obtain ⟨⟨σ₁, res⟩, h₁, h⟩ := bind_eq_ok.mp h
    split at h
    · next hres =>
      cases h
      exact absurd rfl hres
    next hres =>
    obtain rfl : res = .ok := not_not.mp hres
    obtain ⟨htarget, hsource, happart⟩ := ha
    dsimp only at h₁
    rw [hp] at h₁ hs
    have hd' : classSize p.cls ∣ a := hp ▸ hd
    have hnext : sourceOf dst src (a + classSize p.cls) = sourceOf dst src a + classSize p.cls := by
      unfold sourceOf
      omega
    have hsum : dst + size - a = classSize p.cls + (dst + size - (a + classSize p.cls)) := by omega
    have ha' : Separate dspace a sspace (sourceOf dst src a)
        (classSize p.cls + (dst + size - (a + classSize p.cls))) := by
      unfold sourceOf
      exact ⟨by omega, by omega, fun he => (happart he).imp (by omega) (by omega)⟩
    have hfirst := copied_onePage hσ hcls hd' hs ha'.left hflags hweak (fun o ho => hforce o (by omega)) h₁
    have hforce₁ : ForcedHere flags sspace (sourceOf dst src (a + classSize p.cls))
        (dst + size - (a + classSize p.cls)) σ₁ := by
      rw [hnext]
      exact (hsum ▸ hforce).right fun o => hfirst.source_right ha'
    have hrest := ih hfirst.formed htail (fun q hq => hps q (by simp [hq])) (by omega) hforce₁ h
    rw [hnext] at hrest
    rw [hsum]
    exact hfirst.append hrest ha'

/-- **A region was copied** as it should be: the pages of the source are mapped at the destination, and
nothing else is; elsewhere nothing has changed. -/
structure Faithful (flags : UInt32) (dspace dst sspace src size : ℕ) (σ σ' : Mem) : Prop where
  mapped : ∀ o < size,
    SharesPage flags (σ.view sspace (src + o)) (σ'.view sspace (src + o)) (σ'.view dspace (dst + o))
  unmapped : ∀ o < size, σ.view sspace (src + o) = none → σ'.view dspace (dst + o) = none
  others : ∀ u va, va < treeSize → ¬(u = dspace ∧ dst ≤ va ∧ va < dst + size) →
    ¬(u = sspace ∧ src ≤ va ∧ va < src + size) → σ'.view u va = σ.view u va

lemma treeSize_eq : treeSize = 2 ^ 60 := rfl

lemma copied_mapRegion (hσ : σ.Formed) (ha : Separate dspace dst sspace src size)
    (hflags : ¬Sets flags (allocOne ||| allocZero)) (hweak : ¬Sets flags allocWeak)
    (hforce : ForcedHere flags sspace src size σ)
    (h : mapRegion C dspace dst (some sspace) src size flags σ = .ok (σ', .ok)) :
    Copied flags dspace dst sspace src size σ σ' := by
  unfold mapRegion at h
  split at h
  · cases h
  next hs =>
  split at h
  · cases h
  next hd =>
  split at h
  · cases h
  next hsize =>
  rw [not_or, not_not] at hs hsize
  rw [not_not] at hd
  replace h := then_ok h
  have htarget := ha.target
  have hsource := ha.source
  rw [treeSize_eq] at htarget hsource
  obtain ⟨ps, htiled, hpass, hloop⟩ := mapLoops_tiles C dspace (some sspace) flags (dvd_of_mod_eq_zero hd)
    (dvd_of_mod_eq_zero hs.1) (dvd_of_mod_eq_zero hsize.1) (pos_of_ne_zero hsize.2) (by omega) (by omega)
  rw [hloop] at h
  have hstart : sourceOf dst src dst = src := Nat.add_sub_cancel_left dst src
  have hcopy := copied_sweep hσ ha hflags hweak htiled hpass le_rfl
    (by rw [hstart, Nat.add_sub_cancel_left]; exact hforce) h
  rwa [hstart, Nat.add_sub_cancel_left] at hcopy

/-- **`map_region` copies a region faithfully** exactly if the destination has no pages where the
source has none: these are left as they are. -/
theorem map_region_faithful_iff (hσ : σ.Formed) (hdst : dst + size ≤ 2 ^ 60) (hsrc : src + size ≤ 2 ^ 60)
    (hapart : sspace = dspace → dst + size ≤ src ∨ src + size ≤ dst)
    (hflags : ¬Sets flags (allocOne ||| allocZero)) (hweak : ¬Sets flags allocWeak)
    (hforce : ForcedHere flags sspace src size σ)
    (h : mapRegion C dspace dst (some sspace) src size flags σ = .ok (σ', .ok)) :
    Faithful flags dspace dst sspace src size σ σ' ↔
      ∀ o < size, σ.view sspace (src + o) = none → σ.view dspace (dst + o) = none := by
  have hcopy := copied_mapRegion hσ ⟨hdst, hsrc, hapart⟩ hflags hweak hforce h
  constructor
  · intro hfaithful o ho hnone
    rw [← hcopy.hole o ho hnone]
    exact hfaithful.unmapped o ho hnone
  · intro hholes
    refine ⟨hcopy.mapped, fun o ho hnone => ?_, hcopy.others⟩
    rw [hcopy.hole o ho hnone]
    exact hholes o ho hnone

def copyPage (r : Mem × Res) (x : ℕ × ℕ) : Except Exit (Mem × Res) :=
  mapRegion oneEnvSetting 1 x.1 (some 1) x.2 0x1000 (protR ||| protW ||| protUser) r.1

/-- An environment with a page that it shares with the filler -/
def lazyPage : List MemStep :=
  oneEnv ++ [.mapUser oneEnvSetting Jos.EnvTable.firstSlot 0x1000 0x1000
    (allocZero ||| protR ||| protW ||| protUser)]

set_option maxRecDepth 100000 in
lemma run_copyPage : ∃ σ, run memStep (bootMem 0x100000 true true) lazyPage = .ok σ ∧
    (((σ.root 1).sub (wayTo 0x1000 0 (maxClass - 0))).phy ≠ none ∧
      ∃ x, σ.view 1 0x1000 = some x ∧ ForcesCopy (x.2 &&& protAll) (protR ||| protW ||| protUser)) ∧
    (∃ r, run copyPage (σ, .ok) [(0x2000, 0x1000)] = .ok r ∧ r.2 = .ok ∧ r.1.view 1 0x1000 ≠ σ.view 1 0x1000) ∧
    ∃ r, run copyPage (σ, .ok) [(0x1000, 0x3000)] = .ok r ∧ r.2 = .ok ∧ σ.view 1 0x3000 = none ∧
      r.1.view 1 0x1000 ≠ none := by
  decide +kernel

/-- The page is lazy, and asked for as one that is not: a copy is made of it first. -/
theorem map_region_faithful_lazyPage :
    ∃ σ σ' x, run memStep (bootMem 0x100000 true true) lazyPage = .ok σ ∧
      mapRegion oneEnvSetting 1 0x2000 (some 1) 0x1000 0x1000 (protR ||| protW ||| protUser) σ = .ok (σ', .ok) ∧
      σ.view 1 0x1000 = some x ∧ ForcesCopy (x.2 &&& protAll) (protR ||| protW ||| protUser) ∧
      Faithful (protR ||| protW ||| protUser) 1 0x2000 1 0x1000 0x1000 σ σ' := by
  obtain ⟨σ, hσ, ⟨hphy, x, hx, hforce⟩, ⟨⟨σ', res⟩, hr, hres, -⟩, -⟩ := run_copyPage
  rw [run_singleton] at hr
  obtain rfl : res = .ok := hres
  have hformed : σ.Formed := (userFormed_of_run (by decide) hσ).toFormed
  refine ⟨σ, σ', x, hσ, hr, hx, hforce, ?_⟩
  refine (map_region_faithful_iff hformed (by decide) (by decide) (fun _ => by decide) (by decide) (by decide)
    (fun o ho _ _ _ _ _ => if_neg (by rw [show maxUserAddress = 0x8000000000 from rfl]; omega)) hr).mpr
    fun o ho hnone => ?_
  -- all of the page is there
  have hok := (hformed.trees 1).sub (wayTo 0x1000 0 (maxClass - 0))
  cases hn : (σ.root 1).sub (wayTo 0x1000 0 (maxClass - 0)) with
  | null => exact absurd (by rw [hn]; rfl) hphy
  | node st phy l t =>
    rw [hn] at hok hphy
    obtain ⟨p, rfl⟩ := Option.ne_none_iff_exists'.mp hphy
    cases st with
    | intermediate => exact absurd rfl (hok.2.1 p rfl).1
    | mapping prot =>
      have hsame : SamePage 0 0x1000 (0x1000 + o) :=
        (samePage_iff_range (by decide) (by decide) (by decide) (by rw [treeSize_eq]; omega)).mpr
          ⟨by omega, by rw [show classSize 0 = 0x1000 by decide]; omega⟩
      have hview := translation_of_mapping (hformed.trees 1) (by decide) hn hsame
      rw [show σ.view 1 (0x1000 + o) = _ from hview] at hnone
      cases hnone

/-- A page that is not there is copied over one that is: this one stays. -/
theorem map_region_keeps_page :
    ∃ σ σ', run memStep (bootMem 0x100000 true true) lazyPage = .ok σ ∧
      mapRegion oneEnvSetting 1 0x1000 (some 1) 0x3000 0x1000 (protR ||| protW ||| protUser) σ = .ok (σ', .ok) ∧
      σ.view 1 0x3000 = none ∧ σ'.view 1 0x1000 ≠ none ∧
      ¬Faithful (protR ||| protW ||| protUser) 1 0x1000 1 0x3000 0x1000 σ σ' := by
  obtain ⟨σ, hσ, -, -, ⟨σ', res⟩, hr, hres, hnone, hsome⟩ := run_copyPage
  rw [run_singleton] at hr
  obtain rfl : res = .ok := hres
  exact ⟨σ, σ', hσ, hr, hnone, hsome, fun h => hsome (h.unmapped 0 (by decide) hnone)⟩

end Jos.PmapModel
