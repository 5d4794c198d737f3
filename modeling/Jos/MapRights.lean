import Jos.UserConfined

/-!
The rights of the mappings that `do_map_page` makes, compared with those of the mapping they are
made from.
-/

namespace Jos.PmapModel

open CArray Jos.Dyadic Runs Nat Option

def HasMore (oldflags flags : UInt32) : Prop := Sets (~~~oldflags &&& protRwx) flags
  deriving Decidable

/-- A shared page is asked for as a lazy one, with more rights, and without `PROT_COMBINE`. -/
def Escalates (oldflags flags : UInt32) : Prop :=
  Sets oldflags protShare ∧ Sets flags protLazy ∧ ¬Sets flags protCombine ∧ HasMore oldflags flags
  deriving Decidable

variable {f flags oldflags prot mask : UInt32}

lemma hasMore_and (h : protRwx &&& mask = protRwx) (oldflags f : UInt32) :
    HasMore oldflags (f &&& mask) ↔ HasMore oldflags f := by
  unfold HasMore Sets
  rw [and_mask (by rw [UInt32.and_assoc, h])]

lemma hasMore_or (h : protRwx &&& mask = 0) (oldflags f : UInt32) :
    HasMore oldflags (f ||| mask) ↔ HasMore oldflags f := by
  unfold HasMore Sets
  rw [and_or_disjoint (by rw [UInt32.and_assoc, h, UInt32.and_zero])]

lemma hasMore_storedProt (oldflags f : UInt32) : HasMore oldflags (storedProt f) ↔ HasMore oldflags f := by
  unfold storedProt
  rw [hasMore_and (by decide), hasMore_and (by decide)]

lemma sets_and (h : prot &&& mask = prot) (f : UInt32) : Sets (f &&& mask) prot ↔ Sets f prot := by
  rw [sets_comm, sets_comm f]
  unfold Sets
  rw [and_mask h]

lemma sets_or (h : prot &&& mask = 0) (f : UInt32) : Sets (f ||| mask) prot ↔ Sets f prot := by
  rw [sets_comm, sets_comm f]
  unfold Sets
  rw [and_or_disjoint h]

lemma sets_or_lazy (f : UInt32) : Sets (f ||| protLazy) protLazy := by
  have hself : (f ||| protLazy) &&& protLazy = protLazy := by
    refine UInt32.toNat_inj.mp (eq_of_testBit_eq fun i => ?_)
    rw [UInt32.toNat_and, UInt32.toNat_or, testBit_and, testBit_or]
    cases protLazy.toNat.testBit i <;> simp
  unfold Sets
  rw [hself]
  decide

lemma sets_storedProt_lazy (f : UInt32) : Sets (storedProt f) protLazy ↔ Sets f protLazy := by
  unfold storedProt
  rw [sets_and (by decide), sets_and (by decide)]

lemma hasMore_keepShared (oldflags f : UInt32) : HasMore oldflags (keepShared oldflags f) ↔ HasMore oldflags f := by
  unfold keepShared
  split
  · rw [hasMore_or (by decide), hasMore_and (by decide)]
  · rfl

lemma not_sets_mask (f mask : UInt32) : ¬Sets (f &&& ~~~mask) mask := by
  unfold Sets
  rw [UInt32.and_assoc, UInt32.not_and_self, UInt32.and_zero]
  exact not_not.mpr rfl

lemma sets_keepShared_lazy (oldflags f : UInt32) :
    Sets (keepShared oldflags f) protLazy ↔ Sets f protLazy ∧ ¬Sets oldflags protShare := by
  unfold keepShared
  split
  · next h => exact iff_of_false (by rw [sets_or (by decide)]; exact not_sets_mask f protLazy) fun h' => h'.2 h.1
  · next h => exact ⟨fun hf => ⟨hf, fun ho => h ⟨ho, hf⟩⟩, And.left⟩

lemma not_hasMore_and {other : UInt32} (h : ¬HasMore oldflags other) (f : UInt32) :
    ¬HasMore oldflags (f &&& other) := by
  unfold HasMore Sets at h ⊢
  rw [not_not] at h ⊢
  rw [UInt32.and_comm f, ← UInt32.and_assoc, h, UInt32.zero_and]

lemma not_hasMore_self (oldflags : UInt32) : ¬HasMore oldflags oldflags := by
  unfold HasMore Sets
  rw [UInt32.and_comm, ← UInt32.and_assoc, UInt32.and_not_self, UInt32.zero_and]
  exact not_not.mpr rfl

lemma not_hasMore_combine (h : Sets flags protCombine) (oldflags : UInt32) :
    ¬HasMore oldflags (combine oldflags flags) := by
  unfold combine
  rw [if_pos h]
  split
  · exact not_hasMore_and (not_hasMore_self oldflags) flags
  · refine not_hasMore_and ?_ flags
    rw [hasMore_or (by decide)]
    exact not_hasMore_self oldflags

lemma stored_hasMore_iff (h : ¬GainsRights oldflags (combine oldflags flags)) :
    (¬Sets (storedProt (keepShared oldflags (combine oldflags flags))) protLazy →
      ¬HasMore oldflags (storedProt (keepShared oldflags (combine oldflags flags)))) ↔
    ¬Escalates oldflags flags := by
  rw [sets_storedProt_lazy, hasMore_storedProt, sets_keepShared_lazy, hasMore_keepShared]
  by_cases hcombine : Sets flags protCombine
  · exact iff_of_true (fun _ => not_hasMore_combine hcombine oldflags) fun he => he.2.2.1 hcombine
  · have heq : combine oldflags flags = flags := if_neg hcombine
    rw [heq] at h ⊢
    unfold Escalates
    tauto

lemma Unshared.not_hasMore {prot' : UInt32} (h : Unshared prot prot') : ¬HasMore (prot &&& protAll) prot' := by
  have hkeep : HasMore (prot &&& protAll) (prot &&& protAll) ↔ HasMore (prot &&& protAll) prot :=
    hasMore_and (by decide) _ _
  have hprot : ¬HasMore (prot &&& protAll) prot := hkeep.not.mp (not_hasMore_self _)
  rcases h with rfl | rfl
  · rw [hasMore_storedProt, hasMore_and (by decide), UInt32.or_comm, hasMore_or (by decide)]
    exact hprot
  · rw [hasMore_storedProt, hasMore_and (by decide)]
    exact not_hasMore_self _

variable {C : Setting} {σ σ' : Mem} {dspace dst sspace src cls : ℕ} {phy : Path}

variable {r : Mem × Res}

lemma forceAllocPage_formed {va : ℕ} (hσ : σ.Formed)
    (h : forceAllocPage C sspace va maxClass σ = .ok r) : r.1.Formed := by
  have hacts : Acts (fun _ _ _ => True) σ (forceAllocPage C sspace va maxClass σ) :=
    acts_forceAllocPage hσ (fun _ _ _ _ _ _ _ _ _ => trivial) fun _ _ => trivial
  exact (hacts.effect h).formed

/-- How `do_map_page` gets the page to map. -/
inductive Owned (C : Setting) (dspace dst sspace src : ℕ) (phy : Path) (oldflags flags : UInt32) (σ : Mem) :
    Mem × Except Res Path → Prop
  /-- the page is mapped as it is -/
  | asIs (h : Sets flags protLazy ∨ ¬Sets oldflags protLazy) : Owned C dspace dst sspace src phy oldflags flags σ (σ, .ok phy)
  /-- there is nothing left to do -/
  | done (r : Mem × Res) (h : ¬Sets flags protLazy ∧ Sets oldflags protLazy)
      (hr : forceAllocPage C sspace src maxClass σ = .ok r) (hdone : r.2 ≠ .ok ∨ sspace = dspace ∧ src = dst) :
      Owned C dspace dst sspace src phy oldflags flags σ (r.1, .error r.2)
  /-- a page of the same size -/
  | copied (r : Mem × Res) (phy' : Path) (h : ¬Sets flags protLazy ∧ Sets oldflags protLazy)
      (hr : forceAllocPage C sspace src maxClass σ = .ok r) (hlen : phy'.length = phy.length) :
      Owned C dspace dst sspace src phy oldflags flags σ (r.1, .ok phy')

lemma ownPage_owned {x : Mem × Except Res Path} (hσ : σ.Formed)
    (h : ownPage C dspace dst sspace src phy oldflags flags σ = .ok x) :
    Owned C dspace dst sspace src phy oldflags flags σ x := by
  unfold ownPage at h
  split at h
  swap
  · next hno =>
    cases h
    exact .asIs (by tauto)
  next hlazy =>
  obtain ⟨n, hn, h⟩ := bind_eq_ok.mp h
  obtain ⟨r, hr, h⟩ := bind_eq_ok.mp h
  split at h
  · next hdone =>
    cases h
    exact .done r hlazy hr hdone
  obtain ⟨y, hy, h⟩ := bind_eq_ok.mp h
  obtain ⟨_, hc, h⟩ := bind_eq_ok.mp h
  have hlen := check_eq_ok.mp hc
  have hplace := hσ.placed phy n (Phys.deref_eq_ok.mp (lift_eq_ok.mp hn))
  have hok := ((forceAllocPage_formed hσ hr).trees sspace).sub y.2.2
  split at h
  · next st phy' l t hnode =>
    cases h
    rw [hnode] at hok
    obtain ⟨-, hphy, -⟩ := hok.2.1 phy' rfl
    exact .copied r phy' hlazy hr (by omega)
  · cases h

/-- The frames of the source page are mapped with no more rights, unless they are copied on write. -/
def NoMoreRights (cls dspace dst sspace src : ℕ) (oldflags : UInt32) (σ : Mem) : Prop :=
  ∀ va frame prot, SamePage cls dst va → σ.view dspace va = some (frame, prot) →
    (∃ va' prot', SamePage cls src va' ∧ σ.view sspace va' = some (frame, prot')) →
    ¬Sets prot protLazy → ¬HasMore oldflags prot

lemma mapOwned_view (hσ : σ.Formed) (hlen : cls + phy.length = maxClass)
    (hweak : ¬Sets flags allocWeak) (h : mapOwned dspace dst sspace src phy oldflags flags σ = .ok r) :
    dst % classSize cls = 0 ∧ ∀ u va, r.1.view u va = (if u = dspace ∧ SamePage cls dst va then
        some (start maxClass phy + va / 2 ^ classBase % 2 ^ cls, storedProt flags) else σ.view u va) ∨
      Sets flags protLazy ∧ ∃ frame prot, r.1.view u va = some (frame, prot) ∧ Sets prot protLazy := by
  obtain ⟨r₁, h₁, h⟩ := bind_eq_ok.mp h
  obtain ⟨r₂, h₂, h⟩ := bind_eq_ok.mp h
  obtain ⟨s, -, h⟩ := bind_eq_ok.mp h
  cases h
  have href : Mem.Formed { σ with phys := pageRef phy σ.phys } := hσ.withPhys (pageRef_placed hσ.placed phy)
  obtain ⟨n, hn, halign, hf, hview⟩ := mapPage_view href (lift_eq_ok.mp h₁)
  have hplace := href.placed phy n hn
  obtain rfl : n.cls = cls := by omega
  refine ⟨halign, fun u va => ?_⟩
  change r₂.1.view u va = _ ∨ _ ∧ ∃ frame prot, r₂.1.view u va = _ ∧ _
  have hfirst : r₁.1.view u va = if u = dspace ∧ SamePage n.cls dst va then
      some (start maxClass phy + va / 2 ^ classBase % 2 ^ n.cls, storedProt flags) else σ.view u va := by
    rw [hview]
    simp only [hweak, not_false_eq_true, true_and]
    rfl
  split at h₂
  · next hremap =>
    obtain ⟨m, -, -, -, hview'⟩ := mapPage_view hf (lift_eq_ok.mp h₂)
    rw [hview']
    split
    · exact .inr ⟨hremap.2.1, _, _, rfl, (sets_storedProt_lazy _).mpr (sets_or_lazy oldflags)⟩
    · exact .inl hfirst
  · cases h₂
    exact .inl hfirst

lemma forced_noMoreRights {l t : VTree} (hσ : σ.Formed) (hcls : cls ≤ maxClass)
    (hsrc : (σ.root sspace).sub (wayTo src cls (maxClass - cls)) = .node (.mapping prot) (some phy) l t)
    (hlazy : Sets prot protLazy) (h : forceAllocPage C sspace src maxClass σ = .ok r) :
    NoMoreRights cls sspace src sspace src (prot &&& protAll) r.1 := by
  have hmapped : ∀ va, SamePage cls src va → ∃ frame, σ.view sspace va = some (frame, prot) :=
    fun va hva => ⟨_, translation_of_mapping (hσ.trees sspace) hcls hsrc hva⟩
  -- what is changed in the page has the rights of the mapping
  let Q : Change := fun u va x => u = sspace → SamePage cls src va → Stores (¬HasMore (prot &&& protAll) ·) x
  have hacts : Acts Q σ (forceAllocPage C sspace src maxClass σ) := by
    refine acts_forceAllocPage hσ ?_ fun _ _ _ _ => stores_none _
    intro c prot' _ hblock _ va x _ hx hspace _ frame p hp
    obtain ⟨frame', hprot'⟩ := hblock src rfl
    obtain ⟨frame'', hprot⟩ := hmapped src rfl
    rw [hspace, hprot] at hprot'
    obtain ⟨-, rfl⟩ := Prod.mk.inj (some.inj hprot')
    exact (hx frame p hp).not_hasMore
  intro va frame p hva hview _ hp
  rcases (hacts.effect h).views sspace va with heq | hq
  · obtain ⟨frame', hold⟩ := hmapped va hva
    rw [hview, hold] at heq
    obtain ⟨-, rfl⟩ := Prod.mk.inj (some.inj heq)
    exact absurd hlazy hp
  · exact hq rfl hva frame p hview

lemma sets_keepShared_weak (oldflags f : UInt32) : Sets (keepShared oldflags f) allocWeak ↔ Sets f allocWeak := by
  unfold keepShared
  split
  · rw [sets_or (by decide), sets_and (by decide)]
  · rfl

lemma sets_of_combine (h : Sets (combine oldflags flags) f) : Sets flags f := by
  have hand : ∀ other, Sets (flags &&& other) f → Sets flags f := fun other hs hno => hs (by
    rw [UInt32.and_comm flags, UInt32.and_assoc, hno, UInt32.and_zero])
  unfold combine at h
  split_ifs at h
  · exact hand _ h
  · exact hand _ h
  · exact h

lemma noMoreRights_of_owned (hσ : σ.Formed) (hlen : cls + phy.length = maxClass)
    (hweak : ¬Sets flags allocWeak) (hgains : ¬GainsRights oldflags (combine oldflags flags))
    (hno : ¬Escalates oldflags flags)
    (h : mapOwned dspace dst sspace src phy oldflags (keepShared oldflags (combine oldflags flags)) σ = .ok r) :
    NoMoreRights cls dspace dst sspace src oldflags r.1 := by
  have hweak' : ¬Sets (keepShared oldflags (combine oldflags flags)) allocWeak := fun hw =>
    hweak (sets_of_combine ((sets_keepShared_weak _ _).mp hw))
  intro va frame p hva hview _ hp
  rcases (mapOwned_view hσ hlen hweak' h).2 dspace va with heq | ⟨-, frame', p', heq, hlazy⟩
  · rw [if_pos ⟨rfl, hva⟩, hview] at heq
    obtain ⟨-, rfl⟩ := Prod.mk.inj (some.inj heq)
    exact (stored_hasMore_iff hgains).mpr hno hp
  · rw [hview] at heq
    obtain ⟨-, rfl⟩ := Prod.mk.inj (some.inj heq)
    exact absurd hlazy hp

lemma offset_of_aligned {addr : ℕ} (h : addr % classSize cls = 0) : addr / 2 ^ classBase % 2 ^ cls = 0 := by
  obtain ⟨a, rfl⟩ := dvd_of_mod_eq_zero h
  rw [classSize, pow_add, Nat.mul_comm (2 ^ cls), Nat.mul_assoc, Nat.mul_div_cancel_left _ (Nat.two_pow_pos _),
    mul_mod_right]

/-- **Mappings gain no rights**, exactly unless a shared page is asked for as a lazy one. -/
theorem doMapPage_rights_iff {l t : VTree} (hσ : σ.Formed) (hcls : cls ≤ maxClass)
    (hsrc : (σ.root sspace).sub (wayTo src cls (maxClass - cls)) = .node (.mapping prot) (some phy) l t)
    (hweak : ¬Sets flags allocWeak)
    (h : doMapPage C dspace dst sspace src phy (prot &&& protAll) flags σ = .ok (σ', .ok)) :
    NoMoreRights cls dspace dst sspace src (prot &&& protAll) σ' ↔ ¬Escalates (prot &&& protAll) flags := by
  have hphy : cls + phy.length = maxClass := by
    have hok := (hσ.trees sspace).sub (wayTo src cls (maxClass - cls))
    rw [hsrc, length_wayTo] at hok
    have hlen := (hok.2.1 phy rfl).2.1
    omega
  have hprot : Sets (prot &&& protAll) protLazy ↔ Sets prot protLazy := sets_and (by decide) prot
  set oldflags := prot &&& protAll with hold
  replace h := then_ok (then_ok h)
  split at h
  · cases h
  next hgains =>
  -- an escalation is a request for a lazy mapping
  have hlazy : Escalates oldflags flags → Sets (combine oldflags flags) protLazy := fun he => by
    rw [show combine oldflags flags = flags from if_neg he.2.2.1]
    exact he.2.1
  obtain ⟨x, hx, h⟩ := bind_eq_ok.mp h
  cases ownPage_owned hσ hx with
  | done r hforce hr hdone =>
    obtain ⟨rfl, hres⟩ := Prod.mk.inj (Except.ok.inj h)
    obtain ⟨rfl, rfl⟩ := hdone.resolve_left (not_not.mpr hres)
    exact iff_of_true (forced_noMoreRights hσ hcls hsrc (hprot.mp hforce.2) hr) fun he => hforce.1 (hlazy he)
  | copied r phy' hforce hr hlen =>
    have hno : ¬Escalates oldflags flags := fun he => hforce.1 (hlazy he)
    refine iff_of_true ?_ hno
    exact noMoreRights_of_owned (forceAllocPage_formed hσ hr) (by omega) hweak hgains hno h
  | asIs hasIs =>
    refine ⟨fun hrights he => ?_, fun hno => noMoreRights_of_owned hσ hphy hweak hgains hno h⟩
    have hweak' : ¬Sets (keepShared oldflags (combine oldflags flags)) allocWeak := fun hw =>
      hweak (sets_of_combine ((sets_keepShared_weak _ _).mp hw))
    have hnolazy : ¬Sets (keepShared oldflags (combine oldflags flags)) protLazy := fun hl =>
      ((sets_keepShared_lazy _ _).mp hl).2 he.1
    obtain ⟨halign, hviews⟩ := mapOwned_view hσ hphy hweak' h
    have hview := fun u va => (hviews u va).resolve_right fun hc => hnolazy hc.1
    -- the first frames of the two pages are the same
    have hsame : SamePage cls (src - src % classSize cls) src := samePage_floor hcls
    set va' := src - src % classSize cls with hva'
    have hfirst : va' / 2 ^ classBase % 2 ^ cls = dst / 2 ^ classBase % 2 ^ cls := by
      rw [offset_of_aligned halign, offset_of_aligned]
      have hdiv := div_add_mod src (classSize cls)
      rw [hva', show src - src % classSize cls = classSize cls * (src / classSize cls) by omega]
      exact mul_mod_right _ _
    have hdst := (hview dspace dst).trans (if_pos ⟨rfl, rfl⟩)
    refine (stored_hasMore_iff hgains).mp (fun hp => hrights dst _ _ rfl hdst ?_ hp) he
    have hva := hview sspace va'
    split at hva
    · exact ⟨va', _, hsame.symm, by rw [hva, hfirst]⟩
    · rw [show σ.view sspace va' = _ from translation_of_mapping (hσ.trees sspace) hcls hsrc hsame.symm] at hva
      exact ⟨va', _, hsame.symm, by rw [hva, hfirst]⟩

def shareFirst (C : Setting) (flags : UInt32) (σ : Mem) : Option (UInt32 × Mem) :=
  match (σ.root 1).sub (wayTo 0x1000 0 (maxClass - 0)) with
  | .node (.mapping prot) (some phy) _ _ =>
    match doMapPage C 1 0x2000 1 0x1000 phy (prot &&& protAll) flags σ with
    | .ok (σ', .ok) => some (prot, σ')
    | _ => none
  | _ => none

lemma shareFirst_eq_some (h : shareFirst C flags σ = some (prot, σ')) :
    ∃ phy l t, (σ.root 1).sub (wayTo 0x1000 0 (maxClass - 0)) = .node (.mapping prot) (some phy) l t ∧
      doMapPage C 1 0x2000 1 0x1000 phy (prot &&& protAll) flags σ = .ok (σ', .ok) := by
  unfold shareFirst at h
  split at h
  · next prot' phy l t hnode =>
    split at h
    · next σ₁ hmap =>
      cases h
      exact ⟨phy, l, t, hnode, hmap⟩
    · cases h
  · cases h

def sharedPage : List MemStep :=
  oneEnv ++ [.mapUser oneEnvSetting Jos.EnvTable.firstSlot 0x1000 0x1000
    (allocZero ||| protShare ||| protR ||| protUser)]

def shareRead : UInt32 := protShare ||| protR ||| protUser
def shareWrite : UInt32 := protLazy ||| protR ||| protW ||| protUser

set_option maxRecDepth 100000 in
lemma run_sharedPage : ∃ σ, run memStep (bootMem 0x100000 true true) sharedPage = .ok σ ∧
    (∃ x ∈ shareFirst oneEnvSetting shareRead σ, x.1 = shareRead) ∧
    ∃ x ∈ shareFirst oneEnvSetting shareWrite σ, x.1 = shareRead ∧
      (x.2.view 1 0x2000).map Prod.fst = (x.2.view 1 0x1000).map Prod.fst ∧
      (x.2.view 1 0x2000).map Prod.snd = some (protShare ||| protR ||| protW ||| protUser) := by
  decide +kernel

lemma sharedPage_formed (h : run memStep (bootMem 0x100000 true true) sharedPage = .ok σ) : σ.Formed :=
  (userFormed_of_run (by decide) h).toFormed

theorem doMapPage_rights_sharedPage :
    ∃ σ σ', run memStep (bootMem 0x100000 true true) sharedPage = .ok σ ∧
      shareFirst oneEnvSetting shareRead σ = some (shareRead, σ') ∧
      (NoMoreRights 0 1 0x2000 1 0x1000 (shareRead &&& protAll) σ' ↔
        ¬Escalates (shareRead &&& protAll) shareRead) := by
  obtain ⟨σ, hσ, ⟨⟨_, σ'⟩, hshare, rfl⟩, -⟩ := run_sharedPage
  obtain ⟨phy, l, t, hsrc, hmap⟩ := shareFirst_eq_some hshare
  exact ⟨σ, σ', hσ, hshare,
    doMapPage_rights_iff (sharedPage_formed hσ) (zero_le _) hsrc (by decide) hmap⟩

/-- The page can be written through the second mapping, and the first one still maps it. -/
theorem doMapPage_gains_rights :
    ∃ σ prot phy l t σ', run memStep (bootMem 0x100000 true true) sharedPage = .ok σ ∧
      (σ.root 1).sub (wayTo 0x1000 0 (maxClass - 0)) = .node (.mapping prot) (some phy) l t ∧
      doMapPage oneEnvSetting 1 0x2000 1 0x1000 phy (prot &&& protAll) shareWrite σ = .ok (σ', .ok) ∧
      ¬NoMoreRights 0 1 0x2000 1 0x1000 (prot &&& protAll) σ' := by
  obtain ⟨σ, hσ, -, ⟨prot, σ'⟩, hshare, rfl, hframe, hprot⟩ := run_sharedPage
  obtain ⟨phy, l, t, hsrc, hmap⟩ := shareFirst_eq_some hshare
  refine ⟨σ, _, phy, l, t, σ', hσ, hsrc, hmap, fun hno => ?_⟩
  obtain ⟨⟨frame, _⟩, hdst, rfl⟩ := map_eq_some_iff.mp hprot
  rw [hdst] at hframe
  obtain ⟨⟨_, prot'⟩, hold, rfl⟩ := map_eq_some_iff.mp hframe.symm
  exact hno 0x2000 _ _ rfl hdst ⟨0x1000, prot', rfl, hold⟩ (by decide) (by decide)

end Jos.PmapModel
