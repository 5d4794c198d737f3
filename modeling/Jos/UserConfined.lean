import Jos.MapReach
import Jos.MemMachine

/-!
The memory-management system calls and the addresses of the kernel: the loops of `map_region` and
`unmap_region` stay between the two ends of the region they are given.
-/

namespace Jos.PmapModel

open CArray Jos.Dyadic Outcome Nat

def UserSafe : Change := fun u va x => u ≠ kspace → va % treeSize < maxUserAddress ∨ x = none

def Confined : Change := fun u va x => u ≠ kspace ∧ (va % treeSize < maxUserAddress ∨ x = none)

lemma Confined.userSafe {u va : ℕ} {x : Option (ℕ × UInt32)} (h : Confined u va x) : UserSafe u va x := fun _ => h.2

structure Mem.UserFormed (σ : Mem) : Prop extends σ.Formed where
  user : ∀ space, space ≠ kspace → ∀ va, maxUserAddress ≤ va % treeSize → σ.view space va = none

variable {σ σ' σ₁ : Mem} {C : Setting} {space dspace sspace dst src addr va cls fin : ℕ} {page : Path}
  {flags prot : UInt32}

lemma Mem.UserFormed.safe (hσ : σ.UserFormed) (h : σ.Effect UserSafe σ') : σ'.UserFormed where
  toFormed := h.formed
  user := fun space hspace va hva => by
    rcases h.views space va with heq | hsafe
    · rw [heq]
      exact hσ.user space hspace va hva
    · exact (hsafe hspace).resolve_left (not_lt.mpr hva)

lemma Mem.UserFormed.effect (hσ : σ.UserFormed) (h : σ.Effect Confined σ') : σ'.UserFormed :=
  hσ.safe (h.mono fun _ _ _ => Confined.userSafe)

lemma SamePage.lt_user (h : SamePage cls addr va) (halign : addr % classSize cls = 0)
    (hend : addr + classSize cls ≤ maxUserAddress) : va % treeSize < maxUserAddress := by
  have hpos := classSize_pos cls
  have hmax : maxUserAddress ≤ treeSize := by decide
  have hcls : cls ≤ maxClass := by
    by_contra hc
    have hbig : classSize (maxClass + 1) ≤ classSize cls := Nat.pow_le_pow_right (by decide) (by omega)
    have hval : maxUserAddress < classSize (maxClass + 1) := by decide
    omega
  rw [samePage_iff hcls, mod_eq_of_lt (by omega : addr < treeSize)] at h
  have hdiv := div_add_mod (va % treeSize) (classSize cls)
  have hmod := mod_lt (va % treeSize) hpos
  have haddr := div_add_mod addr (classSize cls)
  rw [h] at hdiv
  omega

lemma acts_forced (hσ : σ.UserFormed) (space va maxclass : ℕ) :
    Acts (fun u va' x => u = forcedSpace space va ∧ UserSafe u va' x) σ (forceAllocPage C space va maxclass σ) := by
  refine acts_forceAllocPage hσ.toFormed ?_ fun _ _ => ⟨rfl, fun _ => .inr rfl⟩
  intro c prot _ hblock _ va' x hva' _
  refine ⟨rfl, fun hspace => .inl (not_le.mp fun hhigh => ?_)⟩
  obtain ⟨f, hf⟩ := hblock va' hva'
  rw [hσ.user _ hspace va' hhigh] at hf
  cases hf

def Inside (lo hi addr cls : ℕ) : Prop := lo ≤ addr ∧ addr + classSize cls ≤ hi

lemma classSize_succ (cls : ℕ) : classSize (cls + 1) = classSize cls + classSize cls := by
  rw [classSize_add, pow_one, mul_two]

lemma Inside.half {lo hi : ℕ} (h : Inside lo hi addr (cls + 1)) :
    Inside lo hi addr cls ∧ Inside lo hi (addr + classSize cls) cls := by
  obtain ⟨hlo, hhi⟩ := h
  rw [classSize_succ] at hhi
  exact ⟨⟨hlo, by omega⟩, ⟨by omega, by omega⟩⟩

lemma scope_confined {hi hi' : ℕ} (C : Setting) (lo lo' : ℕ) (hd : dspace ≠ kspace) (hs : sspace ≠ kspace)
    (hhi : hi ≤ maxUserAddress) (hhi' : hi' ≤ maxUserAddress) :
    Scope Confined Mem.UserFormed C dspace sspace (Inside lo hi) (Inside lo' hi') where
  formed := Mem.UserFormed.toFormed
  kept := Mem.UserFormed.effect
  dst := fun _ hD halign hva => ⟨hd, .inl (hva.lt_user halign (hD.2.trans hhi))⟩
  dst_half := Inside.half
  src := fun _ hS halign hva => ⟨hs, .inl (hva.lt_user halign (hS.2.trans hhi'))⟩
  src_half := Inside.half
  force := fun {σ addr cls} hσ hS => by
    have htarget : forcedSpace sspace addr = sspace := if_neg (by have := hS.2; omega)
    refine (acts_forced hσ sspace addr maxClass).mono ?_
    rintro u va x ⟨rfl, hsafe⟩
    rw [htarget] at hsafe ⊢
    exact ⟨hs, hsafe hs⟩

lemma pageEnd_eq (hdst : dst ≤ maxUserAddress) (hcls : cls ≤ maxClass) : pageEnd dst cls = dst + classSize cls := by
  have hsize : classSize cls ≤ classSize maxClass := Nat.pow_le_pow_right (by decide) (by omega)
  have hbound : maxUserAddress + classSize maxClass < 2 ^ 64 := by decide
  exact mod_eq_of_lt (by omega)

variable {size hi : ℕ}

lemma paves_inside (lo : ℕ) (hhi : hi ≤ maxUserAddress) (hfin : fin = hi) :
    Paves (fun a => lo ≤ a ∧ a ≤ hi) (Inside lo hi) fin := by
  subst hfin
  intro cls dst hcls hdst hend
  rw [pageEnd_eq (hdst.2.trans hhi) hcls] at hend ⊢
  exact ⟨⟨hdst.1, hend⟩, by omega, hend⟩

lemma sum_mod (h : dst + size ≤ maxUserAddress) : (dst + size) % 2 ^ 64 = dst + size := by
  have hmax : maxUserAddress < 2 ^ 64 := by decide
  exact mod_eq_of_lt (by omega)

lemma sourceAt_inside {size at' : ℕ} (hdst : dst + size ≤ maxUserAddress) (hsrc : src + size ≤ maxUserAddress)
    (h : Inside dst (dst + size) at' cls) : Inside src (src + size) (sourceAt dst src at') cls := by
  obtain ⟨hlo, hhi⟩ := h
  have hbound : maxUserAddress < 2 ^ 64 := by decide
  have hat : sourceAt dst src at' = at' - dst + src := by
    unfold sourceAt
    rw [show at' + (src + 2 ^ 64 - dst) = (at' - dst + src) + 2 ^ 64 by omega, add_mod_right,
      mod_eq_of_lt (by omega)]
  exact ⟨by omega, by omega⟩

lemma mapRegion_confined {source : Option ℕ} (hσ : σ.UserFormed) (hd : dspace ≠ kspace)
    (hdst : dst + size ≤ maxUserAddress)
    (hs : ∀ sspace, source = some sspace → sspace ≠ kspace ∧ src + size ≤ maxUserAddress) :
    Acts Confined σ (mapRegion C dspace dst source src size flags σ) := by
  have hW := paves_inside dst hdst (sum_mod hdst)
  cases source with
  | none => exact acts_mapRegion (scope_confined C dst dst hd hd hdst hdst) hσ hW ⟨le_rfl, by omega⟩ nofun
  | some sspace =>
    obtain ⟨hspace, hsrc⟩ := hs sspace rfl
    refine acts_mapRegion (scope_confined C dst src hd hspace hdst hsrc) hσ hW ⟨le_rfl, by omega⟩ fun u hu => ?_
    cases hu
    exact ⟨rfl, fun cls at' => sourceAt_inside hdst hsrc⟩

lemma le_roundUp (h : addr ≤ treeSize) : addr ≤ roundUp addr := by
  have hsize : classSize 0 = 4096 := by decide
  have htree : treeSize = 2 ^ 60 := rfl
  unfold roundUp roundDown
  rw [hsize, mod_eq_of_lt (by omega)]
  omega

lemma roundUp_le_of_dvd {e : ℕ} (he : classSize 0 ∣ e) (hle : addr ≤ e) : roundUp addr ≤ e := by
  have hsize : classSize 0 = 4096 := by decide
  rw [hsize] at he
  unfold roundUp roundDown
  rw [hsize]
  omega

lemma user_le_treeSize : maxUserAddress ≤ treeSize := by decide

lemma roundUp_le_user (h : addr ≤ maxUserAddress) : roundUp addr ≤ maxUserAddress := roundUp_le_of_dvd (by decide) h

lemma unmapRegion_confined (hσ : σ.UserFormed) (hd : dspace ≠ kspace)
    (hdst : dst + size ≤ maxUserAddress) (h : Left id (unmapRegion dspace dst size σ) σ') :
    σ.Effect Confined σ' := by
  have hstart : roundDown dst ≤ roundUp (dst + size) :=
    ((sub_le _ _).trans (le_add_right _ _)).trans (le_roundUp (hdst.trans user_le_treeSize))
  have hend := roundUp_le_user hdst
  have hW := paves_inside (roundDown dst) hend (congrArg roundUp (sum_mod hdst))
  refine unmapRegion_left Mem.UserFormed.toFormed Mem.UserFormed.effect hσ hW ⟨le_rfl, hstart⟩ ?_ h
  intro addr cls va hD halign hva
  exact ⟨hd, .inl (hva.lt_user halign (hD.2.trans hend))⟩

/-- The region ends below the end of the user's addresses, and a page is sent with known flags. -/
def MemCall.Fits : MemCall → Prop
  | .allocRegion _ addr size _ => addr.toNat + size.toNat ≤ maxUserAddress
  | .mapRegion _ srcva _ dstva size _ =>
    dstva.toNat + size.toNat ≤ maxUserAddress ∧ srcva.toNat + size.toNat ≤ maxUserAddress
  | .unmapRegion _ va size => va.toNat + size.toNat ≤ maxUserAddress
  | .ipcTrySend _ _ perm => ¬Sets perm (~~~protAll)

instance : DecidablePred MemCall.Fits := fun call => by
  cases call <;> unfold MemCall.Fits <;> infer_instance

/-- What `map_region` and `unmap_region` are given. -/
def RegionCall.Inside : RegionCall → Prop
  | .map dspace dst sspace src size _ => dspace ≠ kspace ∧ dst + size ≤ maxUserAddress ∧
    ∀ s, sspace = some s → s ≠ kspace ∧ src + size ≤ maxUserAddress
  | .unmap dspace dst size => dspace ≠ kspace ∧ dst + size ≤ maxUserAddress

variable {t : EnvTable.Table} {call : MemCall} {r : RegionCall} {steps : List MemStep}

lemma refuse_eq_ok {P : Prop} [Decidable P] {result : ℤ} {u : Unit} : refuse P result = .ok u ↔ ¬P := by
  unfold refuse
  split
  · next h => exact iff_of_false nofun (not_not.mpr h)
  · next h => exact iff_of_true rfl h

lemma spaceOf_ne (s : EnvTable.Slot) : spaceOf s ≠ kspace := succ_ne_zero _

lemma aligned_of_pageOffset {a : UInt64} (h : EnvTable.pageOffset a = 0) : a.toNat % 4096 = 0 := by
  have hnat := congrArg UInt64.toNat h
  rwa [EnvTable.pageOffset, UInt64.toNat_and, show (0xfff : UInt64).toNat = 2 ^ 12 - 1 from rfl,
    and_two_pow_sub_one_eq_mod] at hnat

lemma request_inside (hfits : call.Fits) (h : call.request t = .ok r) : r.Inside := by
  cases call with
  | allocRegion envid addr size perm =>
    obtain ⟨env, -, h⟩ := bind_eq_ok.mp h
    replace h := then_ok (then_ok (then_ok h))
    cases h
    exact ⟨spaceOf_ne env, hfits, nofun⟩
  | mapRegion srcenvid srcva dstenvid dstva size perm =>
    obtain ⟨srcenv, -, h⟩ := bind_eq_ok.mp h
    obtain ⟨dstenv, -, h⟩ := bind_eq_ok.mp h
    replace h := then_ok (then_ok (then_ok (then_ok h)))
    cases h
    refine ⟨spaceOf_ne dstenv, hfits.1, fun s hs => ?_⟩
    cases hs
    exact ⟨spaceOf_ne srcenv, hfits.2⟩
  | unmapRegion envid va size =>
    obtain ⟨env, -, h⟩ := bind_eq_ok.mp h
    replace h := then_ok (then_ok h)
    cases h
    exact ⟨spaceOf_ne env, hfits⟩
  | ipcTrySend envid srcva perm =>
    obtain ⟨env, -, h⟩ := bind_eq_ok.mp h
    replace h := then_ok h
    by_cases hlow : srcva.toNat < maxUserAddress ∧ (t.envs env).ipcDstva.toNat < maxUserAddress
    swap
    · rw [if_neg hlow] at h
      cases h
    rw [if_pos hlow] at h
    obtain ⟨_, haligned, h⟩ := bind_eq_ok.mp h
    have hoffset := not_or.mp (refuse_eq_ok.mp haligned)
    have hsrc := aligned_of_pageOffset (not_not.mp hoffset.1)
    have hdst := aligned_of_pageOffset (not_not.mp hoffset.2)
    split at h
    · cases h
    next c _ =>
    cases h
    -- one page at an aligned address below the end
    have hmax : maxUserAddress = 4096 * 134217728 := by decide
    have hsize : classSize 0 = 4096 := by decide
    refine ⟨spaceOf_ne env, by omega, fun s hs => ?_⟩
    cases hs
    exact ⟨spaceOf_ne c, by omega⟩

lemma resume_eq_ok {m : Except Exit Mem} : resume m = .ok σ' ↔ Left id m σ' := by
  constructor
  · intro h
    cases m with
    | ok σ =>
      cases h
      exact .inl ⟨_, rfl, rfl⟩
    | error e =>
      cases e with
      | gone σ =>
        cases h
        exact .inr rfl
      | _ => cases h
  · rintro (⟨σ, rfl, rfl⟩ | rfl)
    · rfl
    · rfl

lemma left_map {m : Except Exit (Mem × Res)} (h : Left id (Prod.fst <$> m) σ') : Left Prod.fst m σ' := by
  cases m with
  | ok r =>
    rcases h with ⟨σ, hσ, rfl⟩ | h
    · cases hσ
      exact .inl ⟨r, rfl, rfl⟩
    · cases h
  | error e =>
    rcases h with ⟨σ, hσ, rfl⟩ | h
    · cases hσ
    · cases h
      exact .inr rfl

lemma left_unmap (h : Left Prod.fst ((RegionCall.unmap dspace dst size).exec C σ) σ') :
    Left id (unmapRegion dspace dst size σ) σ' := by
  rcases h with ⟨r, hr, rfl⟩ | hgone
  · obtain ⟨σ₁, h₁, hr⟩ := bind_eq_ok.mp hr
    cases hr
    exact .inl ⟨_, h₁, rfl⟩
  · rcases bind_eq_error.mp hgone with h₁ | ⟨σ₁, -, h₁⟩
    · exact .inr h₁
    · cases h₁

/-- **A call that fits** changes user addresses only. -/
lemma call_effect (hσ : σ.UserFormed) (hfits : call.Fits) (h : resume (call.exec C t σ) = .ok σ') :
    σ.Effect Confined σ' := by
  have hleft := resume_eq_ok.mp h
  unfold MemCall.exec at hleft
  cases hr : call.request t with
  | error e =>
    rw [hr] at hleft
    rcases hleft with ⟨σ, hσ', rfl⟩ | hgone
    · cases hσ'
      exact .refl hσ.toFormed
    · cases hgone
  | ok r =>
    rw [hr] at hleft
    have hinside := request_inside hfits hr
    have hleft := left_map hleft
    cases r with
    | map dspace dst source src size flags => exact (mapRegion_confined hσ hinside.1 hinside.2.1 hinside.2.2).left hleft
    | unmap dspace dst size => exact unmapRegion_confined hσ hinside.1 hinside.2 (left_unmap hleft)

open Runs

def MemStep.Fits : MemStep → Prop
  | .mapUser _ _ dst size _ => dst + size ≤ maxUserAddress
  | .call _ _ call => call.Fits
  | _ => True

instance : DecidablePred MemStep.Fits := fun i => by
  cases i <;> unfold MemStep.Fits <;> infer_instance

variable {kernelEnd : ℕ} {has1gbPages nxSupported : Bool}

lemma boot_userFormed (kernelEnd : ℕ) (has1gbPages nxSupported : Bool) :
    (bootMem kernelEnd has1gbPages nxSupported).UserFormed where
  placed := fun p n hn => by
    unfold bootMem initAllocator at hn
    dsimp only at hn
    by_cases hp : p = []
    · rw [hp, Function.update_self] at hn
      cases hn
      rw [hp]
      rfl
    · rw [Function.update_of_ne hp] at hn
      cases hn
  trees := fun _ => trivial
  user := fun _ _ va _ => VTree.translate_null va maxClass

lemma mapPhysical_effect {r : Mem × Res} {Q : Change} {pa : ℕ} (hσ : σ.Formed)
    (h : mapPhysical dst pa cls flags σ = .ok r) (hQ : ∀ va x, Q kspace va x) : σ.Effect Q r.1 := by
  obtain ⟨y, hy, h⟩ := bind_eq_ok.mp h
  have hpart : σ.Effect Q { σ with phys := y.1 } := .withPhys hσ (pageLookup_placed hy hσ.placed)
  exact hpart.trans (mapPage_effect hpart.formed h fun _ _ _ va x _ _ => hQ va x)

lemma attach_effect {s : Phys} {x : Region} {Q : Change} (hσ : σ.Formed) (h : x.attach σ.phys = .ok s) :
    σ.Effect Q { σ with phys := s } := .withPhys hσ ((attachLoop_quiet h).placed hσ.placed)

lemma memStep_user {i : MemStep} (hσ : σ.UserFormed) (hfits : i.Fits) (h : memStep σ i = .ok σ') : σ'.UserFormed := by
  cases i with
  | attach x =>
    obtain ⟨s, hs, h⟩ := bind_eq_ok.mp h
    cases h
    exact hσ.safe (attach_effect hσ.toFormed (lift_eq_ok.mp hs))
  | initKspace => exact hσ.safe (initKspace_effect hσ.toFormed (lift_eq_ok.mp h) fun _ _ => .inr rfl)
  | switchOn =>
    cases h
    exact hσ.safe (.withPhys hσ.toFormed hσ.placed)
  | mapPhysical dst pa cls flags =>
    cases hm : mapPhysical dst pa cls flags σ with
    | error e =>
      rw [memStep, hm] at h
      cases h
    | ok r =>
      rw [memStep, hm] at h
      cases h
      exact hσ.safe (mapPhysical_effect hσ.toFormed hm fun _ _ hk => absurd rfl hk)
  | initSpace s =>
    exact hσ.safe (initAddressSpace_effect hσ.toFormed (lift_eq_ok.mp h) fun _ _ => .inr rfl)
  | releaseSpace s =>
    exact hσ.safe (releaseAddressSpace_effect hσ.toFormed (lift_eq_ok.mp h) fun _ _ => .inr rfl)
  | mapUser C s dst size flags =>
    have hacts : Acts Confined σ (mapRegion C (spaceOf s) dst none 0 size flags σ) :=
      mapRegion_confined hσ (spaceOf_ne s) hfits nofun
    exact hσ.effect (hacts.left (left_map (resume_eq_ok.mp h)))
  | fault C space va maxclass =>
    have hacts : Acts UserSafe σ (forceAllocPage C space va maxclass σ) :=
      (acts_forced hσ space va maxclass).mono fun _ _ _ hQ => hQ.2
    exact hσ.safe (hacts.left (left_map (resume_eq_ok.mp h)))
  | call C t call => exact hσ.effect (call_effect hσ hfits h)

lemma userFormed_of_run (hsteps : ∀ i ∈ steps, i.Fits)
    (hrun : run memStep (bootMem kernelEnd has1gbPages nxSupported) steps = .ok σ) : σ.UserFormed :=
  run_inv (fun _ _ _ hσ hi h => memStep_user hσ hi h) (boot_userFormed ..) hsteps hrun

def oneEnv : List MemStep :=
  [.attach ⟨0x1000000, 0x1100000, false⟩, .initKspace, .switchOn,
    .initSpace EnvTable.firstSlot]

def oneEnvTable : EnvTable.Table :=
  { EnvTable.envInit.modify EnvTable.firstSlot ({ · with ipcRecving := true }) with
    curenv := some EnvTable.firstSlot }

def oneEnvSetting : Setting := ⟨[], [], some 1⟩

end Jos.PmapModel
