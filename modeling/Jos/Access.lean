import Jos.IpcPage

/-!
Which environments a system call changes: as a rule the one that makes it and its children, and
only `sys_ipc_try_send` is meant to reach others. Of the others nothing changes but whether they run.
-/

namespace Jos.SysCall

open Function Option

open CArray (bind_eq_ok map_eq_ok then_ok)
open Jos.Dyadic PmapModel Runs
open EnvTable (Slot EnvId Env Table EnvType envid2env trapReturn)

structure Kernel.Inv (k : Kernel) : Prop where
  machine : k.machine.Inv
  formed : k.mem.Formed

/-- Of an environment nothing changes but whether it runs. Its space is its tree here; nothing is said of the upper
page tables, which all spaces share. -/
structure Kernel.Untouched (k k' : Kernel) (e : Slot) : Prop where
  record : (k.table.envs e).Scheduled (k'.table.envs e)
  frame : k'.frame e = k.frame e
  upcall : k'.upcall e = k.upcall e
  space : k'.mem.view (spaceOf e) = k.mem.view (spaceOf e)

/-- Of the environments only some are touched, and the guard against page faults is not set. -/
structure Kernel.Touches (P : Slot → Prop) (k k' : Kernel) : Prop where
  inv : k'.Inv
  others : ∀ e, (k.table.envs e).status ≠ .free → ¬P e → k.Untouched k' e
  guard : k'.inPageFault = true → k.inPageFault = true

variable {k k₁ k' : Kernel} {c e s : Slot} {P : Slot → Prop} {r : Kernel × Option ℤ} {t : Table}

namespace Kernel

lemma Untouched.refl (k : Kernel) (e : Slot) : k.Untouched k e := ⟨.refl _, rfl, rfl, rfl⟩

lemma Untouched.trans (h : k.Untouched k₁ e) (h' : k₁.Untouched k' e) : k.Untouched k' e where
  record := h.record.trans h'.record
  frame := h'.frame.trans h.frame
  upcall := h'.upcall.trans h.upcall
  space := h'.space.trans h.space

lemma Touches.refl (hk : k.Inv) : k.Touches P k := ⟨hk, fun e _ _ => .refl k e, id⟩

lemma Touches.trans (h : k.Touches P k₁) (h' : k₁.Touches P k') : k.Touches P k' where
  inv := h'.inv
  others := fun e hlive hP => by
    have hfirst := h.others e hlive hP
    exact hfirst.trans (h'.others e (hfirst.record.live hlive) hP)
  guard := h.guard ∘ h'.guard

lemma Touches.mono {P' : Slot → Prop} (h : k.Touches P k') (hP : ∀ e, P e → P' e) : k.Touches P' k' :=
  ⟨h.inv, fun e hlive hP' => h.others e hlive fun he => hP' (hP e he), h.guard⟩

lemma Touches.setFrame (hk : k.Inv) (s : Slot) (tf : Trapframe) : k.Touches (· = s) (k.setFrame s tf) where
  inv := ⟨hk.machine, hk.formed⟩
  others := fun _ _ hne => ⟨.refl _, update_of_ne hne .., rfl, rfl⟩
  guard := id

lemma Touches.setUpcall (hk : k.Inv) (s : Slot) (func : UInt64) : k.Touches (· = s) (k.setUpcall s func) where
  inv := ⟨hk.machine, hk.formed⟩
  others := fun _ _ hne => ⟨.refl _, rfl, update_of_ne hne .., rfl⟩
  guard := id

lemma Touches.setTable (hk : k.Inv) (hinv : EnvTable.Machine.Inv { k.machine with table := t })
    (ht : ∀ e, (k.table.envs e).status ≠ .free → ¬P e → (k.table.envs e).Scheduled (t.envs e)) :
    k.Touches P (k.setTable t) where
  inv := ⟨hinv, hk.formed⟩
  others := fun e hlive hP => ⟨ht e hlive hP, rfl, rfl, rfl⟩
  guard := id

lemma Touches.withMem {Q : Change} {mem : Mem} (hk : k.Inv) (h : k.mem.Effect Q mem)
    (hQ : ∀ e va x, Q (spaceOf e) va x → P e) : k.Touches P { k with mem := mem } where
  inv := ⟨hk.machine, h.formed⟩
  others := fun e _ hP =>
    ⟨.refl _, rfl, rfl, funext fun va => (h.views (spaceOf e) va).resolve_right fun hq => hP (hQ e va _ hq)⟩
  guard := id

lemma Touches.setGuard (hk : k.Inv) (b : Bool) (h : b = true → k.inPageFault = true) :
    k.Touches P { k with inPageFault := b } where
  inv := ⟨hk.machine, hk.formed⟩
  others := fun _ _ _ => ⟨.refl _, rfl, rfl, rfl⟩
  guard := h

end Kernel

lemma spaceOf_injective {s t : Slot} (h : spaceOf s = spaceOf t) : s = t := Fin.ext (Nat.succ.inj h)

lemma slotOf_spaceOf (s : Slot) : slotOf (spaceOf s) = s := by
  refine Fin.ext ?_
  exact Nat.mod_eq_of_lt s.isLt

lemma touches_destroyed (hk : k.Inv) (hs : (k.table.envs s).status ≠ .free) :
    k.Touches (· = s) (k.setTable (EnvTable.envDestroy s k.table).1) :=
  .setTable hk (EnvTable.envDestroy_inv hk.machine hs) fun _ _ hne =>
    EnvTable.envDestroy_other hk.machine.stays hne

lemma touches_envDestroy (hk : k.Inv) (hs : (k.table.envs s).status ≠ .free) (h : envDestroy s k = .ok r) :
    k.Touches (· = s) r.1 := by
  obtain ⟨mem, hmem, h⟩ := bind_eq_ok.mp h
  cases h
  have heffect : k.mem.Effect (fun u _ _ => u = spaceOf s) mem :=
    releaseAddressSpace_effect hk.formed (liftMem_eq_ok.mp hmem) fun _ => rfl
  have hfirst : k.Touches (· = s) { k with mem := mem } := .withMem hk heffect fun _ _ _ => spaceOf_injective
  have hguard := hfirst.trans (.setGuard hfirst.inv (k.inPageFault && (EnvTable.envDestroy s k.table).2.isNone)
    fun hg => (Bool.and_eq_true_iff.mp hg).1)
  exact hguard.trans (touches_destroyed hguard.inv hs)

lemma touches_actFor {m : Except Exit (Mem × Res)} (hk : k.Inv) (hs : (k.table.envs s).status ≠ .free)
    (hm : Acts (fun u _ _ => u = spaceOf s ∨ u = kspace) k.mem m) (h : actFor s m k = .ok k') :
    k.Touches (· = s) k' := by
  have hmem : ∀ mem, Left Prod.fst m mem → k.Touches (· = s) { k with mem := mem } := fun mem hleft =>
    .withMem hk (hm.left hleft) fun e _ _ hu =>
      spaceOf_injective (hu.resolve_right (spaceOf_ne e))
  unfold actFor at h
  split at h
  · next mem res =>
    cases h
    exact hmem mem (.inl ⟨_, rfl, rfl⟩)
  · next mem =>
    cases h
    have hfirst := hmem mem (.inr rfl)
    exact hfirst.trans (touches_destroyed hfirst.inv hs)
  · cases h

def Own (t : Table) (c e : Slot) : Prop := e = c ∨ (t.envs e).parentId = (t.envs c).id
  deriving Decidable

variable {envid : EnvId} {x : Kernel × Handling} {q : RegionCall} {call : MemCall}

lemma own_of_envid2env (hc : t.curenv = some c) (h : envid2env t envid true = .found (some s)) : Own t c s := by
  unfold envid2env at h
  split at h
  · rw [hc] at h
    cases h
    exact .inl rfl
  · dsimp only at h
    split at h
    · cases h
    · rw [hc] at h
      simp only [Bool.not_true, Bool.false_eq_true, if_false] at h
      split at h
      · cases h
      · next hown =>
        cases h
        by_contra hn
        obtain ⟨hne, hparent⟩ := not_or.mp hn
        exact hown ⟨hne, hparent⟩

def InSpacesOf (P : Slot → Prop) : RegionCall → Prop
  | .map dspace _ source _ _ _ =>
    (∃ s, P s ∧ dspace = spaceOf s) ∧ ∀ u, source = some u → ∃ s, P s ∧ u = spaceOf s
  | .unmap dspace _ _ => ∃ s, P s ∧ dspace = spaceOf s

lemma exec_left {C : Setting} {σ σ' : Mem} (hσ : σ.Formed) (hq : InSpacesOf P q) (h : Left Prod.fst (q.exec C σ) σ') :
    σ.Effect (fun u _ _ => (∃ s, P s ∧ u = spaceOf s) ∨ u = kspace) σ' := by
  cases q with
  | map dspace dst source src size flags =>
    obtain ⟨hd, hs⟩ := hq
    -- without a source, the destination is the only space
    have hacts : Acts (fun u _ _ => u = dspace ∨ u = source.getD dspace ∨ u = kspace) σ
        (mapRegion C dspace dst source src size flags σ) :=
      acts_mapRegion_anywhere hσ fun u hu => by rw [hu]; rfl
    refine (hacts.left h).mono ?_
    rintro u va x (rfl | hsource | hk)
    · exact .inl hd
    · cases source with
      | none => exact .inl (hsource ▸ hd)
      | some sspace => exact .inl (hs u (congrArg some hsource.symm))
    · exact .inr hk
  | unmap dspace dst size =>
    refine (unmapRegion_anywhere hσ (left_unmap h)).mono ?_
    rintro u va x rfl
    exact .inl hq

lemma request_own (hc : t.curenv = some c) (hlive : (t.envs c).status ≠ .free)
    (hcall : ∀ envid srcva perm, call ≠ .ipcTrySend envid srcva perm) (h : call.request t = .ok q) :
    InSpacesOf (fun s => Own t c s ∧ (t.envs s).status ≠ .free) q := by
  have hfound : ∀ {envid s}, findEnv t envid true = .ok s → Own t c s ∧ (t.envs s).status ≠ .free := by
    intro envid s hs
    have hs := findEnv_eq_ok.mp hs
    exact ⟨own_of_envid2env hc hs, EnvTable.envid2env_live hc hlive hs⟩
  cases call with
  | allocRegion envid addr size perm =>
    obtain ⟨env, henv, h⟩ := bind_eq_ok.mp h
    replace h := then_ok (then_ok (then_ok h))
    cases h
    exact ⟨⟨env, hfound henv, rfl⟩, nofun⟩
  | mapRegion srcenvid srcva dstenvid dstva size perm =>
    obtain ⟨srcenv, hsrc, h⟩ := bind_eq_ok.mp h
    obtain ⟨dstenv, hdst, h⟩ := bind_eq_ok.mp h
    replace h := then_ok (then_ok (then_ok (then_ok h)))
    cases h
    refine ⟨⟨dstenv, hfound hdst, rfl⟩, fun u hu => ?_⟩
    cases hu
    exact ⟨srcenv, hfound hsrc, rfl⟩
  | unmapRegion envid va size =>
    obtain ⟨env, henv, h⟩ := bind_eq_ok.mp h
    replace h := then_ok (then_ok h)
    cases h
    exact ⟨env, hfound henv, rfl⟩
  | ipcTrySend envid srcva perm => exact absurd rfl (hcall envid srcva perm)

lemma touches_lose {live : List ℕ} (hk : k.Inv)
    (hq : InSpacesOf (fun s => P s ∧ (k.table.envs s).status ≠ .free) q) : k.Touches P (lose q live k) := by
  cases q with
  | unmap dspace dst size => exact .refl hk
  | map dspace dst source src size flags =>
    cases source with
    | none => exact .refl hk
    | some sspace =>
      obtain ⟨s, ⟨hP, hlive⟩, rfl⟩ := hq.2 sspace rfl
      simp only [lose, slotOf_spaceOf]
      split
      · have hguard : k.Touches P { k with inPageFault := false } := .setGuard hk false nofun
        refine hguard.trans ((touches_destroyed hguard.inv hlive).mono ?_)
        rintro e rfl
        exact hP
      · exact .refl hk

lemma touches_sysRegion (hk : k.Inv) (hc : k.table.curenv = some c) (hlive : (k.table.envs c).status ≠ .free)
    (hcall : ∀ envid srcva perm, call ≠ .ipcTrySend envid srcva perm) (h : sysRegion c call k = .ok r) :
    k.Touches (Own k.table c) r.1 := by
  unfold sysRegion at h
  split at h
  · cases h
    exact .refl hk
  · cases h
  · next q hq =>
    have hspaces := request_own hc hlive hcall hq
    have hmem : ∀ mem, Left Prod.fst (q.exec k.setting k.mem) mem → k.Touches (Own k.table c) { k with mem := mem } := by
      intro mem hleft
      refine .withMem hk (exec_left hk.formed hspaces hleft) ?_
      rintro e va x (⟨s, ⟨hown, -⟩, hs⟩ | hkspace)
      · exact spaceOf_injective hs ▸ hown
      · exact absurd hkspace (spaceOf_ne e)
    split at h
    · next mem res hexec =>
      cases h
      have hfirst := hmem mem (.inl ⟨_, hexec, rfl⟩)
      exact hfirst.trans (touches_lose hfirst.inv hspaces)
    · next mem hexec =>
      cases h
      have hfirst := hmem mem (.inr hexec)
      refine hfirst.trans ((touches_destroyed hfirst.inv hlive).mono ?_)
      rintro e rfl
      exact .inl rfl
    · cases h

lemma touches_userMemAssert {va len : UInt64} {perm : UInt32} (hk : k.Inv) (hs : (k.table.envs s).status ≠ .free)
    (h : userMemAssert s va len perm k = .ok r) : k.Touches (· = s) r.1 := by
  unfold userMemAssert at h
  split at h
  · cases h
  · cases h
    exact .refl hk
  · exact touches_envDestroy hk hs h

lemma touches_sysEnvSetTrapframe {tf : UInt64} {content : Option Trapframe} (hk : k.Inv)
    (hc : k.table.curenv = some c) (hlive : (k.table.envs c).status ≠ .free)
    (h : sysEnvSetTrapframe envid tf content k = .ok r) :
    k.Touches (fun e => envid2env k.table envid false = .found (some e)) r.1 := by
  unfold sysEnvSetTrapframe at h
  split at h
  · cases h
    exact .refl hk
  · next s hs =>
    obtain ⟨r', hr', h⟩ := bind_eq_ok.mp h
    have hfound : ∀ e, e = s → envid2env k.table envid false = .found (some e) := by
      rintro e rfl
      exact hs
    have hfirst := (touches_userMemAssert hk (EnvTable.envid2env_live hc hlive hs) hr').mono hfound
    split at h
    · cases h
      exact hfirst
    · cases h
    · cases h
      exact hfirst.trans ((Kernel.Touches.setFrame hfirst.inv s _).mono hfound)
  · cases h

lemma touches_sysExofork {stray : Kernel → Kernel × ℤ} (hk : k.Inv) (hfree : k.table.freeList.isSome)
    (h : sysExofork c stray k = .ok r) : k.Touches (fun _ => False) r.1 := by
  unfold sysExofork at h
  split at h
  · next e ha =>
    obtain ⟨u, hu⟩ := isSome_iff_exists.mp hfree
    unfold EnvTable.envAlloc at ha
    rw [hu] at ha
    cases ha
  · next t s ha =>
    obtain ⟨mem, hmem, h⟩ := bind_eq_ok.mp h
    cases h
    obtain ⟨hfirst, hother, -, -⟩ := EnvTable.envAlloc_cases ha
    obtain ⟨hinv, hlive⟩ := EnvTable.envAlloc_inv hk.machine ha
    have hcalm : t.Calm (t.setStatus s .notRunnable) := hinv.steady.setStatus hlive (.inr rfl)
    have heffect : k.mem.Effect (fun u _ _ => u = spaceOf s) mem :=
      initAddressSpace_effect hk.formed (liftMem_eq_ok.mp hmem) fun _ => rfl
    refine ⟨⟨hinv.calm hcalm, heffect.formed⟩, fun e he _ => ?_, id⟩
    have hne : e ≠ s := by
      rintro rfl
      exact he (hk.machine.freeList_free hfirst)
    refine ⟨?_, update_of_ne hne .., update_of_ne hne .., ?_⟩
    · have hsame : ((t.setStatus s .notRunnable).envs e) = k.table.envs e :=
        (EnvTable.setStatus_other _ hne).trans (hother e hne)
      exact hsame ▸ .refl _
    · exact funext fun va => (heffect.views (spaceOf e) va).resolve_right fun hu => hne (spaceOf_injective hu)

lemma touches_sysEnvDestroy (hk : k.Inv) (hc : k.table.curenv = some c)
    (hlive : (k.table.envs c).status ≠ .free) (h : sysEnvDestroy envid k = .ok r) :
    k.Touches (Own k.table c) r.1 := by
  unfold sysEnvDestroy at h
  split at h
  · cases h
    exact .refl hk
  · next s hs =>
    refine (touches_envDestroy hk (EnvTable.envid2env_live hc hlive hs) h).mono ?_
    rintro e rfl
    exact own_of_envid2env hc hs
  · cases h

lemma touches_sysEnvSetStatus {status : ℤ} (hk : k.Inv) (hc : k.table.curenv = some c)
    (hlive : (k.table.envs c).status ≠ .free) (h : sysEnvSetStatus envid status k = .ok r) :
    k.Touches (Own k.table c) r.1 := by
  obtain ⟨r', hr', h⟩ := bind_eq_ok.mp h
  cases h
  have hr' := liftTable_eq_ok.mp hr'
  refine .setTable hk (EnvTable.sysEnvSetStatus_inv hk.machine hc hlive hr') fun e _ hown => ?_
  rcases EnvTable.sysEnvSetStatus_cases hr' with hsame | ⟨u, st, hu, hset⟩
  · rw [hsame]
    exact .refl _
  · have hne : e ≠ u := by
      rintro rfl
      exact hown (own_of_envid2env hc hu)
    rw [hset, EnvTable.setStatus_other st hne]
    exact .refl _

lemma touches_sysEnvSetPgfaultUpcall {func : UInt64} (hk : k.Inv) (hc : k.table.curenv = some c)
    (h : sysEnvSetPgfaultUpcall envid func k = .ok r) : k.Touches (Own k.table c) r.1 := by
  unfold sysEnvSetPgfaultUpcall at h
  split at h
  · cases h
    exact .refl hk
  · next s hs =>
    cases h
    refine (Kernel.Touches.setUpcall hk s func).mono ?_
    rintro e rfl
    exact own_of_envid2env hc hs
  · cases h

lemma touches_sysIpcRecv {dstva maxsize : UInt64} (hk : k.Inv) (hlive : (k.table.envs c).status ≠ .free)
    (h : sysIpcRecv c dstva maxsize k = .ok r) : k.Touches (· = c) r.1 := by
  cases h
  have htable : k.Touches (· = c) (k.setTable (EnvTable.sysIpcRecv c dstva maxsize k.table).1) :=
    .setTable hk (EnvTable.sysIpcRecv_inv dstva maxsize hk.machine hlive) fun e _ hne =>
      EnvTable.sysIpcRecv_other hk.machine.stays hne
  split
  · exact htable.trans (.setFrame htable.inv c _)
  · exact htable

lemma touches_schedYield (hk : k.Inv) : k.Touches P (k.setTable (EnvTable.schedYield k.table)) :=
  .setTable hk (hk.machine.calm (EnvTable.schedYield_calm hk.machine.steady)) fun e _ _ =>
    EnvTable.schedYield_scheduled hk.machine.stays e

lemma touches_envRun (hk : k.Inv) (hs : (k.table.envs s).status.Ready) :
    k.Touches P (k.setTable (EnvTable.envRun s k.table)) := by
  have hstays : k.table.Stays := hk.machine.stays
  have hcalm : k.table.Calm (EnvTable.envRun s k.table) := EnvTable.envRun_calm hk.machine.steady hs.live
  have hsched := EnvTable.envRun_scheduled hstays hs
  exact .setTable hk (hk.machine.calm hcalm) fun e _ _ => hsched e

def kept (e : Env) : EnvId × EnvId × EnvType × Option Slot × UInt64 :=
  (e.id, e.parentId, e.type, e.link, e.ipcDstva)

lemma kept_scheduled {e e' : Env} (h : e.Scheduled e') : kept e' = kept e := by
  rw [h.record]
  rfl

/-- Only the fields for messages, the status and the page at the address of the receive are changed. -/
structure Kernel.Received (k k' : Kernel) (e : Slot) : Prop where
  record : kept (k'.table.envs e) = kept (k.table.envs e)
  frame : k'.frame e = k.frame e
  upcall : k'.upcall e = k.upcall e
  space : ∀ va, ¬SamePage 0 (k.table.envs e).ipcDstva.toNat va →
    k'.mem.view (spaceOf e) va = k.mem.view (spaceOf e) va

def Awaited (t : Table) (envid : EnvId) (e : Slot) : Prop :=
  envid2env t envid false = .found (some e) ∧ (t.envs e).ipcRecving = true

lemma samePage_of_inside {dst addr cls va : ℕ} (h : Inside dst (dst + classSize 0) addr cls)
    (hva : SamePage cls addr va) : SamePage 0 dst va := by
  have hcls : cls = 0 := by
    by_contra hpos
    have hlt : classSize 0 < classSize cls := Nat.pow_lt_pow_right (by decide) (by omega)
    have := h.2
    have := h.1
    omega
  subst hcls
  obtain rfl : addr = dst := by
    have := h.1
    have := h.2
    omega
  exact hva

lemma sendPage_effect {srcva : UInt64} {perm : UInt32} {x : Mem × EnvTable.Mapping}
    (hk : k.Inv) (hc : k.table.curenv = some c) (h : sendPage envid srcva perm k = .ok x) :
    k.mem.Effect (fun u va _ => (∃ s, Awaited k.table envid s ∧ u = spaceOf s ∧
      SamePage 0 (k.table.envs s).ipcDstva.toNat va) ∨ u = spaceOf c ∨ u = kspace) x.1 := by
  unfold sendPage at h
  split at h
  · cases h
    exact .refl hk.formed
  · next q hq =>
    obtain ⟨s, c', hto, hc', hrecv, -, hdst, halign, rfl⟩ := sysIpcTrySend_eq_ok hq
    obtain rfl : c = c' := some.inj (hc.symm.trans hc')
    have hmax : (k.table.envs s).ipcDstva.toNat + classSize 0 ≤ maxUserAddress := by
      have hsize : classSize 0 = 4096 := by decide
      have hend : maxUserAddress = 4096 * 134217728 := by decide
      have hdst : (k.table.envs s).ipcDstva.toNat < maxUserAddress := UInt64.lt_iff_toNat_lt.mp hdst
      have halign := aligned_of_pageOffset halign
      omega
    have hacts : Acts (InSpaces (Inside (k.table.envs s).ipcDstva.toNat
          ((k.table.envs s).ipcDstva.toNat + classSize 0)) (spaceOf s) (spaceOf c)) k.mem
        (mapRegion k.setting (spaceOf s) (k.table.envs s).ipcDstva.toNat (some (spaceOf c)) srcva.toNat
          (classSize 0) (perm ||| protUser) k.mem) :=
      acts_mapRegion_inSpaces hk.formed Inside.half (paves_inside _ hmax (sum_mod hmax)) ⟨le_rfl, by omega⟩
        fun u hu => (some.inj hu).symm
    have heffect : ∀ mem, Left Prod.fst (mapRegion k.setting (spaceOf s) (k.table.envs s).ipcDstva.toNat
        (some (spaceOf c)) srcva.toNat (classSize 0) (perm ||| protUser) k.mem) mem →
        k.mem.Effect (fun u va _ => (∃ s, Awaited k.table envid s ∧ u = spaceOf s ∧
          SamePage 0 (k.table.envs s).ipcDstva.toNat va) ∨ u = spaceOf c ∨ u = kspace) mem := by
      intro mem hleft
      refine (hacts.left hleft).mono ?_
      rintro u va y (⟨rfl, addr, cls, hinside, -, hva⟩ | hu)
      · exact .inl ⟨s, ⟨hto, hrecv⟩, rfl, samePage_of_inside hinside hva⟩
      · exact .inr hu
    split at h
    · next mem res hexec =>
      cases h
      exact heffect mem (.inl ⟨_, hexec, rfl⟩)
    · next mem hexec =>
      cases h
      exact heffect mem (.inr hexec)
    · cases h

section Send

variable {envid : EnvId} {value : UInt32} {srcva size : UInt64} {perm : UInt32}

lemma sysIpcTrySend_records {mapping : EnvTable.Mapping} {r : EnvTable.Result} (hstays : t.Stays)
    (h : EnvTable.sysIpcTrySend c envid value srcva size perm mapping t = .ok r) (hne : e ≠ c) :
    (¬Awaited t envid e → (t.envs e).Scheduled (r.1.envs e)) ∧ kept (r.1.envs e) = kept (t.envs e) := by
  rcases EnvTable.sysIpcTrySend_cases h with ⟨hsame, -⟩ | rfl | ⟨u, maxsz, hu, hrecv, rfl⟩
  · rw [hsame]
    exact ⟨fun _ => .refl _, rfl⟩
  · have hsched := EnvTable.envDestroy_other hstays hne
    exact ⟨fun _ => hsched, kept_scheduled hsched⟩
  · rcases eq_or_ne e u with rfl | hneu
    · refine ⟨fun hno => absurd ⟨hu, hrecv⟩ hno, ?_⟩
      rw [EnvTable.deliver_same]
      rfl
    · rw [EnvTable.deliver_other hneu]
      exact ⟨fun _ => .refl _, rfl⟩

/-- **A send** touches its sender and its receiver, and of the receiver no more than it may. -/
lemma touches_ipcTrySend (hk : k.Inv) (hc : k.table.curenv = some c) (hlive : (k.table.envs c).status ≠ .free)
    (h : ipcTrySend c envid value srcva size perm k = .ok r) :
    k.Touches (fun e => e = c ∨ Awaited k.table envid e) r.1 ∧
      ∀ e, e ≠ c → Awaited k.table envid e → k.Received r.1 e := by
  obtain ⟨x, hx, h⟩ := bind_eq_ok.mp h
  obtain ⟨y, hy, h⟩ := bind_eq_ok.mp h
  cases h
  have hy := liftTable_eq_ok.mp hy
  have heffect := sendPage_effect hk hc hx
  have hrecords : ∀ e, e ≠ c → _ := fun e hne => sysIpcTrySend_records hk.machine.stays hy hne
  refine ⟨?_, fun e hne hto => ⟨(hrecords e hne).2, rfl, rfl, fun va hva => ?_⟩⟩
  · have hmem : k.Touches (fun e => e = c ∨ Awaited k.table envid e) { k with mem := x.1 } := by
      refine .withMem hk heffect ?_
      rintro e va z (⟨s, hs, heq, -⟩ | heq | heq)
      · exact .inr (spaceOf_injective heq ▸ hs)
      · exact .inl (spaceOf_injective heq)
      · exact absurd heq (spaceOf_ne e)
    have htable := EnvTable.sysIpcTrySend_inv hk.machine hc hlive hy
    refine hmem.trans (.setTable hmem.inv htable fun e _ hno => ?_)
    obtain ⟨hne, hno⟩ := not_or.mp hno
    exact (hrecords e hne).1 hno
  · refine (heffect.views (spaceOf e) va).resolve_right ?_
    rintro (⟨s, -, heq, hpage⟩ | heq | heq)
    · exact hva (spaceOf_injective heq ▸ hpage)
    · exact hne (spaceOf_injective heq)
    · exact spaceOf_ne e heq

end Send

def Reaches (t : Table) (c : Slot) : Call → Slot → Prop
  | .envSetTrapframe envid _, e => envid2env t envid false = .found (some e)
  | .ipcTrySend envid .., e => e = c ∨ Awaited t envid e
  | _, e => Own t c e

def Forks (t : Table) (call : Call) : Prop := call = .exofork → t.freeList.isSome

lemma decode_ne_ipcTrySend {regs : PushRegs} (h : decode regs = .region call)
    (envid : EnvId) (srcva : UInt64) (perm : UInt32) : call ≠ .ipcTrySend envid srcva perm := by
  rintro rfl
  unfold decode at h
  split at h <;> cases h

lemma touches_syscall {call : Call} {w : World} (hk : k.Inv) (hc : k.table.curenv = some c)
    (hlive : (k.table.envs c).status ≠ .free) (hforks : Forks k.table call)
    (hcall : ∀ m envid srcva perm, call = .region m → m ≠ .ipcTrySend envid srcva perm)
    (h : syscall c call w k = .ok r) : k.Touches (Reaches k.table c call) r.1 := by
  have hown : ∀ e, e = c → Own k.table c e := fun _ => .inl
  cases call with
  | cputs s len => exact (touches_userMemAssert hk hlive h).mono hown
  | envDestroy envid => exact touches_sysEnvDestroy hk hc hlive h
  | region call => exact touches_sysRegion hk hc hlive (fun envid srcva perm => hcall call envid srcva perm rfl) h
  | exofork => exact (touches_sysExofork hk (hforks rfl) h).mono fun _ => False.elim
  | envSetStatus envid status => exact touches_sysEnvSetStatus hk hc hlive h
  | envSetTrapframe envid tf => exact touches_sysEnvSetTrapframe hk hc hlive h
  | envSetPgfaultUpcall envid func => exact touches_sysEnvSetPgfaultUpcall hk hc h
  | yield =>
    cases h
    exact touches_schedYield hk
  | ipcTrySend envid value srcva size perm => exact (touches_ipcTrySend hk hc hlive h).1
  | ipcRecv dstva maxsize => exact (touches_sysIpcRecv hk hlive h).mono hown
  | cgetc | getenvid | regionRefs | gettime | unknown =>
    cases h
    exact .refl hk

lemma trapEnd_scheduled (hk : r.1.Inv) (e : Slot) : (r.1.table.envs e).Scheduled ((trapEnd c r).table.envs e) := by
  unfold trapEnd
  split
  · exact .refl _
  · exact EnvTable.trapReturn_scheduled hk.machine.stays e

lemma trapEnd_frame (hne : e ≠ c) : (trapEnd c r).frame e = r.1.frame e := by
  unfold trapEnd
  split
  · rfl
  · exact update_of_ne hne ..

lemma trapEnd_untouched (hk : r.1.Inv) (hne : e ≠ c) : r.1.Untouched (trapEnd c r) e := by
  refine ⟨trapEnd_scheduled hk e, trapEnd_frame hne, ?_, ?_⟩ <;>
  · unfold trapEnd
    split <;> rfl

lemma touches_trapEnd (hk : r.1.Inv) : r.1.Touches (· = c) (trapEnd c r) where
  inv := by
    unfold trapEnd
    split
    · exact hk
    · exact ⟨hk.machine.calm (EnvTable.trapReturn_calm hk.machine.steady), hk.formed⟩
  others := fun _ _ => trapEnd_untouched hk
  guard := by
    unfold trapEnd
    split <;> exact id

/-- What a trap must meet, as in `Forks`. -/
def TrapForks (t : Table) (tf : Trapframe) : Prop := tf.trapno = tSyscall → Forks t (decode tf.regs)

def TrapReaches (t : Table) (c : Slot) (tf : Trapframe) (e : Slot) : Prop :=
  e = c ∨ tf.trapno = tSyscall ∧ Reaches t c (decode tf.regs) e

section Traps

variable {tf : Trapframe} {w : World} {va : UInt64}

lemma touches_trapReturn (hk : k.Inv) : k.Touches P (k.setTable (trapReturn k.table)) :=
  .setTable hk (hk.machine.calm (EnvTable.trapReturn_calm hk.machine.steady)) fun e _ _ =>
    EnvTable.trapReturn_scheduled hk.machine.stays e

lemma touches_trapDispatch (hk : k.Inv) (hc : k.table.curenv = some c) (hlive : (k.table.envs c).status ≠ .free)
    (hforks : TrapForks k.table tf) (h : trapDispatch c tf w k = .ok k') : k.Touches (TrapReaches k.table c tf) k' := by
  unfold trapDispatch at h
  split_ifs at h with hsys
  · obtain ⟨r, hr, rfl⟩ := map_eq_ok.mp h
    have hcall := touches_syscall hk hc hlive (hforks hsys) (fun _ _ _ _ hm => decode_ne_ipcTrySend hm _ _ _) hr
    have hend : r.1.Touches (· = c) (trapEnd c r) := touches_trapEnd hcall.inv
    exact (hcall.mono fun _ he => .inr ⟨hsys, he⟩).trans (hend.mono fun _ => .inl)
  · cases h
    exact touches_trapReturn hk
  · cases h
    exact touches_schedYield hk
  · obtain ⟨r, hr, rfl⟩ := map_eq_ok.mp h
    exact (touches_envDestroy hk hlive hr).mono fun _ => .inl

lemma touches_forced {maxclass : ℕ} {x : Mem × Option Res} {va : ℕ} (hk : k.Inv)
    (h : forced (forceAllocPage k.setting (spaceOf c) va maxclass k.mem) = .ok x) :
    k.Touches (· = c) { k with mem := x.1 } := by
  have hacts : Acts (fun u _ _ => u = spaceOf c ∨ u = kspace) k.mem
      (forceAllocPage k.setting (spaceOf c) va maxclass k.mem) := acts_forceAllocPage_space hk.formed
  have hmem : ∀ mem, Left Prod.fst (forceAllocPage k.setting (spaceOf c) va maxclass k.mem) mem →
      k.Touches (· = c) { k with mem := mem } := fun mem hleft =>
    .withMem hk (hacts.left hleft) fun e _ _ hu => spaceOf_injective (hu.resolve_right (spaceOf_ne e))
  unfold forced at h
  split at h
  · next mem res hm =>
    cases h
    exact hmem mem (.inl ⟨_, hm, rfl⟩)
  · next mem hm =>
    cases h
    exact hmem mem (.inr hm)
  · cases h

lemma touches_pageFaultHandler (hk : k.Inv) (h : pageFaultHandler c tf k = .ok x) : k.Touches (· = c) x.1 := by
  unfold pageFaultHandler at h
  split_ifs at h
  · split at h
    · cases h
    · cases h
      exact .refl hk
  · obtain ⟨y, hy, h⟩ := bind_eq_ok.mp h
    have hforced := touches_forced hk hy
    dsimp only at h
    split at h
    · cases h
      exact hforced
    · split at h
      · cases h
      all_goals
        cases h
        exact hforced

lemma touches_handleFault (hk : k.Inv) (h : handleFault c tf va k = .ok x) : k.Touches (· = c) x.1 := by
  obtain ⟨y, hy, h⟩ := bind_eq_ok.mp h
  have hforced := touches_forced hk hy
  split at h
  · cases h
    exact hforced
  · cases h
    exact hforced
  · have hframe := hforced.trans (.setFrame hforced.inv c tf)
    exact hframe.trans (touches_pageFaultHandler hframe.inv h)

lemma handleFault_kept (h : handleFault c tf va k = .ok x) :
    x.1.machine = k.machine ∧ x.1.inPageFault = k.inPageFault ∧ ∀ e, e ≠ c → x.1.frame e = k.frame e := by
  obtain ⟨y, hy, h⟩ := bind_eq_ok.mp h
  dsimp only at h
  split at h
  · cases h
    exact ⟨rfl, rfl, fun _ _ => rfl⟩
  · cases h
    exact ⟨rfl, rfl, fun _ _ => rfl⟩
  · have hframe : ∀ e, e ≠ c → ({ k with mem := y.1 }.setFrame c tf).frame e = k.frame e := fun e hne =>
      update_of_ne hne ..
    unfold pageFaultHandler at h
    split_ifs at h
    · split at h
      · cases h
      · cases h
        exact ⟨rfl, rfl, hframe⟩
    · obtain ⟨z, hz, h⟩ := bind_eq_ok.mp h
      dsimp only at h
      split at h
      · cases h
        exact ⟨rfl, rfl, hframe⟩
      · split at h
        · cases h
        all_goals
          cases h
          exact ⟨rfl, rfl, hframe⟩

/-- **A page fault** touches the environment only; the guard is set before. -/
lemma touches_pageFault (hk : k.Inv) (hrun : (k.table.envs c).status = .running) (h : pageFault c tf va k = .ok k') :
    ({ k with inPageFault := true } : Kernel).Touches (· = c) k' := by
  unfold pageFault at h
  split_ifs at h
  obtain ⟨x, hx, h⟩ := bind_eq_ok.mp h
  have hk₁ : ({ k with inPageFault := true } : Kernel).Inv := ⟨hk.machine, hk.formed⟩
  have hfirst := touches_handleFault hk₁ hx
  have hx₁ : (x.1.table.envs c).status = .running := by
    rwa [show x.1.table = k.table from congrArg EnvTable.Machine.table (handleFault_kept hx).1]
  have hlive : (x.1.table.envs c).status ≠ .free := EnvTable.Status.Ready.live (.inr hx₁)
  refine hfirst.trans ?_
  split at h
  · cases h
    exact .setGuard hfirst.inv false nofun
  · next rsp _ =>
    obtain rfl := Except.ok.inj h
    have hframe := Kernel.Touches.setFrame hfirst.inv c { tf with rsp := rsp, rip := x.1.upcall c }
    refine hframe.trans ?_
    split
    · have hguard : (x.1.setFrame c { tf with rsp := rsp, rip := x.1.upcall c }).Touches (· = c) _ :=
        .setGuard hframe.inv false nofun
      exact hguard.trans (touches_envRun hguard.inv (.inr hx₁))
    · exact touches_envRun hframe.inv (.inr hx₁)
  · obtain ⟨r, hr, rfl⟩ := map_eq_ok.mp h
    exact touches_envDestroy hfirst.inv hlive hr
  · cases h
    exact touches_destroyed hfirst.inv hlive

lemma touches_trap (hk : k.Inv) (hforks : TrapForks k.table tf) (hc : k.table.curenv = some c)
    (hno : tf.trapno ≠ tPgflt) (h : trap tf w k = .ok k') : k.Touches (TrapReaches k.table c tf) k' := by
  obtain ⟨c', hc', hrun, ⟨hfault, -⟩ | ⟨-, h⟩⟩ := trap_eq_ok h
  · exact absurd hfault hno
  · obtain rfl : c = c' := some.inj (hc.symm.trans hc')
    have hlive : (k.table.envs c).status ≠ .free := EnvTable.Status.Ready.live (.inr hrun)
    have hframe := Kernel.Touches.setFrame hk c tf
    exact (hframe.mono fun _ => .inl).trans (touches_trapDispatch hframe.inv hc hlive hforks h)

lemma trap_inv (hk : k.Inv) (hforks : TrapForks k.table tf) (h : trap tf w k = .ok k') : k'.Inv := by
  obtain ⟨c, hc, hrun, ⟨-, h⟩ | ⟨hno, -⟩⟩ := trap_eq_ok h
  · exact (touches_pageFault hk hrun h).inv
  · exact (touches_trap hk hforks hc hno h).inv

end Traps

/-- What a step must meet, as in `Forks`. -/
def Step.Forks (k : Kernel) : Step → Prop
  | .trap tf _ => TrapForks k.table tf
  | _ => True

lemma memStep_inv {i : MemStep} {Q : Change} (hk : k.Inv)
    (hi : ∀ mem, Jos.PmapModel.memStep k.mem i = .ok mem → k.mem.Effect Q mem) (h : memStep k i = .ok k') : k'.Inv := by
  unfold memStep at h
  split at h
  · next mem hmem =>
    cases h
    exact ⟨hk.machine, (hi mem hmem).formed⟩
  · cases h

lemma envAlloc_inv {parentId : EnvId} {type : EnvType} (hk : k.Inv) (h : envAlloc parentId type k = .ok k') : k'.Inv := by
  unfold envAlloc at h
  split at h
  · cases h
    exact hk
  · next t s ha =>
    obtain ⟨mem, hmem, h⟩ := bind_eq_ok.mp h
    cases h
    have heffect : k.mem.Effect (fun _ _ _ => True) mem :=
      initAddressSpace_effect hk.formed (liftMem_eq_ok.mp hmem) fun _ => trivial
    exact ⟨(EnvTable.envAlloc_inv hk.machine ha).1, heffect.formed⟩

lemma atStart_eq_ok {m : Except Stop Kernel} : atStart k m = .ok k' ↔ k.table.curenv = none ∧ m = .ok k' := by
  unfold atStart
  cases k.table.curenv with
  | none => simp
  | some c => exact iff_of_false nofun nofun

/-- **A step keeps the invariant**, if a fork finds a free slot. -/
lemma step_inv {i : Step} (hk : k.Inv) (hforks : i.Forks k) (h : step k i = .ok k') : k'.Inv := by
  cases i with
  | attach x =>
    refine memStep_inv (Q := fun _ _ _ => True) hk (fun mem hmem => ?_) h
    obtain ⟨s, hs, hmem⟩ := bind_eq_ok.mp hmem
    cases hmem
    exact attach_effect hk.formed (lift_eq_ok.mp hs)
  | initKspace =>
    refine memStep_inv (Q := fun _ _ _ => True) hk (fun mem hmem => ?_) h
    exact initKspace_effect hk.formed (lift_eq_ok.mp hmem) fun _ => trivial
  | switchOn =>
    refine memStep_inv (i := .switchOn) (Q := fun _ _ _ => True) hk (fun mem hmem => ?_) h
    cases hmem
    exact .withPhys hk.formed hk.formed.placed
  | mapPhysical dst pa cls flags =>
    refine memStep_inv (Q := fun _ _ _ => True) hk (fun mem hmem => ?_) h
    obtain ⟨r, hr, rfl⟩ := map_eq_ok.mp hmem
    exact mapPhysical_effect hk.formed (lift_eq_ok.mp hr) fun _ _ => trivial
  | envAlloc parentId type => exact envAlloc_inv hk (atStart_eq_ok.mp h).2
  | load s dst size flags =>
    have h := (atStart_eq_ok.mp h).2
    split at h
    · cases h
    · next hlive =>
      have hacts : Acts (fun u _ _ => u = spaceOf s ∨ u = spaceOf s ∨ u = kspace) k.mem
          (mapRegion ⟨k.zeroPage, k.onePage, none⟩ (spaceOf s) dst none 0 size flags k.mem) :=
        acts_mapRegion_anywhere hk.formed nofun
      exact (touches_actFor hk hlive (hacts.mono fun _ _ _ hu => hu.elim .inl id) h).inv
  | envRun s =>
    have h := (atStart_eq_ok.mp h).2
    split at h
    · next hrun =>
      obtain rfl := Except.ok.inj h
      exact (touches_envRun (P := fun _ => True) hk (.inl hrun)).inv
    · cases h
  | schedYield =>
    obtain rfl := Except.ok.inj (atStart_eq_ok.mp h).2
    exact (touches_schedYield (P := fun _ => True) hk).inv
  | trap tf w => exact trap_inv hk hforks h

lemma setFrame_same (k : Kernel) (s : Slot) (tf : Trapframe) : (k.setFrame s tf).frame s = tf := update_self ..

lemma boot_inv (kernelEnd : ℕ) (has1gbPages nxSupported : Bool) (zeroPage onePage : Path) :
    (boot kernelEnd has1gbPages nxSupported zeroPage onePage).Inv :=
  ⟨EnvTable.boot_inv, (boot_userFormed kernelEnd has1gbPages nxSupported).toFormed⟩

end Jos.SysCall
