import Jos.Access

/-!
The guard against page faults in the kernel: `in_page_fault` is set when a fault is taken, and is to
be reset before user code runs again. It is when the fault is resolved, when it is redirected to the
environment's upcall and the registers of the first environment were saved by a page fault, and not
when it is fatal.
-/

namespace Jos.SysCall

open CArray (bind_eq_ok map_eq_ok)
open Jos.Dyadic PmapModel Runs
open EnvTable (Slot Table)

variable {k k' : Kernel} {c s : Slot} {tf : Trapframe} {w : World} {va : UInt64}

def Runs (t : Table) : Prop := ∃ c, t.curenv = some c ∧ (t.envs c).status = .running

def Kernel.Released (k : Kernel) : Prop := Runs k.table → k.inPageFault = false

lemma runs_envRun {t : Table} (h : t.Stays) (s : Slot) : Runs (EnvTable.envRun s t) := by
  rw [EnvTable.envRun_eq h]
  refine ⟨s, rfl, ?_⟩
  simp [EnvTable.switchTo]

lemma envDestroy_eq {t : Table} (hc : t.curenv = some c) :
    EnvTable.envDestroy c t = (EnvTable.schedYield (EnvTable.envFree c t), none) := by
  unfold EnvTable.envDestroy
  rw [EnvTable.envFree_setStatus]
  exact if_pos hc

/-- Where the environment that runs is destroyed, another one is run if there is one, and otherwise
nothing changes any more. -/
lemma runs_envDestroy_iff {m : EnvTable.Machine} (hm : m.Inv) (hc : m.table.curenv = some c)
    (hrun : (m.table.envs c).status = .running) :
    (EnvTable.envDestroy c m.table).1.curenv ≠ none ∧
      (Runs (EnvTable.envDestroy c m.table).1 ↔ ∃ s, s ≠ c ∧ (m.table.envs s).status = .runnable) := by
  have hlive : (m.table.envs c).status ≠ .free := EnvTable.Status.Ready.live (.inr hrun)
  have hsteady : (EnvTable.envFree c m.table).Steady := (EnvTable.envFree_inv hm hlive).steady
  have hstays := EnvTable.envFree_stays c hm.stays
  have hfree : ((EnvTable.envFree c m.table).envs c).status = .free := by rw [EnvTable.envFree_same]
  rw [envDestroy_eq hc]
  unfold EnvTable.schedYield EnvTable.schedYieldWith
  cases hpick : EnvTable.pick (EnvTable.envFree c m.table) with
  | some s =>
    have hready := EnvTable.pick_ready hpick
    have hne : s ≠ c := by
      rintro rfl
      rw [hfree] at hready
      rcases hready with h | h <;> cases h
    rw [EnvTable.envFree_other m.table hne] at hready
    have hrunnable : (m.table.envs s).status = .runnable := hready.resolve_right fun h =>
      hne (Option.some.inj ((hm.running s h).symm.trans hc))
    have hruns := runs_envRun hstays s
    dsimp only
    refine ⟨?_, iff_of_true hruns ⟨s, hne, hrunnable⟩⟩
    obtain ⟨s', hs', -⟩ := hruns
    rw [hs']
    nofun
  | none =>
    have hnone := EnvTable.pick_none hsteady hpick
    have hhalt : EnvTable.schedHalt (EnvTable.envFree c m.table) = EnvTable.envFree c m.table := if_pos hnone
    have hcur : (EnvTable.envFree c m.table).curenv = some c := hc
    rw [hhalt, hcur]
    refine ⟨nofun, iff_of_false ?_ ?_⟩
    · rintro ⟨s, -, hs⟩
      exact (hnone s).2 hs
    · rintro ⟨s, hne, hs⟩
      rw [← EnvTable.envFree_other m.table hne] at hs
      exact (hnone s).1 hs

/-- Whether the guard is reset, or no user code runs -/
def Releasing (k : Kernel) (c : Slot) : Handling → Prop
  | .resolved => True
  | .redirected _ => c = EnvTable.firstSlot ∨ (k.frame EnvTable.firstSlot).trapno = tPgflt
  | .fatal => ∀ s, s ≠ c → (k.table.envs s).status ≠ .runnable
  | .lost => ∀ s, s ≠ c → (k.table.envs s).status ≠ .runnable

def Kernel.Guarded (k : Kernel) : Prop := k.inPageFault = true → k.table.curenv ≠ none ∧ ¬Runs k.table

lemma Kernel.Guarded.released (h : k.Guarded) : k.Released := fun hruns =>
  Bool.eq_false_iff.mpr fun hset => (h hset).2 hruns

lemma guarded_of_reset (h : k.inPageFault = false) : k.Guarded := fun hset => by
  rw [h] at hset
  cases hset

lemma guarded_running {t : Table} (hset : k.inPageFault = true) (hruns : Runs t) :
    ¬(k.setTable t).Guarded ∧ ((k.setTable t).Released → (k.setTable t).Guarded) := by
  refine ⟨fun hg => (hg hset).2 hruns, fun hr => ?_⟩
  cases hset.symm.trans (hr hruns)

lemma guarded_destroyed {m : EnvTable.Machine} (hm : m.Inv) (hc : m.table.curenv = some c)
    (hrun : (m.table.envs c).status = .running) (hset : k.inPageFault = true)
    (htable : k.table = (EnvTable.envDestroy c m.table).1) :
    (k.Guarded ↔ ∀ s, s ≠ c → (m.table.envs s).status ≠ .runnable) ∧ (k.Released → k.Guarded) := by
  obtain ⟨hcur, hruns⟩ := runs_envDestroy_iff hm hc hrun
  rw [← htable] at hcur hruns
  have hnone : ¬Runs k.table ↔ ∀ s, s ≠ c → (m.table.envs s).status ≠ .runnable := by
    rw [hruns]
    simp only [not_exists, not_and, ne_eq]
  refine ⟨⟨fun h => hnone.mp (h hset).2, fun h _ => ⟨hcur, hnone.mpr h⟩⟩, fun h _ => ⟨hcur, fun hr => ?_⟩⟩
  rw [h hr] at hset
  cases hset

lemma trapno_redirected {x : Kernel} (rsp rip : UInt64) (hfault : tf.trapno = tPgflt)
    (hframe : ∀ e, e ≠ c → x.frame e = k.frame e) :
    ((x.setFrame c { tf with rsp := rsp, rip := rip }).frame EnvTable.firstSlot).trapno = tPgflt ↔
      c = EnvTable.firstSlot ∨ (k.frame EnvTable.firstSlot).trapno = tPgflt := by
  rcases eq_or_ne c EnvTable.firstSlot with rfl | hne
  · rw [setFrame_same]
    exact iff_of_true hfault (.inl rfl)
  · rw [show (x.setFrame c { tf with rsp := rsp, rip := rip }).frame EnvTable.firstSlot =
      k.frame EnvTable.firstSlot from (Function.update_of_ne hne.symm ..).trans (hframe _ hne.symm)]
    exact ⟨.inr, fun h => h.resolve_left hne⟩

/-- **A page fault** leaves the guard as it is to be exactly if it is handled in one of these ways. -/
lemma guarded_pageFault (hk : k.Inv) (hc : k.table.curenv = some c) (hrun : (k.table.envs c).status = .running)
    (hfault : tf.trapno = tPgflt) (h : pageFault c tf va k = .ok k') :
    ∃ x, handleFault c tf va { k with inPageFault := true } = .ok x ∧
      (k'.Guarded ↔ Releasing k c x.2) ∧ (k'.Released → k'.Guarded) := by
  unfold pageFault at h
  split_ifs at h
  obtain ⟨x, hx, h⟩ := bind_eq_ok.mp h
  obtain ⟨hmachine, hset, hframe⟩ := handleFault_kept hx
  have htable : x.1.table = k.table := congrArg EnvTable.Machine.table hmachine
  refine ⟨x, hx, ?_⟩
  split at h
  · next hres =>
    cases h
    rw [hres]
    exact ⟨iff_of_true (guarded_of_reset rfl) trivial, fun _ => guarded_of_reset rfl⟩
  · next rsp hres =>
    obtain rfl := Except.ok.inj h
    rw [hres]
    have hsaved := trapno_redirected rsp (x.1.upcall c) hfault hframe
    have hruns : Runs (EnvTable.envRun c x.1.table) := by
      rw [htable]
      exact runs_envRun hk.machine.stays c
    split
    · next hreset => exact ⟨iff_of_true (guarded_of_reset rfl) (hsaved.mp hreset), fun _ => guarded_of_reset rfl⟩
    · next hkept =>
      obtain ⟨hno, himp⟩ := guarded_running (k := x.1.setFrame c { tf with rsp := rsp, rip := x.1.upcall c }) hset hruns
      exact ⟨iff_of_false hno fun hr => hkept (hsaved.mpr hr), himp⟩
  · next hres =>
    obtain ⟨r, hr, rfl⟩ := map_eq_ok.mp h
    rw [hres]
    obtain ⟨mem, -, hr⟩ := bind_eq_ok.mp hr
    cases hr
    have hnone : (EnvTable.envDestroy c x.1.table).2 = none := by
      rw [htable]
      exact EnvTable.envDestroy_curenv hc
    refine guarded_destroyed hk.machine hc hrun ?_ (by rw [htable]; rfl)
    exact Bool.and_eq_true_iff.mpr ⟨hset, by rw [hnone]; rfl⟩
  · next hres =>
    cases h
    rw [hres]
    exact guarded_destroyed hk.machine hc hrun hset (by rw [htable]; rfl)

def Step.Releases (k : Kernel) : Step → Prop
  | .trap tf w =>
    tf.trapno = tPgflt → ∀ c x, k.table.curenv = some c →
      handleFault c tf w.cr2 { k with inPageFault := true } = .ok x → Releasing k c x.2
  | _ => True

lemma guarded_of_touches {P : Slot → Prop} (h : k.Touches P k') (hreset : k.inPageFault = false) : k'.Guarded :=
  guarded_of_reset (Bool.eq_false_iff.mpr fun hset => by
    rw [h.guard hset] at hreset
    cases hreset)

lemma guarded_trap (hk : k.Inv) (hg : k.Guarded) (hforks : TrapForks k.table tf) (h : trap tf w k = .ok k') :
    (k'.Guarded ↔ (Step.trap tf w).Releases k) ∧ (k'.Released → k'.Guarded) := by
  obtain ⟨c, hc, hrun, hcases⟩ := trap_eq_ok h
  have hreset : k.inPageFault = false := hg.released ⟨c, hc, hrun⟩
  rcases hcases with ⟨hfault, h⟩ | ⟨hno, -⟩
  · obtain ⟨x, hx, hiff, himp⟩ := guarded_pageFault hk hc hrun hfault h
    refine ⟨hiff.trans ⟨fun hr _ c' x' hc' hx' => ?_, fun hr => hr hfault c x hc hx⟩, himp⟩
    obtain rfl : c = c' := Option.some.inj (hc.symm.trans hc')
    obtain rfl : x = x' := Except.ok.inj (hx.symm.trans hx')
    exact hr
  · have hguarded := guarded_of_touches (touches_trap hk hforks hc hno h) hreset
    exact ⟨iff_of_true hguarded fun hfault => absurd hfault hno, fun _ => hguarded⟩

lemma memStep_guarded {i : MemStep} (hg : k.Guarded) (h : memStep k i = .ok k') : k'.Guarded := by
  unfold memStep at h
  split at h
  · cases h
    exact hg
  · cases h

lemma Kernel.Guarded.atStart (hg : k.Guarded) (hnone : k.table.curenv = none) : k.inPageFault = false :=
  Bool.eq_false_iff.mpr fun hset => (hg hset).1 hnone

lemma envAlloc_guarded {parentId : EnvTable.EnvId} {type : EnvTable.EnvType} (hreset : k.inPageFault = false)
    (h : envAlloc parentId type k = .ok k') : k'.Guarded := by
  unfold envAlloc at h
  split at h
  · cases h
    exact guarded_of_reset hreset
  · obtain ⟨mem, -, h⟩ := bind_eq_ok.mp h
    cases h
    exact guarded_of_reset hreset

lemma start_guarded {i : Step} (hk : k.Inv) (hg : k.Guarded) (h : step k i = .ok k')
    (hi : ∀ tf w, i ≠ .trap tf w) : k'.Guarded := by
  cases i with
  | attach x | initKspace => exact memStep_guarded hg h
  | switchOn => exact memStep_guarded (i := .switchOn) hg h
  | mapPhysical dst pa cls flags => exact memStep_guarded hg h
  | envAlloc parentId type =>
    obtain ⟨hnone, h⟩ := atStart_eq_ok.mp h
    exact envAlloc_guarded (hg.atStart hnone) h
  | load s dst size flags =>
    obtain ⟨hnone, h⟩ := atStart_eq_ok.mp h
    have hreset := hg.atStart hnone
    split at h
    · cases h
    · unfold actFor at h
      split at h
      · cases h
        exact guarded_of_reset hreset
      · cases h
        exact guarded_of_reset hreset
      · cases h
  | envRun s =>
    obtain ⟨hnone, h⟩ := atStart_eq_ok.mp h
    split at h
    · next hrun =>
      obtain rfl := Except.ok.inj h
      exact guarded_of_touches (touches_envRun (P := fun _ => True) hk (.inl hrun)) (hg.atStart hnone)
    · cases h
  | schedYield =>
    obtain ⟨hnone, h⟩ := atStart_eq_ok.mp h
    obtain rfl := Except.ok.inj h
    exact guarded_of_touches (touches_schedYield (P := fun _ => True) hk) (hg.atStart hnone)
  | trap tf w => exact absurd rfl (hi tf w)

/-- **A step** keeps what is to hold exactly if it meets the condition. -/
lemma guarded_step {i : Step} (hk : k.Inv) (hg : k.Guarded) (hforks : i.Forks k) (h : step k i = .ok k') :
    (k'.Guarded ↔ i.Releases k) ∧ (k'.Released → k'.Guarded) := by
  by_cases hi : ∃ tf w, i = .trap tf w
  · obtain ⟨tf, w, rfl⟩ := hi
    exact guarded_trap hk hg hforks h
  · have hno : ∀ tf w, i ≠ .trap tf w := fun tf w heq => hi ⟨tf, w, heq⟩
    have hguarded := start_guarded hk hg h hno
    refine ⟨iff_of_true hguarded ?_, fun _ => hguarded⟩
    cases i with
    | trap tf w => exact absurd rfl (hno tf w)
    | _ => trivial

variable {kernelEnd : ℕ} {has1gbPages nxSupported : Bool} {zeroPage onePage : Path} {steps : List Step}

/-- **The guard is released whenever user code runs**, in every state of a run, exactly if every
page fault is resolved, or redirected while the registers of the first environment are those of a
page fault, or fatal with nothing left to run. (Forks find a free slot.) -/
theorem guard_released_iff
    (hforks : ∀ pre i u, pre ++ [i] <+: steps →
      run step (boot kernelEnd has1gbPages nxSupported zeroPage onePage) pre = .ok u → i.Forks u) :
    (∀ pre k, pre <+: steps → run step (boot kernelEnd has1gbPages nxSupported zeroPage onePage) pre = .ok k →
        k.Released) ↔
      ∀ pre i k k', pre ++ [i] <+: steps →
        run step (boot kernelEnd has1gbPages nxSupported zeroPage onePage) pre = .ok k → step k i = .ok k' →
        i.Releases k := by
  have hstep : ∀ (k : Kernel) (i : Step) (k' : Kernel), k.Inv ∧ k.Guarded → i.Forks k → i.Releases k →
      step k i = .ok k' → k'.Inv ∧ k'.Guarded := by
    rintro k i k' ⟨hk, hg⟩ hf hr h
    exact ⟨step_inv hk hf h, (guarded_step hk hg hf h).1.mpr hr⟩
  refine run_forall_iff_when hstep (fun k h => h.2.released) ?_ ?_ steps hforks
  · rintro k i k' ⟨hk, hg⟩ hf hno h hreleased
    obtain ⟨hiff, himp⟩ := guarded_step hk hg hf h
    exact hno (hiff.mp (himp hreleased))
  · exact ⟨boot_inv kernelEnd has1gbPages nxSupported zeroPage onePage, guarded_of_reset rfl⟩

instance : (i : Step) → Decidable (i.Forks k)
  | .trap tf _ => inferInstanceAs (Decidable (tf.trapno = tSyscall → decode tf.regs = .exofork → _))
  | .attach .. | .initKspace | .switchOn | .mapPhysical .. | .envAlloc .. | .load .. | .envRun .. | .schedYield =>
    isTrue trivial

instance : (x : Handling) → Decidable (Releasing k c x)
  | .resolved => isTrue trivial
  | .redirected _ => inferInstanceAs (Decidable (_ ∨ _))
  | .fatal | .lost => inferInstanceAs (Decidable (∀ s, s ≠ c → (k.table.envs s).status ≠ .runnable))

instance : (i : Step) → Decidable (i.Releases k)
  | .trap tf w => decidable_of_iff (tf.trapno = tPgflt → ∀ c ∈ k.table.curenv,
      ∀ x ∈ (handleFault c tf w.cr2 { k with inPageFault := true }).toOption, Releasing k c x.2) (by
    refine forall_congr' fun _ => forall_congr' fun c => ?_
    cases handleFault c tf w.cr2 { k with inPageFault := true } with
    | error e => exact iff_of_true (fun _ => nofun) fun _ _ => nofun
    | ok x =>
      exact ⟨fun h y hc hy => Except.ok.inj hy ▸ h hc x rfl, fun h hc y hy => h y hc (congrArg _ (Option.some.inj hy))⟩)
  | .attach .. | .initKspace | .switchOn | .mapPhysical .. | .envAlloc .. | .load .. | .envRun .. | .schedYield =>
    isTrue trivial

def faultAt (va : UInt64) : Step :=
  .trap { clearFrame with trapno := tPgflt, err := 6, cs := userText } { quiet with cr2 := va }

/-- The first environment, with an upcall and a child, and with a page at `0x1000` that it has not got yet -/
def firstForks : List Step :=
  [.attach ⟨0x1000000, 0x1100000, false⟩, .attach ⟨0x2000000, 0x2001000, true⟩, .initKspace, .switchOn,
    .envAlloc 0 .user,
    .load EnvTable.firstSlot 0x7ffffff000 0x1000 (protR ||| protW ||| protUser ||| protShare ||| allocZero),
    .load EnvTable.firstSlot 0x1000 0x1000 (protR ||| protW ||| protUser ||| allocZero),
    .envRun EnvTable.firstSlot, .trap (callFrame 11 0 0x800000 0 0 0) quiet, .trap (callFrame 8 0 0 0 0 0) quiet]

def faultsOfFirst : List Step := firstForks ++ [faultAt 0x1000, faultAt 0x5000]

def zeroAt (x : ℕ) : Path := toward maxClass (x / 4096) 39

set_option maxRecDepth 100000 in
/-- A fork, a fault at the page, which is resolved, and one where there is none, for which the upcall runs -/
theorem guard_released_faultsOfFirst :
    (∃ k, run step (boot 0x100000 true true (zeroAt 0x2000000) []) firstForks = .ok k ∧
      ∃ k₁, run step k [faultAt 0x1000] = .ok k₁ ∧ k₁.mem.view 1 0x1000 ≠ k.mem.view 1 0x1000 ∧
        ∃ k₂, run step k₁ [faultAt 0x5000] = .ok k₂ ∧ (k₂.frame EnvTable.firstSlot).rip = 0x800000) ∧
    ∀ pre k, pre <+: faultsOfFirst → run step (boot 0x100000 true true (zeroAt 0x2000000) []) pre = .ok k →
      k.Released := by
  have hall : (∃ k, run step (boot 0x100000 true true (zeroAt 0x2000000) []) firstForks = .ok k ∧
      ∃ k₁, run step k [faultAt 0x1000] = .ok k₁ ∧ k₁.mem.view 1 0x1000 ≠ k.mem.view 1 0x1000 ∧
        ∃ k₂, run step k₁ [faultAt 0x5000] = .ok k₂ ∧ (k₂.frame EnvTable.firstSlot).rip = 0x800000) ∧
      Meets step (fun k i => i.Forks k ∧ i.Releases k) (boot 0x100000 true true (zeroAt 0x2000000) [])
        faultsOfFirst := by decide +kernel
  refine ⟨hall.1, (guard_released_iff fun pre i u hpre hrun => (hall.2.along pre i u hpre hrun).1).mpr ?_⟩
  exact fun pre i k _ hpre hrun _ => (hall.2.along pre i k hpre hrun).2

def upcallOfSecond : List Step :=
  [.attach ⟨0x1000000, 0x1100000, false⟩, .initKspace, .switchOn, .envAlloc 0 .user, .envAlloc 0 .user,
    .load EnvTable.secondSlot 0x7ffffff000 0x1000 (protR ||| protW ||| protUser ||| protShare ||| allocZero),
    .envRun EnvTable.secondSlot, .trap (callFrame 11 0 0x800000 0 0 0) quiet, faultAt 0x5000]

set_option maxRecDepth 100000 in
lemma run_upcallOfSecond : ∃ k, run step (boot 0x100000 true true [] []) upcallOfSecond = .ok k ∧
      k.table.curenv = some EnvTable.secondSlot ∧ (k.table.envs EnvTable.secondSlot).status = .running ∧
      k.inPageFault = true := by
  decide +kernel

/-- **The upcall runs with the guard set**, and the next page fault stops the kernel. -/
theorem guard_not_released :
    ∃ k, run step (boot 0x100000 true true [] []) upcallOfSecond = .ok k ∧ ¬k.Released ∧
      ∀ va, step k (faultAt va) = .error .recursiveFault := by
  obtain ⟨k, hk, hc, hrun, hset⟩ := run_upcallOfSecond
  refine ⟨k, hk, fun hr => ?_, fun va => ?_⟩
  · rw [hr ⟨_, hc, hrun⟩] at hset
    cases hset
  · simp [step, faultAt, trap, hc, hrun, pageFault, hset]

end Jos.SysCall
