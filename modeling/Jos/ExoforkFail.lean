import Jos.IpcPage

/-!
`sys_exofork` where no environment can be made: there is no slot for it, or no page for its first
table. What `env_alloc` and `alloc_pt` return is not looked at.
-/

namespace Jos.SysCall

open Option Except

open CArray (bind_eq_ok then_ok)
open Jos.Dyadic PmapModel Runs
open EnvTable (Slot EnvId nextId eNoFreeEnv)

variable {k k' : Kernel} {c s : Slot} {stray : Kernel → Kernel × ℤ} {res : Option ℤ} {phys : Phys}

def Usable (phys : Phys) (n : Page) : Prop := phys.currentSpace ∨ n.pa + classSize 0 < bootMemSize

def NoTablePage (phys : Phys) : Prop := ∀ p ∈ phys.freeFrom 0, ∀ n, phys.node p = some n → ¬Usable phys n

def CannotFork (k : Kernel) : Prop := k.table.freeList = none ∨ NoTablePage k.mem.phys

def eNoMem : ℤ := 4

def forkError (k : Kernel) : ℤ := if k.table.freeList = none then -eNoFreeEnv else -eNoMem

/-- **The call fails, and nothing is changed**, if no environment can be made. -/
def FailsClean (c : Slot) (stray : Kernel → Kernel × ℤ) (k : Kernel) : Prop :=
  CannotFork k → sysExofork c stray k = .ok (k, some (forkError k))

lemma scanFree_none {fits : Page → Bool} {ps : List Path} {r : Option Path}
    (hnone : ∀ p ∈ ps, ∀ n, phys.node p = some n → fits n = false) (h : scanFree phys fits ps = .ok r) : r = none := by
  induction ps with
  | nil => exact (ok.inj h).symm
  | cons p ps ih =>
    obtain ⟨n, hn, h⟩ := bind_eq_ok.mp h
    replace h := then_ok h
    rw [if_neg (by rw [hnone p List.mem_cons_self n (Phys.deref_eq_ok.mp hn)]; exact Bool.false_ne_true)] at h
    exact ih (fun q hq => hnone q (List.mem_cons_of_mem p hq)) h

lemma allocPage_none_of_noTablePage {r : Phys × Option Path} (hnone : NoTablePage phys)
    (h : allocPage true phys 0 = .ok r) : r = (phys, none) := by
  obtain ⟨found, hfound, h⟩ := bind_eq_ok.mp h
  have hr : found = none := by
    refine scanFree_none (fun p hp n hn => ?_) hfound
    have hno := hnone p hp n hn
    rw [Usable, not_or] at hno
    simp [hno.1, hno.2]
  rw [hr] at h
  exact (ok.inj h).symm

lemma enlist_pml4 (σ : Mem) (space : ℕ) : (σ.enlist space).pml4 = σ.pml4 := rfl

lemma newSpace_pml4 (σ : Mem) (space pml4 : ℕ) (s : Phys) : (σ.newSpace space pml4 s).pml4 space = pml4 := by
  simp [Mem.newSpace, Mem.setPte]

lemma initAddressSpace_noTablePage {space : ℕ} {σ σ' : Mem} (hnone : NoTablePage σ.phys)
    (h : initAddressSpace space σ = .ok σ') : σ'.pml4 space = 0 := by
  obtain ⟨r, hr, h⟩ := bind_eq_ok.mp h
  obtain rfl := allocPage_none_of_noTablePage hnone hr
  obtain ⟨x, hx, h⟩ := bind_eq_ok.mp h
  obtain ⟨s, -, h⟩ := bind_eq_ok.mp h
  have hzero : x.2 = 0 := (congrArg Prod.snd (ok.inj hx)).symm
  rw [← ok.inj h, enlist_pml4, (propagateOnePml4_only space kspace _).pml4, newSpace_pml4, hzero]

lemma nextId_nonneg (id : EnvId) (s : Slot) : 0 ≤ (nextId id s).toInt := by
  have hslot : (BitVec.ofNat 32 s).msb = false := by
    rw [BitVec.msb_eq_false_iff_two_mul_lt, BitVec.toNat_ofNat]
    have := s.isLt
    omega
  have hgen : ∀ g : EnvId, ¬g.toInt ≤ 0 → g.msb = false := fun g hg => by
    rw [BitVec.msb_eq_toInt]
    exact decide_eq_false (by omega)
  unfold nextId
  dsimp only
  rw [← not_lt, ← decide_eq_false_iff_not, ← BitVec.msb_eq_toInt, BitVec.msb_or, hslot, Bool.or_false]
  split
  · rfl
  · next h => exact hgen _ h

/-- **Where there is a slot and no page, the call does not fail.** If it returns at all, there is a new
environment, and the page 0 is its first table. -/
lemma sysExofork_noTablePage (hslot : k.table.freeList = some s) (hnone : NoTablePage k.mem.phys)
    (h : sysExofork c stray k = .ok (k', res)) :
    (∃ id : EnvId, res = some id.toInt ∧ 0 ≤ id.toInt ∧ (k'.table.envs s).id = id) ∧
      (k'.table.envs s).status = .notRunnable ∧ k'.mem.pml4 (spaceOf s) = 0 := by
  unfold sysExofork EnvTable.envAlloc at h
  rw [hslot] at h
  obtain ⟨mem, hmem, h⟩ := bind_eq_ok.mp h
  have hpml4 := initAddressSpace_noTablePage hnone (liftMem_eq_ok.mp hmem)
  obtain ⟨rfl, rfl⟩ := Prod.mk.inj (ok.inj h)
  refine ⟨⟨nextId (k.table.envs s).id s, ?_, nextId_nonneg _ _, ?_⟩, ?_, hpml4⟩
  all_goals simp [Kernel.table, Kernel.setFrame, Kernel.setUpcall, EnvTable.Table.setStatus]

lemma sysExofork_noSlot (hnone : k.table.freeList = none) :
    sysExofork c stray k = .ok ((stray k).1, some (stray k).2) := by
  unfold sysExofork EnvTable.envAlloc
  rw [hnone]

lemma not_failsClean_noTablePage (hslot : k.table.freeList.isSome) (hnone : NoTablePage k.mem.phys) :
    ¬FailsClean c stray k := by
  intro hclean
  obtain ⟨s, hs⟩ := isSome_iff_exists.mp hslot
  have hcall := hclean (.inr hnone)
  obtain ⟨⟨id, hres, hpos, -⟩, -⟩ := sysExofork_noTablePage hs hnone hcall
  rw [forkError, if_neg (by rw [hs]; exact some_ne_none s), eNoMem] at hres
  have := some.inj hres
  omega

/-- **A fork that cannot be made never fails as it should**: not, whatever the pointer that was not set leads to, where
there is no page, and not, whatever it leads to, where there is no slot. -/
theorem exofork_fails_clean_iff (c : Slot) (k : Kernel) :
    ((∀ stray, FailsClean c stray k) ↔ ¬CannotFork k) ∧
      (k.table.freeList.isSome → NoTablePage k.mem.phys → ∀ stray, ¬FailsClean c stray k) := by
  refine ⟨⟨fun hclean hcannot => ?_, fun hcan _ hcannot => absurd hcannot hcan⟩,
    fun hslot hnone _ => not_failsClean_noTablePage hslot hnone⟩
  cases hslot : k.table.freeList with
  | none =>
    -- the pointer leads to something that is taken for an id
    have hcall := hclean (fun k => (k, 0)) hcannot
    rw [sysExofork_noSlot hslot, forkError, if_pos hslot] at hcall
    exact absurd (some.inj (Prod.mk.inj (ok.inj hcall)).2) (show ¬(0 : ℤ) = -eNoFreeEnv by decide)
  | some s =>
    have hnone := hcannot.resolve_left (by rw [hslot]; exact some_ne_none s)
    exact not_failsClean_noTablePage (by rw [hslot]; rfl) hnone (hclean fun k => (k, 0))

def twoTablePages : List Step :=
  [.attach ⟨0x1000000, 0x1002000, false⟩, .initKspace, .switchOn, .envAlloc 0 .user, .envRun EnvTable.firstSlot]

def forkOnce (r : Kernel × Option ℤ) (_ : Unit) : Answer := sysExofork EnvTable.firstSlot quiet.stray r.1

set_option maxRecDepth 100000 in
/-- **The fork succeeds** without a page for the first table of the new environment, and its entries
are written to the page 0. -/
theorem fork_without_page :
    ∃ k, run step (boot 0x100000 true true [] []) twoTablePages = .ok k ∧
      k.table.freeList = some EnvTable.secondSlot ∧ k.mem.phys.freeFrom 0 = [] ∧
      ¬FailsClean EnvTable.firstSlot quiet.stray k ∧
      ∃ k', sysExofork EnvTable.firstSlot quiet.stray k = .ok (k', some 0x1001) ∧
        (k.table.envs EnvTable.secondSlot).status = .free ∧
        (k'.table.envs EnvTable.secondSlot).status = .notRunnable ∧
        k'.mem.pml4 (spaceOf EnvTable.secondSlot) = 0 ∧
        k.mem.pte uvptIndex = ⟨0, 0⟩ ∧ k'.mem.pte uvptIndex = ⟨0, pteP ||| pteU⟩ := by
  have hrun : ∃ k, run step (boot 0x100000 true true [] []) twoTablePages = .ok k ∧
      (k.table.freeList = some EnvTable.secondSlot ∧ k.mem.phys.freeFrom 0 = [] ∧
        (k.table.envs EnvTable.secondSlot).status = .free ∧ k.mem.pte uvptIndex = ⟨0, 0⟩) ∧
      ∃ r, run forkOnce (k, none) [()] = .ok r ∧ r.2 = some 0x1001 ∧
        (r.1.table.envs EnvTable.secondSlot).status = .notRunnable ∧
        r.1.mem.pml4 (spaceOf EnvTable.secondSlot) = 0 ∧ r.1.mem.pte uvptIndex = ⟨0, pteP ||| pteU⟩ := by
    decide +kernel
  obtain ⟨k, hk, ⟨hslot, hfree, hstatus, hpte⟩, ⟨k', res⟩, hfork, hres, hstatus', hpml4, hpte'⟩ := hrun
  rw [run_singleton] at hfork
  obtain rfl : res = some 0x1001 := hres
  refine ⟨k, hk, hslot, hfree, fun hclean => ?_, k', hfork, hstatus, hstatus', hpml4, hpte, hpte'⟩
  have hcannot : CannotFork k := .inr fun p hp => by
    rw [hfree] at hp
    exact absurd hp List.not_mem_nil
  have hsame := Prod.mk.inj (ok.inj (hfork.symm.trans (hclean hcannot)))
  rw [forkError, if_neg (by rw [hslot]; exact some_ne_none _)] at hsame
  exact absurd (some.inj hsame.2) (by decide)

end Jos.SysCall
