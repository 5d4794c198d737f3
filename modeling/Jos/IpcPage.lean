import Jos.IpcOnce
import Jos.SysCall
import Jos.UserConfined

/-!
Pages that come with messages. A receiver that wants no page says so by an address that is not the
user's, and then the address of an earlier receive stays in its record.
-/

namespace Jos.SysCall

open CArray (bind_eq_ok map_eq_ok)
open PmapModel Runs
open EnvTable (Slot EnvId EnvType envid2env)

variable {k k' : Kernel} {c s : Slot} {envid : EnvId} {value : UInt32} {srcva size : UInt64} {perm : UInt32}
  {tf : Trapframe} {w : World}

lemma liftTable_eq_ok {α : Type} {m : Except EnvTable.Fault α} {a : α} : liftTable m = .ok a ↔ m = .ok a := by
  cases m with
  | ok b => exact Iff.intro (fun h => by cases h; rfl) fun h => by cases h; rfl
  | error e => exact iff_of_false nofun nofun

lemma liftMem_eq_ok {α : Type} {m : Except Failure α} {a : α} : liftMem m = .ok a ↔ m = .ok a := by
  cases m with
  | ok b => exact Iff.intro (fun h => by cases h; rfl) fun h => by cases h; rfl
  | error e => exact iff_of_false nofun nofun

lemma trap_eq_ok (h : trap tf w k = .ok k') : ∃ c, k.table.curenv = some c ∧ (k.table.envs c).status = .running ∧
      (tf.trapno = tPgflt ∧ pageFault c tf w.cr2 k = .ok k' ∨
        tf.trapno ≠ tPgflt ∧ trapDispatch c tf w (k.setFrame c tf) = .ok k') := by
  unfold trap at h
  split at h
  · cases h
  · next c hc =>
    split_ifs at h with hrun hfault
    · exact ⟨c, hc, not_ne_iff.mp hrun, .inl ⟨hfault, h⟩⟩
    · exact ⟨c, hc, not_ne_iff.mp hrun, .inr ⟨hfault, h⟩⟩

lemma tSyscall_ne_tPgflt : tSyscall ≠ tPgflt := by decide

lemma trap_cases (hsys : tf.trapno = tSyscall) (h : trap tf w k = .ok k') :
    ∃ c r, k.table.curenv = some c ∧ (k.table.envs c).status = .running ∧
      syscall c (decode tf.regs) w (k.setFrame c tf) = .ok r ∧ trapEnd c r = k' := by
  obtain ⟨c, hc, hrun, ⟨hfault, -⟩ | ⟨-, h⟩⟩ := trap_eq_ok h
  · exact absurd (hsys.symm.trans hfault) tSyscall_ne_tPgflt
  · unfold trapDispatch at h
    rw [if_pos hsys] at h
    obtain ⟨r, hr, hend⟩ := map_eq_ok.mp h
    exact ⟨c, r, hc, hrun, hr, hend⟩

lemma findEnv_eq_ok {t : EnvTable.Table} {checkPerm : Bool} :
    findEnv t envid checkPerm = .ok s ↔ envid2env t envid checkPerm = .found (some s) := by
  unfold findEnv
  cases envid2env t envid checkPerm with
  | found env =>
    cases env with
    | none => exact iff_of_false nofun nofun
    | some s' =>
      dsimp only
      rw [Except.ok.injEq, EnvTable.Lookup.found.injEq, Option.some.injEq]
  | badEnv | fault => exact iff_of_false nofun nofun

lemma sysIpcTrySend_eq_ok {t : EnvTable.Table} {r : RegionCall} (h : sysIpcTrySend t envid srcva perm = .ok r) :
    ∃ s c, envid2env t envid false = .found (some s) ∧ t.curenv = some c ∧ (t.envs s).ipcRecving = true ∧
      srcva < EnvTable.maxUserAddress ∧ (t.envs s).ipcDstva < EnvTable.maxUserAddress ∧
      EnvTable.pageOffset (t.envs s).ipcDstva = 0 ∧
      r = .map (spaceOf s) (t.envs s).ipcDstva.toNat (some (spaceOf c)) srcva.toNat (classSize 0) (perm ||| protUser) := by
  obtain ⟨s, hs, h⟩ := bind_eq_ok.mp h
  obtain ⟨_, hrecv, h⟩ := bind_eq_ok.mp h
  dsimp only at h
  split at h
  · next hpage =>
    obtain ⟨_, halign, h⟩ := bind_eq_ok.mp h
    split at h
    · cases h
    · next c hc =>
      refine ⟨s, c, findEnv_eq_ok.mp hs, hc, ?_, hpage.1, hpage.2, ?_, (Except.ok.inj h).symm⟩
      · exact not_not.mp (refuse_eq_ok.mp hrecv)
      · exact not_not.mp (not_or.mp (refuse_eq_ok.mp halign)).2
  · cases h

/-- No page comes with a message: the sender gives no address of its own, or the receiver's record
has none. -/
def NoPage (k : Kernel) (s : Slot) (srcva : UInt64) : Prop :=
  EnvTable.maxUserAddress ≤ srcva ∨ EnvTable.maxUserAddress ≤ (k.table.envs s).ipcDstva

lemma sendPage_none (hto : envid2env k.table envid false = .found (some s)) (h : NoPage k s srcva) :
    sendPage envid srcva perm k = .ok (k.mem, .failed) := by
  unfold sendPage
  split
  · rfl
  · next r hr =>
    obtain ⟨s', c, hto', -, -, hsrc, hdst, -⟩ := sysIpcTrySend_eq_ok hr
    rw [hto] at hto'
    cases hto'
    rcases h with h | h
    · exact absurd hsrc (UInt64.not_lt.mpr h)
    · exact absurd hdst (UInt64.not_lt.mpr h)

lemma trap_send (hsys : tf.trapno = tSyscall) (htrap : trap tf w k = .ok k')
    (hcall : decode tf.regs = .ipcTrySend envid value srcva size perm) :
    ∃ c x r, k.table.curenv = some c ∧ (k.table.envs c).status = .running ∧
      sendPage envid srcva perm (k.setFrame c tf) = .ok x ∧
      EnvTable.sysIpcTrySend c envid value srcva size perm x.2 k.table = .ok r ∧ k'.mem = x.1 ∧
      k'.table = if r.2.isSome then EnvTable.trapReturn r.1 else r.1 := by
  obtain ⟨c, r, hc, hrun, hr, rfl⟩ := trap_cases hsys htrap
  rw [hcall] at hr
  obtain ⟨x, hx, hr⟩ := bind_eq_ok.mp hr
  obtain ⟨y, hy, hr⟩ := bind_eq_ok.mp hr
  cases hr
  refine ⟨c, x, y, hc, hrun, hx, liftTable_eq_ok.mp hy, ?_⟩
  unfold trapEnd
  cases hres : y.2 with
  | none | some res => exact ⟨rfl, rfl⟩

lemma stays_of_running {σ : EnvTable.Table} (hc : σ.curenv = some c) (hrun : (σ.envs c).status = .running) :
    σ.Stays := by
  intro c' hc'
  rw [hc] at hc'
  cases hc'
  rw [hrun]
  nofun

lemma deliver_perm {σ : EnvTable.Table} {maxsz : UInt64} (hstays : σ.Stays) :
    ((EnvTable.trapReturn (EnvTable.deliver c s value perm maxsz σ).1).envs s).ipcPerm = perm := by
  have hafter : (EnvTable.deliver c s value perm maxsz σ).1.Stays := EnvTable.deliver_stays hstays
  have hipc := (EnvTable.trapReturn_scheduled hafter s).ipc
  rw [EnvTable.deliver_same] at hipc
  exact congrArg (fun x => x.message.perm) hipc

/-- **A receiver that waits gets no mapping** from a message that comes without a page, and reads no
permissions; and it is only then that it reads none, where there are some to send. (Whether it asked
for a page does not matter.) -/
theorem send_without_page (hsys : tf.trapno = tSyscall) (htrap : trap tf w k = .ok k')
    (hcall : decode tf.regs = .ipcTrySend envid value srcva size perm)
    (hto : envid2env k.table envid false = .found (some s)) (hrecv : (k.table.envs s).ipcRecving = true) :
    (NoPage k s srcva →
      (∀ va, k'.mem.view (spaceOf s) va = k.mem.view (spaceOf s) va) ∧ (k'.table.envs s).ipcPerm = 0) ∧
    ((k'.table.envs s).ipcRecving = false → perm ≠ 0 → (k'.table.envs s).ipcPerm = 0 → NoPage k s srcva) := by
  obtain ⟨c, x, r, hc, hrun, hx, hr, hmem, htable⟩ := trap_send hsys htrap hcall
  have hstays := stays_of_running hc hrun
  refine ⟨fun hno => ?_, fun hdone hperm hzero => ?_⟩
  · have hx' := (sendPage_none (k := k.setFrame c tf) hto hno).symm.trans hx
    cases hx'
    refine ⟨fun va => by rw [hmem]; rfl, ?_⟩
    have hpage : ¬(srcva < EnvTable.maxUserAddress ∧ (k.table.envs s).ipcDstva < EnvTable.maxUserAddress) := by
      rintro ⟨hsrc, hdst⟩
      exact hno.elim (UInt64.not_le.mpr hsrc) (UInt64.not_le.mpr hdst)
    unfold EnvTable.sysIpcTrySend at hr
    simp only [hto, hrecv, hpage, if_false, Bool.not_true] at hr
    cases hr
    rw [htable]
    exact deliver_perm hstays
  · rcases EnvTable.sysIpcTrySend_cases hr with ⟨hsame, e, -, hres⟩ | rfl | ⟨t, maxsz, ht, -, rfl⟩
    · -- nothing was delivered
      rw [htable, hres, hsame] at hdone
      have hipc := congrArg EnvTable.Ipc.recving (EnvTable.trapReturn_scheduled hstays s).ipc
      cases hrecv.symm.trans (hipc.symm.trans hdone)
    · -- the sender is gone, and the receiver waits on
      rw [htable, EnvTable.envDestroy_curenv hc] at hdone
      have hipc := congrArg EnvTable.Ipc.recving (EnvTable.envDestroy_scheduled (s := c) hstays s).ipc
      have hfree : ((EnvTable.envFree c k.table).envs s).ipcRecving = (k.table.envs s).ipcRecving := by
        rcases eq_or_ne s c with rfl | hne
        · rw [EnvTable.envFree_same]
        · rw [EnvTable.envFree_other _ hne]
      cases hrecv.symm.trans (hfree.symm.trans (hipc.symm.trans hdone))
    · rw [hto] at ht
      cases ht
      rw [htable] at hzero
      by_contra hno
      obtain ⟨hsrc, hdst⟩ := not_or.mp hno
      have hnone := (deliver_perm hstays).symm.trans hzero
      rw [if_pos ⟨UInt64.not_le.mp hsrc, UInt64.not_le.mp hdst⟩] at hnone
      exact hperm hnone

def callFrame (rax rdx rcx rbx rdi rsi : UInt64) : Trapframe :=
  { clearFrame with
    trapno := tSyscall
    regs := { clearFrame.regs with rax := rax, rdx := rdx, rcx := rcx, rbx := rbx, rdi := rdi, rsi := rsi } }

def quiet : World := ⟨0, 0, none, fun k => (k, 0)⟩

def receiveNoPage : List Step :=
  [.attach ⟨0x1000000, 0x1100000, false⟩, .initKspace, .switchOn, .envAlloc 0 .user, .envAlloc 0 .user,
    .envRun EnvTable.firstSlot, .trap (callFrame 14 0x8000000000 0 0 0 0) quiet,
    .trap (callFrame 4 0 0x1000 0x1000 (protR ||| protShare).toUInt64 0) quiet]

def sendFrom (srcva : UInt64) : Trapframe := callFrame 13 0x1000 7 srcva 0x1000 protR.toUInt64

set_option maxRecDepth 100000 in
lemma run_receiveNoPage : ∃ k, run step (boot 0x100000 true true [] []) receiveNoPage = .ok k ∧
      (envid2env k.table 0x1000 false = .found (some EnvTable.firstSlot) ∧
        (k.table.envs EnvTable.firstSlot).ipcRecving = true ∧ k.mem.view 1 0 = none) ∧
      (∃ k', run step k [.trap (sendFrom 0x8000000000) quiet] = .ok k' ∧ True) ∧
      ∃ k', run step k [.trap (sendFrom 0x1000) quiet] = .ok k' ∧
        (k'.mem.view 1 0).isSome ∧ (k'.table.envs EnvTable.firstSlot).ipcPerm = protR := by
  decide +kernel

/-- With an address that is not the user's, the first environment gets no page. -/
theorem send_without_page_receiveNoPage :
    ∃ k, run step (boot 0x100000 true true [] []) receiveNoPage = .ok k ∧
      ∃ k', run step k [.trap (sendFrom 0x8000000000) quiet] = .ok k' ∧
        (∀ va, k'.mem.view 1 va = k.mem.view 1 va) ∧ (k'.table.envs EnvTable.firstSlot).ipcPerm = 0 := by
  obtain ⟨k, hk, ⟨hto, hrecv, -⟩, ⟨k', hk', -⟩, -⟩ := run_receiveNoPage
  have htrap : trap (sendFrom 0x8000000000) quiet k = .ok k' := (run_singleton _ _).symm.trans hk'
  have hno : NoPage k EnvTable.firstSlot 0x8000000000 := .inl (by decide)
  exact ⟨k, hk, k', hk', (send_without_page rfl htrap rfl hto hrecv).1 hno⟩

/-- **The page is mapped** at address zero, which the first environment has not asked for. -/
theorem page_not_wanted :
    ∃ k, run step (boot 0x100000 true true [] []) receiveNoPage = .ok k ∧ k.mem.view 1 0 = none ∧
      ∃ k', run step k [.trap (sendFrom 0x1000) quiet] = .ok k' ∧
        (k'.mem.view 1 0).isSome ∧ (k'.table.envs EnvTable.firstSlot).ipcPerm = protR := by
  obtain ⟨k, hk, ⟨-, -, hnone⟩, -, hsent⟩ := run_receiveNoPage
  exact ⟨k, hk, hnone, hsent⟩

end Jos.SysCall
