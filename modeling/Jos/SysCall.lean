import Jos.MemMachine
import Jos.UserMem

/-!
The system calls, and what else the kernel does, on all that it keeps for environments: their
records, saved registers and address spaces.

The records are those of `EnvTable`, the address spaces those of `MapModel`. What a call reads from
devices or from the caller's memory is given to it.
-/

namespace Jos.SysCall

open CArray (bind_eq_ok)
open Jos.Dyadic PmapModel
open EnvTable (Table Slot Machine Env EnvId EnvType Fault Mapping envid2env trapReturn eBadEnv eInval)
open UserMem (checkLoop maxUserReadable)

structure PushRegs where
  r15 : UInt64
  r14 : UInt64
  r13 : UInt64
  r12 : UInt64
  r11 : UInt64
  r10 : UInt64
  r9 : UInt64
  r8 : UInt64
  rsi : UInt64
  rdi : UInt64
  rbp : UInt64
  rdx : UInt64
  rcx : UInt64
  rbx : UInt64
  rax : UInt64
  deriving DecidableEq, Repr

structure Trapframe where
  regs : PushRegs
  es : UInt16
  ds : UInt16
  trapno : UInt64
  err : UInt64
  rip : UInt64
  cs : UInt16
  rflags : UInt64
  rsp : UInt64
  ss : UInt16
  deriving DecidableEq, Repr

/-- `GD_UT | 3` -/
def userText : UInt16 := 0x2b
/-- `GD_UD | 3` -/
def userData : UInt16 := 0x33
def flIf : UInt64 := 0x200
def flIopl3 : UInt64 := 0x3000
def userStackTop : UInt64 := 0x7fffff7000

structure Kernel where
  machine : Machine
  mem : Mem
  /-- `env_tf` -/
  frame : Slot → Trapframe
  /-- `env_pgfault_upcall` -/
  upcall : Slot → UInt64
  zeroPage : Path
  onePage : Path
  inPageFault : Bool

namespace Kernel

def table (k : Kernel) : Table := k.machine.table

def setTable (k : Kernel) (t : Table) : Kernel := { k with machine := { k.machine with table := t } }

def setFrame (k : Kernel) (s : Slot) (tf : Trapframe) : Kernel := { k with frame := Function.update k.frame s tf }

def setUpcall (k : Kernel) (s : Slot) (func : UInt64) : Kernel :=
  { k with upcall := Function.update k.upcall s func }

/-- What `map_region` needs to know of the kernel -/
def setting (k : Kernel) : Setting := ⟨k.zeroPage, k.onePage, k.table.curenv.map spaceOf⟩

end Kernel

inductive Stop
  | mem (e : Exit)
  | table (f : Fault)
  | diverges
  /-- a page fault or another trap in the kernel -/
  | kernelFault
  /-- `assert(!in_page_fault)` -/
  | recursiveFault

def liftMem {α : Type} (m : Except Failure α) : Except Stop α :=
  match m with
  | .ok a => .ok a
  | .error f => .error (.mem (.fail f))

def liftTable {α : Type} (m : Except Fault α) : Except Stop α :=
  match m with
  | .ok a => .ok a
  | .error f => .error (.table f)

abbrev Answer := Except Stop (Kernel × Option ℤ)

/-- If it returns, then with `in_page_fault` reset. -/
def envDestroy (s : Slot) (k : Kernel) : Answer := do
  let mem ← liftMem (releaseAddressSpace (spaceOf s) k.mem)
  let r := EnvTable.envDestroy s k.table
  .ok (({ k with mem := mem, inPageFault := k.inPageFault && r.2.isNone } : Kernel).setTable r.1, r.2)

def slotOf (space : ℕ) : Slot := ⟨(space - 1) % 1024, Nat.mod_lt _ EnvTable.nenv_pos⟩

/-- Where the source ran out of memory, its environment was destroyed with its space. -/
def lose (r : RegionCall) (live : List ℕ) (k : Kernel) : Kernel :=
  match r with
  | .map _ _ (some sspace) _ _ _ =>
    if sspace ∈ live ∧ sspace ∉ k.mem.live then
      ({ k with inPageFault := false } : Kernel).setTable (EnvTable.envDestroy (slotOf sspace) k.table).1
    else k
  | _ => k

/-- `sys_alloc_region`, `sys_map_region` and `sys_unmap_region` -/
def sysRegion (c : Slot) (call : MemCall) (k : Kernel) : Answer :=
  match call.request k.table with
  | .error (.code e) => .ok (k, some e)
  | .error _ => .error (.table .nullPointer)
  | .ok r =>
    match r.exec k.setting k.mem with
    | .ok (mem, res) => .ok (lose r k.mem.live { k with mem := mem }, some (if res = .ok then 0 else -1))
    | .error (.gone mem) =>
      .ok (({ k with mem := mem } : Kernel).setTable (EnvTable.envDestroy c k.table).1, none)
    | .error e => .error (.mem e)

def sendPage (envid : EnvId) (srcva : UInt64) (perm : UInt32) (k : Kernel) : Except Stop (Mem × Mapping) :=
  match sysIpcTrySend k.table envid srcva perm with
  | .error _ => .ok (k.mem, .failed)
  | .ok r =>
    match r.exec k.setting k.mem with
    | .ok (mem, res) => .ok (mem, if res = .ok then .done else .failed)
    | .error (.gone mem) => .ok (mem, .destroyed)
    | .error e => .error (.mem e)

def ipcTrySend (c : Slot) (envid : EnvId) (value : UInt32) (srcva size : UInt64) (perm : UInt32) (k : Kernel) :
    Answer := do
  let x ← sendPage envid srcva perm k
  let r ← liftTable (EnvTable.sysIpcTrySend c envid value srcva size perm x.2 k.table)
  .ok (({ k with mem := x.1 } : Kernel).setTable r.1, r.2)

/-- The addresses there are, divided by the size of a page, and one more. -/
def checkRounds : ℕ := 2 ^ 52 + 1

/-- Whether `user_mem_check` returns zero -/
def userMemOk (root : VTree) (va len : UInt64) (perm : UInt32) : Option Bool := do
  let fin := va + len
  let x ← checkLoop root perm fin checkRounds (Jos.KernHeap.roundDown va)
  some (x.2 && !(decide (maxUserReadable < fin)))

def userMemAssert (s : Slot) (va len : UInt64) (perm : UInt32) (k : Kernel) : Answer :=
  match userMemOk (k.mem.root (spaceOf s)) va len (perm ||| protUser) with
  | none => .error .diverges
  | some true => .ok (k, some 0)
  | some false => envDestroy s k

def sysCputs (c : Slot) (s len : UInt64) (k : Kernel) : Answer :=
  userMemAssert c s len (protR ||| protUser) k

/-- `sizeof(struct Trapframe)` -/
def trapframeSize : UInt64 := 192

/-- What `sys_env_set_trapframe` makes of the registers it is given -/
def Trapframe.forUser (tf : Trapframe) : Trapframe :=
  { tf with
    cs := userText, ds := userData, es := userData, ss := userData
    rflags := (tf.rflags &&& 0xFFF) ||| flIf }

/-- `tf` is looked for in the memory of the environment, and read from that of the caller. -/
def sysEnvSetTrapframe (envid : EnvId) (tf : UInt64) (content : Option Trapframe) (k : Kernel) : Answer :=
  match envid2env k.table envid false with
  | .badEnv => .ok (k, some (-eBadEnv))
  | .found (some s) => do
    let r ← userMemAssert s tf trapframeSize (protUser ||| protR) k
    match r.2, content with
    | none, _ => .ok r
    | some _, none => .error .kernelFault
    | some _, some frame => .ok (r.1.setFrame s frame.forUser, some 0)
  | _ => .error (.table .nullPointer)

/-- `stray` is what the stores through the pointer lead to, and what is read through it, where `sys_exofork`
has not set it. -/
def sysExofork (c : Slot) (stray : Kernel → Kernel × ℤ) (k : Kernel) : Answer :=
  match EnvTable.envAlloc (k.table.envs c).id .user k.table with
  | .error _ => .ok ((stray k).1, some (stray k).2)
  | .ok (t, s) => do
    let mem ← liftMem (initAddressSpace (spaceOf s) k.mem)
    let id := (t.envs s).id
    let k := { k with machine := ⟨t.setStatus s .notRunnable, k.machine.handed ++ [id]⟩, mem := mem }
    let tf := k.frame c
    .ok ((k.setUpcall s 0).setFrame s { tf with regs := { tf.regs with rax := 0 } }, some id.toInt)

def sysEnvDestroy (envid : EnvId) (k : Kernel) : Answer :=
  match envid2env k.table envid true with
  | .badEnv => .ok (k, some (-eBadEnv))
  | .found (some s) => envDestroy s k
  | _ => .error (.table .nullPointer)

def sysEnvSetStatus (envid : EnvId) (status : ℤ) (k : Kernel) : Answer := do
  let r ← liftTable (EnvTable.sysEnvSetStatus envid status k.table)
  .ok (k.setTable r.1, r.2)

def sysEnvSetPgfaultUpcall (envid : EnvId) (func : UInt64) (k : Kernel) : Answer :=
  match envid2env k.table envid true with
  | .badEnv => .ok (k, some (-1))
  | .found (some s) => .ok (k.setUpcall s func, some 0)
  | _ => .error (.table .nullPointer)

/-- The register `rax` of an environment -/
def Kernel.setRax (k : Kernel) (s : Slot) (rax : UInt64) : Kernel :=
  k.setFrame s { k.frame s with regs := { (k.frame s).regs with rax := rax } }

def sysIpcRecv (c : Slot) (dstva maxsize : UInt64) (k : Kernel) : Answer :=
  let r := EnvTable.sysIpcRecv c dstva maxsize k.table
  .ok ((if r.2.isNone then k.setRax c 0 else k).setTable r.1, r.2)

inductive Call
  | cputs (s len : UInt64)
  | cgetc
  | getenvid
  | envDestroy (envid : EnvId)
  | region (call : MemCall)
  | regionRefs
  | exofork
  | envSetStatus (envid : EnvId) (status : ℤ)
  | envSetTrapframe (envid : EnvId) (tf : UInt64)
  | envSetPgfaultUpcall (envid : EnvId) (func : UInt64)
  | yield
  | ipcTrySend (envid : EnvId) (value : UInt32) (srcva size : UInt64) (perm : UInt32)
  | ipcRecv (dstva maxsize : UInt64)
  | gettime
  /-- there is no such call -/
  | unknown
  deriving DecidableEq, Repr

def eNoSys : ℤ := 9

def decode (regs : PushRegs) : Call :=
  let envid (a : UInt64) : EnvId := a.toUInt32.toBitVec
  let a1 := regs.rdx
  let a2 := regs.rcx
  let a3 := regs.rbx
  let a4 := regs.rdi
  let a5 := regs.rsi
  let a6 := regs.r8
  match regs.rax.toNat with
  | 0 => .cputs a1 a2
  | 1 => .cgetc
  | 2 => .getenvid
  | 3 => .envDestroy (envid a1)
  | 4 => .region (.allocRegion (envid a1) a2 a3 a4.toUInt32)
  | 5 => .region (.mapRegion (envid a1) a2 (envid a3) a4 a5 a6.toUInt32)
  | 6 => .region (.unmapRegion (envid a1) a2 a3)
  | 7 => .regionRefs
  | 8 => .exofork
  | 9 => .envSetStatus (envid a1) a2.toUInt32.toInt32.toInt
  | 10 => .envSetTrapframe (envid a1) a2
  | 11 => .envSetPgfaultUpcall (envid a1) a2
  | 12 => .yield
  | 13 => .ipcTrySend (envid a1) a2.toUInt32 a3 a4 a5.toUInt32
  | 14 => .ipcRecv a1 a2
  | 15 => .gettime
  | _ => .unknown

/-- What the kernel reads that is not modelled -/
structure World where
  /-- the address of a page fault -/
  cr2 : UInt64
  /-- what `cgetc`, `region_maxref` or `gettime` returns -/
  answer : ℤ
  /-- what the caller has at the address of a trap frame -/
  content : Option Trapframe
  stray : Kernel → Kernel × ℤ

def syscall (c : Slot) (call : Call) (w : World) (k : Kernel) : Answer :=
  match call with
  | .cputs s len => sysCputs c s len k
  | .cgetc => .ok (k, some w.answer)
  | .getenvid => .ok (k, some (k.table.envs c).id.toInt)
  | .envDestroy envid => sysEnvDestroy envid k
  | .region call => sysRegion c call k
  | .regionRefs => .ok (k, some w.answer)
  | .exofork => sysExofork c w.stray k
  | .envSetStatus envid status => sysEnvSetStatus envid status k
  | .envSetTrapframe envid tf => sysEnvSetTrapframe envid tf w.content k
  | .envSetPgfaultUpcall envid func => sysEnvSetPgfaultUpcall envid func k
  | .yield => .ok (k.setTable (EnvTable.schedYield k.table), none)
  | .ipcTrySend envid value srcva size perm => ipcTrySend c envid value srcva size perm k
  | .ipcRecv dstva maxsize => sysIpcRecv c dstva maxsize k
  | .gettime => .ok (k, some w.answer)
  | .unknown => .ok (k, some (-eNoSys))

def tBrkpt : UInt64 := 3
def tPgflt : UInt64 := 14
def tSyscall : UInt64 := 48
def irqOffset : UInt64 := 32
def irqTimer : UInt64 := 0
def irqKbd : UInt64 := 1
def irqSerial : UInt64 := 4
def irqSpurious : UInt64 := 7
def irqClock : UInt64 := 8

/-- `FEC_U` -/
def fecU : UInt64 := 4

def userExceptionStackTop : UInt64 := EnvTable.maxUserAddress

/-- `sizeof(struct UTrapframe)` -/
def utrapframeSize : UInt64 := 160

inductive Handling
  /-- a lazy page has been copied -/
  | resolved
  /-- the upcall is to run, with this stack pointer -/
  | redirected (rsp : UInt64)
  /-- the environment is to be destroyed -/
  | fatal
  /-- there was no memory, and the environment has lost its space -/
  | lost
  deriving DecidableEq, Repr

/-- What `force_alloc_page` returns for the current environment, if it does -/
def forced (m : Except Exit (Mem × Res)) : Except Stop (Mem × Option Res) :=
  match m with
  | .ok (mem, res) => .ok (mem, some res)
  | .error (.gone mem) => .ok (mem, none)
  | .error e => .error (.mem e)

def upcallRsp (rsp : UInt64) : UInt64 :=
  let top := if rsp < userExceptionStackTop ∧ rsp > userExceptionStackTop - 0x1000 then rsp - 8 else userExceptionStackTop
  top - utrapframeSize

/-- `page_fault_handler`, up to its changes to the environment -/
def pageFaultHandler (c : Slot) (tf : Trapframe) (k : Kernel) : Except Stop (Kernel × Handling) :=
  if tf.err &&& fecU = 0 then .error .kernelFault
  else if k.upcall c = 0 then
    -- it is destroyed in any case, by `user_mem_assert` or after it
    match userMemOk (k.mem.root (spaceOf c)) tf.rsp utrapframeSize (protW ||| protUser) with
    | none => .error .diverges
    | some _ => .ok (k, .fatal)
  else do
    let x ← forced (forceAllocPage k.setting (spaceOf c) (userExceptionStackTop - 0x1000).toNat 0x1000 k.mem)
    let k := { k with mem := x.1 }
    match x.2 with
    | none => .ok (k, .lost)
    | some _ =>
      match userMemOk (k.mem.root (spaceOf c)) (upcallRsp tf.rsp) utrapframeSize (protW ||| protUser) with
      | none => .error .diverges
      | some true => .ok (k, .redirected (upcallRsp tf.rsp))
      | some false => .ok (k, .fatal)

/-- The page is made the environment's own, or else the registers are saved and the handler is
called. -/
def handleFault (c : Slot) (tf : Trapframe) (va : UInt64) (k : Kernel) : Except Stop (Kernel × Handling) := do
  let x ← forced (forceAllocPage k.setting (spaceOf c) va.toNat maxAllocationClass k.mem)
  let k := { k with mem := x.1 }
  match x.2 with
  | none => .ok (k, .lost)
  | some .ok => .ok (k, .resolved)
  | some _ => pageFaultHandler c tf (k.setFrame c tf)

/-- `trap` for a page fault -/
def pageFault (c : Slot) (tf : Trapframe) (va : UInt64) (k : Kernel) : Except Stop Kernel :=
  if k.inPageFault then .error .recursiveFault
  else do
    let x ← handleFault c tf va { k with inPageFault := true }
    match x.2 with
    | .resolved => .ok { x.1 with inPageFault := false }
    | .redirected rsp =>
      let k := x.1.setFrame c { tf with rsp := rsp, rip := x.1.upcall c }
      -- it is the first environment whose registers are looked at
      let k := if (k.frame EnvTable.firstSlot).trapno = tPgflt then { k with inPageFault := false } else k
      .ok (k.setTable (EnvTable.envRun c k.table))
    | .fatal => Prod.fst <$> envDestroy c x.1
    | .lost => .ok (x.1.setTable (EnvTable.envDestroy c x.1.table).1)

/-- The end of `trap_dispatch` for a system call, and of `trap` -/
def trapEnd (c : Slot) (r : Kernel × Option ℤ) : Kernel :=
  match r.2 with
  | none => r.1
  | some res =>
    let k := r.1.setRax c (UInt64.ofInt res)
    k.setTable (trapReturn k.table)

/-- `trap_dispatch` and the end of `trap`, after the registers have been saved -/
def trapDispatch (c : Slot) (tf : Trapframe) (w : World) (k : Kernel) : Except Stop Kernel :=
  if tf.trapno = tSyscall then trapEnd c <$> syscall c (decode tf.regs) w k
  else if tf.trapno = tBrkpt ∨ tf.trapno = irqOffset + irqSpurious then .ok (k.setTable (trapReturn k.table))
  else if tf.trapno = irqOffset + irqTimer ∨ tf.trapno = irqOffset + irqClock ∨ tf.trapno = irqOffset + irqKbd ∨
      tf.trapno = irqOffset + irqSerial then .ok (k.setTable (EnvTable.schedYield k.table))
  else if tf.cs &&& 3 = 0 then .error .kernelFault
  else Prod.fst <$> envDestroy c k

/-- `trap`, for the environment that runs, with its registers -/
def trap (tf : Trapframe) (w : World) (k : Kernel) : Except Stop Kernel :=
  match k.table.curenv with
  | none => .error (.table .noEnv)
  | some c =>
    if (k.table.envs c).status ≠ .running then .error (.table .noEnv)
    else if tf.trapno = tPgflt then pageFault c tf w.cr2 k
    else trapDispatch c tf w (k.setFrame c tf)

def clearFrame : Trapframe := ⟨⟨0, 0, 0, 0, 0, 0, 0, 0, 0, 0, 0, 0, 0, 0, 0⟩, 0, 0, 0, 0, 0, 0, 0, 0, 0⟩

/-- The registers that `env_alloc` sets -/
def firstFrame (type : EnvType) : Trapframe :=
  { clearFrame with
    ds := userData, es := userData, ss := userData, cs := userText, rsp := userStackTop
    rflags := if type = .fs then flIf ||| flIopl3 else flIf }

def envAlloc (parentId : EnvId) (type : EnvType) (k : Kernel) : Except Stop Kernel :=
  match EnvTable.envAlloc parentId type k.table with
  | .error _ => .ok k
  | .ok (t, s) => do
    let mem ← liftMem (initAddressSpace (spaceOf s) k.mem)
    let k := { k with machine := ⟨t, k.machine.handed ++ [(t.envs s).id]⟩, mem := mem }
    .ok ((k.setUpcall s 0).setFrame s (firstFrame type))

inductive Step
  /-- what happens to the memory before there are environments, or for the kernel's own use -/
  | attach (x : Region)
  | initKspace
  | switchOn
  | mapPhysical (dst pa cls : ℕ) (flags : UInt32)
  /-- `env_create`, and the pages that `load_icode` maps for it: only before the first environment
  runs -/
  | envAlloc (parentId : EnvId) (type : EnvType)
  | load (s : Slot) (dst size : ℕ) (flags : UInt32)
  | envRun (s : Slot)
  | schedYield
  /-- a system call, a page fault, an interrupt or another exception -/
  | trap (tf : Trapframe) (w : World)

def actFor (c : Slot) (m : Except Exit (Mem × Res)) (k : Kernel) : Except Stop Kernel :=
  match m with
  | .ok (mem, _) => .ok { k with mem := mem }
  | .error (.gone mem) => .ok (({ k with mem := mem } : Kernel).setTable (EnvTable.envDestroy c k.table).1)
  | .error e => .error (.mem e)

def memStep (k : Kernel) (i : MemStep) : Except Stop Kernel :=
  match Jos.PmapModel.memStep k.mem i with
  | .ok mem => .ok { k with mem := mem }
  | .error e => .error (.mem e)

def atStart (k : Kernel) (m : Except Stop Kernel) : Except Stop Kernel :=
  if k.table.curenv.isSome then .error (.table .noEnv) else m

def step (k : Kernel) : Step → Except Stop Kernel
  | .attach x => memStep k (.attach x)
  | .initKspace => memStep k .initKspace
  | .switchOn => memStep k .switchOn
  | .mapPhysical dst pa cls flags => memStep k (.mapPhysical dst pa cls flags)
  | .envAlloc parentId type => atStart k (envAlloc parentId type k)
  | .load s dst size flags =>
    atStart k
      (if (k.table.envs s).status = .free then .error (.table .noEnv)
      else actFor s (mapRegion ⟨k.zeroPage, k.onePage, none⟩ (spaceOf s) dst none 0 size flags k.mem) k)
  | .envRun s =>
    atStart k
      (if (k.table.envs s).status = .runnable then .ok (k.setTable (EnvTable.envRun s k.table))
      else .error (.table .noEnv))
  | .schedYield => atStart k (.ok (k.setTable (EnvTable.schedYield k.table)))
  | .trap tf w => trap tf w k

/-- The kernel after `init_allocator` and `env_init` -/
def boot (kernelEnd : ℕ) (has1gbPages nxSupported : Bool) (zeroPage onePage : Path) : Kernel where
  machine := EnvTable.boot
  mem := bootMem kernelEnd has1gbPages nxSupported
  frame := fun _ => clearFrame
  upcall := fun _ => 0
  zeroPage := zeroPage
  onePage := onePage
  inPageFault := false

end Jos.SysCall
