import Jos.Runs
import Mathlib.Data.Int.Notation
import Mathlib.Data.UInt
import Mathlib.Logic.Function.Basic

/-!
The table of environments: its slots, the list of the free ones, and the calls that change the
status of an environment.

A system call is made by the environment that runs, and ends as `trap` does: the environment goes
on, or another one is scheduled. What `map_region` returns is part of the call.
-/

namespace Jos.EnvTable

/-- The number of an environment in `envs`, of `NENV` -/
abbrev Slot := Fin 1024

lemma one_lt_nenv : 1 < 1024 := by decide

lemma nenv_pos : 0 < 1024 := Nat.zero_lt_of_lt one_lt_nenv

/-- `envs[0]` -/
def firstSlot : Slot := ⟨0, nenv_pos⟩

/-- `envs[1]` -/
def secondSlot : Slot := ⟨1, one_lt_nenv⟩

/-- `envid_t` -/
abbrev EnvId := BitVec 32

inductive Status
  | free
  | dying
  | runnable
  | running
  | notRunnable
  deriving DecidableEq, Repr

inductive EnvType
  | idle
  | kernel
  | user
  | fs
  deriving DecidableEq, Repr

structure Env where
  id : EnvId
  parentId : EnvId
  type : EnvType
  status : Status
  runs : UInt32
  link : Option Slot
  ipcRecving : Bool
  ipcDstva : UInt64
  ipcMaxsz : UInt64
  ipcValue : UInt32
  ipcFrom : EnvId
  ipcPerm : UInt32
  deriving DecidableEq, Repr

structure Table where
  envs : Slot → Env
  freeList : Option Slot
  curenv : Option Slot

namespace Table

def modify (σ : Table) (s : Slot) (f : Env → Env) : Table :=
  { σ with envs := Function.update σ.envs s (f (σ.envs s)) }

def setStatus (σ : Table) (s : Slot) (status : Status) : Table :=
  σ.modify s ({ · with status := status })

end Table

/-- `ENVX` -/
def envx (id : EnvId) : Slot := Fin.ofNat 1024 (id &&& 0x3ff#32).toNat

/-- The id that `env_alloc` gives an environment, from the last one in its slot -/
def nextId (id : EnvId) (s : Slot) : EnvId :=
  let generation := (id + 0x1000#32) &&& ~~~0x3ff#32
  let generation := if generation.toInt ≤ 0 then 0x1000#32 else generation
  generation ||| BitVec.ofNat 32 s

/-- What `envid2env` stores and returns. The last case is the null pointer read. -/
inductive Lookup
  | found (env : Option Slot)
  | badEnv
  | fault
  deriving DecidableEq, Repr

def envid2env (σ : Table) (id : EnvId) (needCheckPerm : Bool) : Lookup :=
  if id = 0 then .found σ.curenv
  else
    let e := envx id
    if (σ.envs e).status = .free ∨ (σ.envs e).id ≠ id then .badEnv
    else if !needCheckPerm then .found (some e)
    else
      match σ.curenv with
      | none => .fault
      | some c =>
        if e ≠ c ∧ (σ.envs e).parentId ≠ (σ.envs c).id then .badEnv else .found (some e)

/-- `env_init`: the slots are on the list in their order. -/
def envInit : Table where
  envs s :=
    { id := 0, parentId := 0, type := .idle, status := .free, runs := 0
      link := if h : s.val + 1 < 1024 then some ⟨s.val + 1, h⟩ else none
      ipcRecving := false, ipcDstva := 0, ipcMaxsz := 0, ipcValue := 0, ipcFrom := 0, ipcPerm := 0 }
  freeList := some 0
  curenv := none

def eBadEnv : ℤ := 2
def eInval : ℤ := 3
def eNoFreeEnv : ℤ := 5
def eIpcNotRecv : ℤ := 11

/-- `init_address_space` always returns zero. -/
def envAlloc (parentId : EnvId) (type : EnvType) (σ : Table) : Except ℤ (Table × Slot) :=
  match σ.freeList with
  | none => .error (-eNoFreeEnv)
  | some s =>
    let σ' := σ.modify s fun e =>
      { e with
        id := nextId e.id s, parentId := parentId, type := type, status := .runnable, runs := 0
        ipcRecving := false }
    .ok ({ σ' with freeList := (σ.envs s).link }, s)

def envFree (s : Slot) (σ : Table) : Table :=
  { σ.modify s ({ · with status := .free, link := σ.freeList }) with freeList := some s }

/-- The end of `env_run` -/
def switchTo (s : Slot) (σ : Table) : Table :=
  { σ.modify s fun e => { e with status := .running, runs := e.runs + 1 } with curenv := some s }

/-- What `env_run` does to the environment that ran -/
def leave (σ : Table) : Table :=
  match σ.curenv with
  | none => σ
  | some c =>
    match (σ.envs c).status with
    | .running => σ.setStatus c .runnable
    | .dying => envFree c σ
    | _ => σ

/-- What `sched_yield` runs: the first runnable environment from the current one on, or else the current one
if it is running. -/
def pick (σ : Table) : Option Slot :=
  let start : Slot := match σ.curenv with
    | some c => envx (σ.envs c).id
    | none => 0
  let order := (List.finRange 1024).drop start ++ (List.finRange 1024).take start
  (order.find? fun s => (σ.envs s).status = .runnable).or
    (if (σ.envs start).status = .running then some start else none)

/-- `sched_halt`: without an environment that could run, the monitor is entered for good. -/
def schedHalt (σ : Table) : Table :=
  if ∀ s, (σ.envs s).status ≠ .runnable ∧ (σ.envs s).status ≠ .running then σ
  else { σ with curenv := none }

/-- `sched_yield`, with what it does to the environment it picks -/
def schedYieldWith (run : Slot → Table → Table) (σ : Table) : Table :=
  match pick σ with
  | some s => run s σ
  | none => schedHalt σ

def envRun (s : Slot) (σ : Table) : Table :=
  -- a dying environment is freed here, and then is not one to run: the scheduler is asked, and
  -- its `env_run` finds a current environment that is free
  if ∃ c ∈ σ.curenv, (σ.envs c).status = .dying ∧ c = s then
    schedYieldWith (fun s' σ' => switchTo s' (leave σ')) (leave σ)
  else switchTo s (leave σ)

def schedYield (σ : Table) : Table := schedYieldWith envRun σ

abbrev Result := Table × Option ℤ

def envDestroy (s : Slot) (σ : Table) : Result :=
  let σ' := envFree s (σ.setStatus s .dying)
  if σ'.curenv = some s then (schedYield σ', none) else (σ', some 0)

/-- What becomes of the `map_region` of a call. Where a page is copied and memory runs out,
`force_alloc_page` destroys the sender. -/
inductive Mapping
  | done
  | failed
  | destroyed
  deriving DecidableEq, Repr

/-- What lies on the stack where a local variable has not been set, taken for a pointer to an
environment -/
inductive Stale
  /-- a pointer to an environment -/
  | env (s : Slot)
  /-- a pointer to twelve bytes before one: what is taken for `env_status` is its `env_id` -/
  | before (s : Slot)
  /-- no address that can be written to -/
  | unmapped
  deriving DecidableEq, Repr

inductive Call
  | exofork (stale : Stale)
  | envSetStatus (envid : EnvId) (status : ℤ)
  | ipcTrySend (envid : EnvId) (value : UInt32) (srcva size : UInt64) (perm : UInt32)
      (mapping : Mapping)
  | ipcRecv (dstva maxsize : UInt64)
  | envDestroy (envid : EnvId)
  | yield
  deriving DecidableEq, Repr

inductive Fault
  | wildPointer
  | nullPointer
  /-- not a call that the kernel makes: the environment is free, or none runs -/
  | noEnv
  deriving DecidableEq, Repr

def maxUserAddress : UInt64 := 0x8000000000

def pageOffset (a : UInt64) : UInt64 := a &&& 0xfff

/-- `sys_exofork` does not look at what `env_alloc` returns. -/
def sysExofork (c : Slot) (stale : Stale) (σ : Table) : Except Fault (Result × List EnvId) :=
  match envAlloc (σ.envs c).id .user σ with
  | .ok (σ', s) =>
    let σ' := σ'.setStatus s .notRunnable
    .ok ((σ', some (σ'.envs s).id.toInt), [(σ'.envs s).id])
  | .error _ =>
    match stale with
    | .env s => .ok ((σ.setStatus s .notRunnable, some (σ.envs s).id.toInt), [])
    -- `ENV_NOT_RUNNABLE` is written, and the upper half of `env_link` returned
    | .before s => .ok ((σ.modify s ({ · with id := 4 }), some 0), [])
    | .unmapped => .error .wildPointer

def sysEnvSetStatus (envid : EnvId) (status : ℤ) (σ : Table) : Except Fault Result :=
  match envid2env σ envid true with
  | .badEnv => .ok (σ, some (-1))
  | .found (some s) =>
    if status = 4 then .ok (σ.setStatus s .notRunnable, some 0)
    else if status = 2 then .ok (σ.setStatus s .runnable, some 0)
    else .ok (σ, some (-eInval))
  | _ => .error .nullPointer

def deliver (c t : Slot) (value perm : UInt32) (maxsz : UInt64) (σ : Table) : Result :=
  (σ.modify t fun e =>
    { e with
      ipcMaxsz := maxsz, ipcPerm := perm, ipcRecving := false, ipcFrom := (σ.envs c).id
      ipcValue := value, status := .runnable }, some 0)

def sysIpcTrySend (c : Slot) (envid : EnvId) (value : UInt32) (srcva size : UInt64)
    (perm : UInt32) (mapping : Mapping) (σ : Table) : Except Fault Result :=
  match envid2env σ envid false with
  | .badEnv => .ok (σ, some (-1))
  | .found (some t) =>
    if !(σ.envs t).ipcRecving then .ok (σ, some (-eIpcNotRecv))
    else if srcva < maxUserAddress ∧ (σ.envs t).ipcDstva < maxUserAddress then
      if pageOffset srcva ≠ 0 ∨ pageOffset (σ.envs t).ipcDstva ≠ 0 then .ok (σ, some (-eInval))
      else
        match mapping with
        | .failed => .ok (σ, some (-1))
        | .destroyed => .ok (envDestroy c σ)
        | .done => .ok (deliver c t value perm (min size (σ.envs t).ipcMaxsz) σ)
    else .ok (deliver c t value 0 (σ.envs t).ipcMaxsz σ)
  | _ => .error .nullPointer

def sysIpcRecv (c : Slot) (dstva maxsize : UInt64) (σ : Table) : Result :=
  if dstva < maxUserAddress ∧ pageOffset dstva ≠ 0 then (σ, some (-eInval))
  else if dstva < maxUserAddress ∧ maxsize = 0 then (σ, some (-eInval))
  else if pageOffset maxsize ≠ 0 then (σ, some (-eInval))
  else
    let σ' := σ.modify c fun e =>
      { e with
        ipcRecving := true, status := .notRunnable
        ipcDstva := if dstva < maxUserAddress then dstva else e.ipcDstva
        ipcMaxsz := if dstva < maxUserAddress then maxsize else e.ipcMaxsz }
    (schedYield σ', none)

def sysEnvDestroy (envid : EnvId) (σ : Table) : Except Fault Result :=
  match envid2env σ envid true with
  | .badEnv => .ok (σ, some (-eBadEnv))
  | .found (some s) => .ok (envDestroy s σ)
  | _ => .error .nullPointer

def syscall (c : Slot) (call : Call) (σ : Table) : Except Fault (Result × List EnvId) :=
  match call with
  | .exofork stale => sysExofork c stale σ
  | .envSetStatus envid status => (·, []) <$> sysEnvSetStatus envid status σ
  | .ipcTrySend envid value srcva size perm mapping =>
    (·, []) <$> sysIpcTrySend c envid value srcva size perm mapping σ
  | .ipcRecv dstva maxsize => .ok (sysIpcRecv c dstva maxsize σ, [])
  | .envDestroy envid => (·, []) <$> sysEnvDestroy envid σ
  | .yield => .ok ((schedYield σ, none), [])

/-- The end of `trap` -/
def trapReturn (σ : Table) : Table :=
  match σ.curenv with
  | some c => if (σ.envs c).status = .running then envRun c σ else schedYield σ
  | none => schedYield σ

structure Machine where
  table : Table
  handed : List EnvId

def boot : Machine := ⟨envInit, []⟩

inductive Step
  | envAlloc (parentId : EnvId) (type : EnvType)
  | envFree (s : Slot)
  | envDestroy (s : Slot)
  | envRun (s : Slot)
  | schedYield
  | syscall (call : Call)
  deriving DecidableEq, Repr

def Machine.withEnv (m : Machine) (s : Slot) (f : Table → Table) : Except Fault Machine :=
  if (m.table.envs s).status = .free then .error .noEnv else .ok { m with table := f m.table }

/-- A system call of the environment that runs, up to the end of `trap` -/
def Machine.trap (m : Machine) (call : Call) : Except Fault Machine :=
  match m.table.curenv with
  | none => .error .noEnv
  | some c =>
    if (m.table.envs c).status ≠ .running then .error .noEnv
    else do
      let r ← Jos.EnvTable.syscall c call m.table
      .ok ⟨if r.1.2.isSome then trapReturn r.1.1 else r.1.1, m.handed ++ r.2⟩

def step (m : Machine) : Step → Except Fault Machine
  | .envAlloc parentId type =>
    match Jos.EnvTable.envAlloc parentId type m.table with
    | .error _ => .ok m
    | .ok (σ, s) => .ok ⟨σ, m.handed ++ [(σ.envs s).id]⟩
  | .envFree s => m.withEnv s (Jos.EnvTable.envFree s)
  | .envDestroy s => m.withEnv s fun σ => (Jos.EnvTable.envDestroy s σ).1
  | .envRun s => m.withEnv s (Jos.EnvTable.envRun s)
  | .schedYield => .ok { m with table := Jos.EnvTable.schedYield m.table }
  | .syscall call => m.trap call

end Jos.EnvTable
