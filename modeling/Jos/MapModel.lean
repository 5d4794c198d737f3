import Jos.EnvTable
import Jos.TableModel
import Jos.VirtTree

/-!
Mapping regions: the calls above `map_page` and `unmap_page` in `pmap.c`, and the system calls that
lead to them.

The contents of the pages are not modelled here.
-/

namespace Jos.PmapModel

open Jos.Dyadic

/-- The functions that check something, above `map_page`. -/
inductive MapSite
  | allocCompositePage
  | doMapPage
  | doMapSubtree
  | doMapRegionOnePage
  | mapRegion
  deriving DecidableEq, Repr

inductive Exit
  | fail (f : Failure)
  | assertion (site : MapSite)
  /-- The environment that made the call is destroyed, and another one is run. -/
  | gone (σ : Mem)
  /-- The call goes on for ever. -/
  | diverges

def check (site : MapSite) (p : Prop) [Decidable p] : Except Exit Unit :=
  if p then .ok () else .error (.assertion site)

def lift {α : Type} (m : Except Failure α) : Except Exit α :=
  match m with
  | .ok a => .ok a
  | .error f => .error (.fail f)

/-- What stays the same during a call: the filler pages, and the space of the current environment -/
structure Setting where
  zeroPage : Path
  onePage : Path
  curenv : Option ℕ
  deriving DecidableEq, Repr

def maxUserAddress : ℕ := 0x8000000000

def maxAllocationClass : ℕ := 9

def mappingNode : UInt32 := 0x100000

/-- `alloc_composite_page`; there is no page of the class, if `page` is `none`. -/
def composePage (space addr : ℕ) (flags : UInt32) (σ : Mem) (page : Option Path)
    (smaller : Mem → Except Exit (Mem × Res)) : Except Exit (Mem × Res) :=
  match page with
  | some p => lift (mapPage space addr p flags σ)
  | none => smaller σ

def allocCompositePage (space : ℕ) (flags : UInt32) : ℕ → ℕ → Mem → Except Exit (Mem × Res)
  | 0, addr, σ => do
    check .allocCompositePage (addr % classSize 0 = 0)
    let r ← lift (allocPage false σ.phys 0)
    composePage space addr flags { σ with phys := r.1 } r.2 fun σ => .ok (σ, .noMem)
  | cls + 1, addr, σ => do
    check .allocCompositePage (addr % classSize (cls + 1) = 0)
    let r ← lift (allocPage false σ.phys (cls + 1))
    composePage space addr flags { σ with phys := r.1 } r.2 fun σ => do
      let r ← allocCompositePage space flags cls addr σ
      if r.2 ≠ .ok then .ok r
      else do
        let r ← allocCompositePage space flags cls (addr + classSize cls) r.1
        if r.2 ≠ .ok then do
          let σ ← lift (unmapPage space addr cls r.1)
          .ok (σ, r.2)
        else .ok r

/-- `PAGE_IS_UNIQ` -/
def Phys.IsUniq (s : Phys) (p : Path) : Prop := (∃ n, s.node p = some n ∧ n.refc = 1) ∧ s.Leaf p

instance (s : Phys) (p : Path) : Decidable (s.IsUniq p) :=
  match h : s.node p with
  | some n => decidable_of_iff (n.refc = 1 ∧ s.Leaf p) (by simp [Phys.IsUniq, h])
  | none => isFalse (by simp [Phys.IsUniq, h])

/-- The lazy mapping of `phy` gets memory of its own. -/
def unshare (space va : ℕ) (phy : Path) (prot : UInt32) (σ : Mem) : Except Exit (Mem × Res) := do
  let n ← lift (σ.phys.deref phy)
  let va := va - va % classSize n.cls
  if σ.phys.IsUniq phy then lift (mapPage space va phy ((mappingNode ||| prot) &&& ~~~protLazy) σ)
  else do
    let r ← allocCompositePage space (prot &&& protAll &&& ~~~protLazy) n.cls va
      { σ with phys := pageRef phy σ.phys }
    -- `memcpy_page`, if there is memory
    let s ← lift (pageUnref phy r.1.phys)
    .ok ({ r.1 with phys := s }, r.2)

/-- The mapping that holds the address, if it is a lazy one, is copied. -/
def forceNode (space va : ℕ) (node : VTree) (σ : Mem) : Except Exit (Mem × Res) :=
  match node with
  | .node (.mapping prot) phy _ _ =>
    if ¬Sets prot protLazy then .ok (σ, .fault)
    else
      match phy with
      | none => .error (.fail .wildPointer)
      | some phy => unshare space va phy prot σ
  | _ => .ok (σ, .fault)

/-- The end of `force_alloc_page`: without memory the environment is destroyed. -/
def outOfMemory (C : Setting) (space : ℕ) (r : Mem × Res) : Except Exit (Mem × Res) :=
  if r.2 = .noMem then
    if space = kspace then .error (.fail .outOfMemory)
    else do
      let σ ← lift (releaseAddressSpace space r.1)
      if C.curenv = some space then .error (.gone σ) else .ok (σ, .noMem)
  else .ok r

/-- The space that `force_alloc_page` looks at -/
def forcedSpace (space va : ℕ) : ℕ := if va > maxUserAddress then kspace else space

def forceAllocPage (C : Setting) (space va maxclass : ℕ) (σ : Mem) : Except Exit (Mem × Res) := do
  let space := forcedSpace space va
  let x ← lift (pageLookupVirtual .split space va maxclass (σ.root space) σ.phys)
  let σ := σ.looked space x
  let y ← lift (pageLookupVirtual .preserve space va 0 (σ.root space) σ.phys)
  let r ← forceNode space va ((σ.root space).sub y.2.2) σ
  outOfMemory C space r

/-- `PROT_COMBINE` -/
def combine (oldflags flags : UInt32) : UInt32 :=
  if Sets flags protCombine then
    if Sets oldflags protShare then flags &&& oldflags else flags &&& (oldflags ||| protLazy)
  else flags

def protRwx : UInt32 := protR ||| protW ||| protX

def GainsRights (oldflags flags : UInt32) : Prop :=
  ¬Sets flags protLazy ∧ Sets (~~~oldflags &&& protRwx) flags
  deriving Decidable

/-- A lazy page that will be mapped otherwise is copied before: the page to map, or what is
returned -/
def ownPage (C : Setting) (dspace dst sspace src : ℕ) (phy : Path) (oldflags flags : UInt32) (σ : Mem) :
    Except Exit (Mem × Except Res Path) :=
  if ¬Sets flags protLazy ∧ Sets oldflags protLazy then do
    let n ← lift (σ.phys.deref phy)
    let r ← forceAllocPage C sspace src maxClass σ
    if r.2 ≠ .ok ∨ sspace = dspace ∧ src = dst then .ok (r.1, .error r.2)
    else do
      let y ← lift (pageLookupVirtual .preserve sspace src n.cls (r.1.root sspace) r.1.phys)
      -- `check_virtual_class`
      check .doMapPage (y.2.2.length + n.cls = maxClass)
      match (r.1.root sspace).sub y.2.2 with
      | .node _ (some phy) _ _ => .ok (r.1, .ok phy)
      | _ => .error (.assertion .doMapPage)
  else .ok (σ, .ok phy)

def keepShared (oldflags flags : UInt32) : UInt32 :=
  if Sets oldflags protShare ∧ Sets flags protLazy then (flags &&& ~~~protLazy) ||| protShare else flags

def NeedRemap (dspace dst sspace src : ℕ) (flags : UInt32) : Prop :=
  Sets flags protLazy ∧ (sspace ≠ dspace ∨ src ≠ dst)
  deriving Decidable

/-- The page is mapped in the destination, and where it is lazy there, in the source, too. -/
def mapOwned (dspace dst sspace src : ℕ) (phy : Path) (oldflags flags : UInt32) (σ : Mem) :
    Except Exit (Mem × Res) := do
  let r ← lift (mapPage dspace dst phy flags { σ with phys := pageRef phy σ.phys })
  let r ←
    (if r.2 = .ok ∧ NeedRemap dspace dst sspace src flags then
      lift (mapPage sspace src phy (oldflags ||| protLazy) r.1)
    else .ok r)
  let s ← lift (pageUnref phy r.1.phys)
  .ok ({ r.1 with phys := s }, r.2)

def doMapPage (C : Setting) (dspace dst sspace src : ℕ) (phy : Path) (oldflags flags : UInt32) (σ : Mem) :
    Except Exit (Mem × Res) := do
  let flags := combine oldflags flags
  check .doMapPage (LazyOrShare oldflags)
  check .doMapPage (LazyOrShare flags)
  if GainsRights oldflags flags then .ok (σ, .inval)
  else do
    let x ← ownPage C dspace dst sspace src phy oldflags flags σ
    match x.2 with
    | .error res => .ok (x.1, res)
    | .ok phy => mapOwned dspace dst sspace src phy oldflags (keepShared oldflags flags) x.1

/-- `do_map_subtree` for a node; `below` is the call for its children. -/
def passNode (C : Setting) (dspace dst sspace src : ℕ) (flags : UInt32) (node : VTree) (σ : Mem)
    (below : Except Exit (Mem × Res)) : Except Exit (Mem × Res) :=
  match node with
  | .null => .ok (σ, .ok)
  | .node st (some phy) _ _ =>
    match st with
    | .mapping prot => doMapPage C dspace dst sspace src phy (prot &&& protAll) flags σ
    | .intermediate => .error (.assertion .doMapSubtree)
  | .node st none _ _ => do
    check .doMapSubtree (st = .intermediate)
    below

/-- `do_map_subtree` for the node of the source, of the class, at the end of the way -/
def doMapSubtree (C : Setting) (dspace sspace : ℕ) (flags : UInt32) :
    ℕ → List Bool → ℕ → ℕ → Mem → Except Exit (Mem × Res)
  | 0, w, dst, src, σ => passNode C dspace dst sspace src flags ((σ.root sspace).sub w) σ (.ok (σ, .ok))
  | cls + 1, w, dst, src, σ =>
    passNode C dspace dst sspace src flags ((σ.root sspace).sub w) σ do
      let r ← doMapSubtree C dspace sspace flags cls (w ++ [false]) dst src σ
      if r.2 ≠ .ok then .ok r
      else
        doMapSubtree C dspace sspace flags cls (w ++ [true]) (dst + classSize cls) (src + classSize cls) r.1

/-- The filler page is mapped again and again, up to the end. -/
def mapFiller (space fin : ℕ) (page : Path) (flags : UInt32) (inc : ℕ) :
    ℕ → ℕ → Mem → Except Exit (Mem × Res)
  | 0, _, σ => .ok (σ, .ok)
  | n + 1, dst, σ =>
    if dst < fin then do
      let r ← lift (mapPage space dst page flags σ)
      if r.2 ≠ .ok then .ok r else mapFiller space fin page flags inc n (dst + inc) r.1
    else .ok (σ, .ok)

/-- `do_map_region_one_page` with `ALLOC_ZERO` or `ALLOC_ONE` -/
def allocRegionPage (C : Setting) (dspace dst cls : ℕ) (flags : UInt32) (σ : Mem) :
    Except Exit (Mem × Res) :=
  if Sets flags protShare then
    -- the page is filled afterwards
    allocCompositePage dspace (flags &&& protAll &&& ~~~(protLazy ||| protCombine)) cls dst σ
  else do
    let filler := if Sets flags allocOne then C.onePage else C.zeroPage
    let n ← lift (σ.phys.deref filler)
    let r ← lift (pageLookup ensureFreeDesc .partialNode σ.phys filler n.pa (min cls maxAllocationClass))
    let m ← lift (r.1.deref r.2)
    check .doMapRegionOnePage (classSize m.cls = classSize (min cls maxAllocationClass))
    mapFiller dspace (pageEnd dst cls) r.2 ((flags &&& protAll &&& ~~~protCombine) ||| protLazy)
      (classSize (min cls maxAllocationClass)) (2 ^ (cls - min cls maxAllocationClass)) dst
      { σ with phys := r.1 }

/-- `do_map_region_one_page` for the node that was looked up -/
def copyNode (C : Setting) (dspace dst sspace src cls : ℕ) (flags : UInt32) (w : List Bool) (node : VTree)
    (σ : Mem) : Except Exit (Mem × Res) :=
  match node with
  | .null => .error (.assertion .doMapRegionOnePage)
  | .node _ none _ _ => doMapSubtree C dspace sspace flags cls w dst src σ
  | .node st (some phy) _ _ => do
    let n ← lift (σ.phys.deref phy)
    if n.cls > cls then do
      let r ← lift (pageLookup ensureFreeDesc .partialNode σ.phys phy src cls)
      let prot := match st with
        | .mapping prot => prot &&& protAll
        | .intermediate => 0
      doMapPage C dspace dst sspace src r.2 prot flags { σ with phys := r.1 }
    else doMapSubtree C dspace sspace flags cls w dst src σ

/-- `do_map_region_one_page` for the pages of another space -/
def copyRegionPage (C : Setting) (dspace dst sspace src cls : ℕ) (flags : UInt32) (σ : Mem) :
    Except Exit (Mem × Res) := do
  let x ← lift (pageLookupVirtual .alloc sspace src cls (σ.root sspace) σ.phys)
  copyNode C dspace dst sspace src cls flags x.2.2 (x.2.1.sub x.2.2) (σ.looked sspace x)

/-- `ABSDIFF` -/
def absDiff (x y : ℕ) : ℕ := if x > y then x - y else y - x

/-- There is no source, if `sspace` is the null pointer. -/
def doMapRegionOnePage (C : Setting) (dspace dst : ℕ) (sspace : Option ℕ) (src cls : ℕ) (flags : UInt32)
    (σ : Mem) : Except Exit (Mem × Res) := do
  check .doMapRegionOnePage (sspace = some dspace ∧ src ≠ dst → classSize cls ≤ absDiff dst src)
  if Sets flags (allocOne ||| allocZero) then allocRegionPage C dspace dst cls flags σ
  else
    match sspace with
    | none => .error (.fail .wildPointer)
    | some sspace => copyRegionPage C dspace dst sspace src cls flags σ

structure Walk where
  mem : Mem
  res : Res
  cls : ℕ
  dst : ℕ

section Walk

variable (op : ℕ → ℕ → Mem → Except Exit (Mem × Res)) (fin : ℕ)

/-- The first loop over a region: larger and larger pages, `k` classes from `cls` on. -/
def walkUp : ℕ → ℕ → ℕ → Mem → Except Exit Walk
  | 0, cls, dst, σ => .ok ⟨σ, .ok, cls, dst⟩
  | k + 1, cls, dst, σ =>
    if pageEnd dst cls ≤ fin then
      if dst.testBit (cls + classBase) then do
        let r ← op cls dst σ
        if r.2 ≠ .ok then .ok ⟨r.1, r.2, cls, dst⟩ else walkUp k (cls + 1) (pageEnd dst cls) r.1
      else walkUp k (cls + 1) dst σ
    else .ok ⟨σ, .ok, cls, dst⟩

def walkAlong (cls : ℕ) : ℕ → ℕ → Mem → Except Exit Walk
  | 0, _, _ => .error .diverges
  | fuel + 1, dst, σ =>
    if pageEnd dst cls ≤ fin then do
      let r ← op cls dst σ
      if r.2 ≠ .ok then .ok ⟨r.1, r.2, cls, dst⟩ else walkAlong cls fuel (pageEnd dst cls) r.1
    else .ok ⟨σ, .ok, cls, dst⟩

def walkOnce (cls dst : ℕ) (σ : Mem) : Except Exit Walk :=
  if pageEnd dst cls ≤ fin then do
    let r ← op cls dst σ
    .ok ⟨r.1, r.2, cls, pageEnd dst cls⟩
  else .ok ⟨σ, .ok, cls, dst⟩

/-- The second loop: smaller and smaller pages, from the class before `cls` on. -/
def walkDown (along : ℕ → ℕ → Mem → Except Exit Walk) : ℕ → ℕ → Mem → Except Exit (Mem × Res)
  | 0, _, σ => .ok (σ, .ok)
  | cls + 1, dst, σ =>
    if dst < fin then do
      let w ← along cls dst σ
      if w.res ≠ .ok then .ok (w.mem, w.res) else walkDown along cls w.dst w.mem
    else .ok (σ, .ok)

end Walk

def walkFuel : ℕ := 2 ^ 52 + 1

/-- The loop of `addr_common_class` -/
def commonClass (addr1 addr2 : ℕ) : ℕ → ℕ → ℕ
  | 0, cls => cls
  | k + 1, cls =>
    if (addr1 ^^^ addr2).testBit (cls + classBase) then cls else commonClass addr1 addr2 k (cls + 1)

def addrCommonClass (addr1 addr2 : ℕ) : ℕ := commonClass addr1 addr2 maxClass 0

/-- The loops of `map_region`; the source moves along with the destination. -/
def mapLoops (C : Setting) (dspace dst : ℕ) (sspace : Option ℕ) (src size : ℕ) (flags : UInt32) (σ : Mem) :
    Except Exit (Mem × Res) := do
  let fin := (dst + size) % 2 ^ 64
  let op := fun cls at' σ =>
    doMapRegionOnePage C dspace at' sspace ((at' + (src + 2 ^ 64 - dst)) % 2 ^ 64) cls flags σ
  let w ← walkUp op fin (addrCommonClass src dst) 0 dst σ
  if w.res ≠ .ok then .ok (w.mem, w.res)
  else walkDown fin (walkAlong op fin · walkFuel) (w.cls + 1) w.dst w.mem

def mapRegion (C : Setting) (dspace dst : ℕ) (sspace : Option ℕ) (src size : ℕ) (flags : UInt32) (σ : Mem) :
    Except Exit (Mem × Res) :=
  if src % classSize 0 ≠ 0 ∨ sspace = none ∧ ¬Sets flags (allocZero ||| allocOne) then .ok (σ, .inval)
  else if dst % classSize 0 ≠ 0 then .ok (σ, .inval)
  else if size % classSize 0 ≠ 0 ∨ size = 0 then .ok (σ, .inval)
  else do
    check .mapRegion (sspace ≠ some dspace ∨ dst ≤ src ∨ size ≤ absDiff src dst)
    mapLoops C dspace dst sspace src size flags σ

/-- One round of the loops of `unmap_region` -/
def unmapOne (dspace cls dst : ℕ) (σ : Mem) : Except Exit (Mem × Res) := do
  let σ ← lift (unmapPage dspace dst cls σ)
  .ok (σ, .ok)

/-- The loops of `unmap_region` -/
def unmapLoops (dspace dst fin : ℕ) (σ : Mem) : Except Exit Mem := do
  let w ← walkUp (unmapOne dspace) fin maxClass 0 dst σ
  let r ← walkDown fin (walkOnce (unmapOne dspace) fin) (w.cls + 1) w.dst w.mem
  .ok r.1

def unmapRegion (dspace dst size : ℕ) (σ : Mem) : Except Exit Mem :=
  unmapLoops dspace (roundDown dst) (roundUp ((dst + size) % 2 ^ 64)) σ

open EnvTable (Table Slot EnvId envid2env eInval eIpcNotRecv pageOffset)

def spaceOf (s : Slot) : ℕ := s + 1

/-- What a system call passes on, after its own checks -/
inductive RegionCall
  | map (dspace dst : ℕ) (sspace : Option ℕ) (src size : ℕ) (flags : UInt32)
  | unmap (dspace dst size : ℕ)
  deriving DecidableEq, Repr

inductive Refusal
  | code (result : ℤ)
  /-- there is no current environment -/
  | nullPointer
  /-- a message without a page -/
  | noPage
  deriving DecidableEq, Repr

/-- `envid2env`, and what the calls do if it fails -/
def findEnv (t : Table) (envid : EnvId) (checkPerm : Bool) : Except Refusal Slot :=
  match envid2env t envid checkPerm with
  | .found (some s) => .ok s
  | .badEnv => .error (.code (-1))
  | _ => .error .nullPointer

def refuse (p : Prop) [Decidable p] (result : ℤ) : Except Refusal Unit :=
  if p then .error (.code result) else .ok ()

def sysAllocRegion (t : Table) (envid : EnvId) (addr size : UInt64) (perm : UInt32) :
    Except Refusal RegionCall := do
  let env ← findEnv t envid true
  refuse (pageOffset addr ≠ 0) (-eInval)
  refuse (addr.toNat > maxUserAddress) (-eInval)
  refuse (Sets perm (~~~protAll)) (-eInval)
  let perm := if Sets perm allocOne then perm &&& ~~~allocZero else (perm ||| allocZero) &&& ~~~allocOne
  .ok (.map (spaceOf env) addr.toNat none 0 size.toNat (perm ||| protUser ||| protLazy))

def sysMapRegion (t : Table) (srcenvid : EnvId) (srcva : UInt64) (dstenvid : EnvId) (dstva size : UInt64)
    (perm : UInt32) : Except Refusal RegionCall := do
  let srcenv ← findEnv t srcenvid true
  let dstenv ← findEnv t dstenvid true
  refuse (pageOffset srcva ≠ 0 ∨ pageOffset dstva ≠ 0) (-eInval)
  refuse (srcva.toNat ≥ maxUserAddress) (-eInval)
  refuse (dstva.toNat ≥ maxUserAddress) (-eInval)
  let perm := perm ||| protUser
  refuse (Sets perm (~~~protAll) ∨ Sets perm allocZero ∨ Sets perm allocOne) (-eInval)
  .ok (.map (spaceOf dstenv) dstva.toNat (some (spaceOf srcenv)) srcva.toNat size.toNat perm)

def sysUnmapRegion (t : Table) (envid : EnvId) (va size : UInt64) : Except Refusal RegionCall := do
  let env ← findEnv t envid true
  refuse (pageOffset va ≠ 0) (-eInval)
  refuse (va.toNat ≥ maxUserAddress) (-eInval)
  .ok (.unmap (spaceOf env) va.toNat size.toNat)

/-- `sys_ipc_try_send`, up to its `map_region` -/
def sysIpcTrySend (t : Table) (envid : EnvId) (srcva : UInt64) (perm : UInt32) : Except Refusal RegionCall := do
  let env ← findEnv t envid false
  refuse (¬(t.envs env).ipcRecving) (-eIpcNotRecv)
  let dstva := (t.envs env).ipcDstva
  if srcva.toNat < maxUserAddress ∧ dstva.toNat < maxUserAddress then do
    refuse (pageOffset srcva ≠ 0 ∨ pageOffset dstva ≠ 0) (-eInval)
    match t.curenv with
    | none => .error .nullPointer
    | some c =>
      .ok (.map (spaceOf env) dstva.toNat (some (spaceOf c)) srcva.toNat (classSize 0) (perm ||| protUser))
  else .error .noPage

/-- The memory-management calls with their arguments -/
inductive MemCall
  | allocRegion (envid : EnvId) (addr size : UInt64) (perm : UInt32)
  | mapRegion (srcenvid : EnvId) (srcva : UInt64) (dstenvid : EnvId) (dstva size : UInt64) (perm : UInt32)
  | unmapRegion (envid : EnvId) (va size : UInt64)
  | ipcTrySend (envid : EnvId) (srcva : UInt64) (perm : UInt32)
  deriving DecidableEq, Repr

def MemCall.request (t : Table) : MemCall → Except Refusal RegionCall
  | .allocRegion envid addr size perm => sysAllocRegion t envid addr size perm
  | .mapRegion srcenvid srcva dstenvid dstva size perm =>
    sysMapRegion t srcenvid srcva dstenvid dstva size perm
  | .unmapRegion envid va size => sysUnmapRegion t envid va size
  | .ipcTrySend envid srcva perm => sysIpcTrySend t envid srcva perm

def RegionCall.exec (C : Setting) (σ : Mem) : RegionCall → Except Exit (Mem × Res)
  | .map dspace dst sspace src size flags => mapRegion C dspace dst sspace src size flags σ
  | .unmap dspace dst size => do
    let σ ← unmapRegion dspace dst size σ
    .ok (σ, .ok)

def MemCall.exec (C : Setting) (t : Table) (σ : Mem) (call : MemCall) : Except Exit Mem :=
  match call.request t with
  | .error _ => .ok σ
  | .ok r => Prod.fst <$> r.exec C σ

end Jos.PmapModel
