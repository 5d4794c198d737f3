import Jos.VirtModel

/-!
The page tables of `pmap.c`, and the calls that keep them and the trees of the address spaces
together. An entry is named by its address divided by eight, so that the entries of the page `f` are
those from `512 * f` on; an entry of a table of level `l` stands for `512 ^ l` pages.
-/

namespace Jos.PmapModel

open Jos.Dyadic

structure Pte where
  frame : ℕ
  bits : UInt64
  deriving DecidableEq, Repr

def pteP : UInt64 := 0x001
def pteW : UInt64 := 0x002
def pteU : UInt64 := 0x004
def ptePwt : UInt64 := 0x008
def ptePcd : UInt64 := 0x010
def ptePs : UInt64 := 0x080
def pteShare : UInt64 := 0x400
def pteAvail : UInt64 := 0xE00
def pteNx : UInt64 := 0x8000000000000000

/-- `pte & bit` -/
def Pte.Has (e : Pte) (bit : UInt64) : Prop := e.bits &&& bit ≠ 0
  deriving Decidable

def protX : UInt32 := 0x1
def protW : UInt32 := 0x2
def protR : UInt32 := 0x4
def protUser : UInt32 := 0x20
def protShare : UInt32 := 0x40
def protLazy : UInt32 := 0x80
def protAll : UInt32 := 0xFFF
def allocWeak : UInt32 := 0x20000
def allocZero : UInt32 := 0x100000
def allocOne : UInt32 := 0x200000

/-- `flags & bit` -/
def Sets (flags bit : UInt32) : Prop := flags &&& bit ≠ 0
  deriving Decidable

lemma sets_comm (a b : UInt32) : Sets a b ↔ Sets b a := by
  unfold Sets
  rw [UInt32.and_comm]

/-- `!(flags & PROT_LAZY) | !(flags & PROT_SHARE)` -/
def LazyOrShare (flags : UInt32) : Prop := ¬Sets flags protLazy ∨ ¬Sets flags protShare
  deriving Decidable

def prot2pte (nxSupported : Bool) (flags : UInt32) : Except Failure UInt64 := do
  assert .prot2pte (LazyOrShare flags)
  .ok (pteP ||| (flags.toUInt64 &&& (pteAvail ||| ptePcd ||| ptePwt))
    ||| (if Sets flags protW ∧ ¬Sets flags protLazy then pteW else 0)
    ||| (if ¬Sets flags protX ∧ nxSupported then pteNx else 0)
    ||| (if Sets flags protShare then pteShare else 0)
    ||| (if Sets flags protUser then pteU else 0))

def kspace : ℕ := 0

structure Mem where
  phys : Phys
  /-- the memory of the page tables -/
  pte : ℕ → Pte
  /-- the spaces there are -/
  live : List ℕ
  /-- the page of the first table of a space -/
  pml4 : ℕ → ℕ
  root : ℕ → VTree
  has1gbPages : Bool
  nxSupported : Bool

namespace Mem

variable (σ : Mem)

def setPte (i : ℕ) (e : Pte) : Mem := { σ with pte := Function.update σ.pte i e }

/-- `memset` of a whole page -/
def clearTable (f : ℕ) : Mem := { σ with pte := fun i => if i / 512 = f then ⟨0, 0⟩ else σ.pte i }

def setRoot (space : ℕ) (t : VTree) : Mem := { σ with root := Function.update σ.root space t }

/-- `page_unref(page_lookup(NULL, pa, 0, PARTIAL_NODE, 0))` -/
def unrefTable (f : ℕ) : Except Failure Mem :=
  match findPage σ.phys (f * classSize 0) maxClass [] with
  | none => .ok σ
  | some p => do
    let s ← pageUnref p σ.phys
    .ok { σ with phys := s }

/-- `page_ref(page_lookup(NULL, pa, 0, PARTIAL_NODE, 0))` -/
def refTable (f : ℕ) : Mem :=
  match findPage σ.phys (f * classSize 0) maxClass [] with
  | none => σ
  | some p => { σ with phys := pageRef p σ.phys }

end Mem

/-- The space after `page_lookup_virtual` -/
def Mem.looked (σ : Mem) (space : ℕ) (y : Phys × VTree × List Bool) : Mem :=
  ({ σ with phys := y.1 } : Mem).setRoot space y.2.1

/-- `alloc_pt`, and whether there was memory -/
def allocPt (dst : ℕ) (σ : Mem) : Except Failure (Mem × Bool) :=
  if ¬(σ.pte dst).Has pteP ∨ (σ.pte dst).Has ptePs then do
    let r ← allocPage true σ.phys 0
    match r.2 with
    | none => .ok ({ σ with phys := r.1 }, false)
    | some p => do
      let n ← r.1.deref p
      assert .allocPt (n.refc = 0)
      let σ : Mem := { σ with phys := pageRef p r.1 }
      .ok ((σ.setPte dst ⟨n.addr, pteU ||| pteW ||| pteP⟩).clearTable n.addr, true)
  else .ok (σ, true)

def levelSize (l : ℕ) : ℕ := 512 ^ l

/-- One round of the loop of `remove_pt`; `below` is the call for the next level. -/
def removeEntry (below : ℕ → Mem → Except Failure Mem) (l i : ℕ) (σ : Mem) : Except Failure Mem :=
  if ¬(σ.pte i).Has pteP then .ok σ
  else do
    assert .removePt (¬(σ.pte i).Has ptePs ∨ l = 1 ∨ l = 2)
    let σ' ←
      (if ¬(σ.pte i).Has ptePs ∧ 0 < l then do
        let σ' ← below ((σ.pte i).frame * 512) σ
        σ'.unrefTable (σ.pte i).frame
      else .ok σ)
    .ok (σ'.setPte i ⟨0, 0⟩)

/-- `n` rounds, from the entry `i` on -/
def removeEntries (below : ℕ → Mem → Except Failure Mem) (l : ℕ) : ℕ → ℕ → Mem → Except Failure Mem
  | 0, _, σ => .ok σ
  | n + 1, i, σ => do
    let σ ← removeEntry below l i σ
    removeEntries below l n (i + 1) σ

/-- `remove_pt` for the level -/
def removePt : ℕ → ℕ → ℕ → ℕ → Mem → Except Failure Mem
  | 0, pt, i0, i1, σ => removeEntries (fun _ σ => .ok σ) 0 (i1 - i0) (pt + i0) σ
  | l + 1, pt, i0, i1, σ =>
    removeEntries (fun pt σ => removePt l pt 0 512 σ) (l + 1) (i1 - i0) (pt + i0) σ

/-- The loop of `alloc_fill_pt`: `n` rounds from the entry `i` on -/
def fillEntries (fill : ℕ → Pte → Mem → Except Failure (Mem × Bool)) (l : ℕ) :
    ℕ → ℕ → Pte → Mem → Except Failure (Mem × Bool)
  | 0, _, _, σ => .ok (σ, true)
  | n + 1, i, base, σ => do
    let r ← fill i base σ
    if r.2 then fillEntries fill l n (i + 1) { base with frame := base.frame + levelSize l } r.1
    else .ok r

def fillEntry (l i : ℕ) (base : Pte) (σ : Mem) : Except Failure (Mem × Bool) := do
  assert .allocFillPt (base.frame % levelSize l = 0)
  .ok (σ.setPte i base, true)

/-- `alloc_fill_pt` for the level, and whether there was memory. Where it calls itself, the entries behind
the one that is set are filled, not the table this points to. -/
def allocFillPt : ℕ → ℕ → Pte → ℕ → ℕ → Mem → Except Failure (Mem × Bool)
  | 0, dst, base, i0, i1, σ => do
    assert .allocFillPt (i0 ≠ i1)
    fillEntries (fillEntry 0) 0 (i1 - i0) (dst + i0) base σ
  | l + 1, dst, base, i0, i1, σ => do
    assert .allocFillPt (i0 ≠ i1)
    if 2 < l + 1 ∨ l + 1 = 2 ∧ ¬σ.has1gbPages then
      fillEntries (fun i base σ => do
          let r ← allocPt i σ
          if r.2 then allocFillPt l i base 0 512 r.1 else .ok r)
        (l + 1) (i1 - i0) (dst + i0) base σ
    else
      fillEntries (fillEntry (l + 1)) (l + 1) (i1 - i0) (dst + i0)
        { base with bits := base.bits ||| ptePs } σ

/-- An entry of the level `l + 1` that points to memory is replaced by a table of smaller ones. -/
def splitEntry (l i : ℕ) (σ : Mem) : Except Failure (Mem × Bool) := do
  let old := σ.pte i
  let r ← allocPt i σ
  if r.2 then
    allocFillPt l ((r.1.pte i).frame * 512) { old with bits := old.bits &&& ~~~ptePs } 0 512 r.1
  else .ok r

def nuserpml4 : ℕ := 1

def uvptIndex : ℕ := 2

def kernelSlots : List ℕ := (List.range' nuserpml4 (512 - nuserpml4)).filter (· ≠ uvptIndex)

/-- The loops of `propagate_one_pml4` that call `page_ref` -/
def refTables (space : ℕ) (σ : Mem) : Mem :=
  kernelSlots.foldl
    (fun σ i =>
      let e := σ.pte (σ.pml4 space * 512 + i)
      if e.Has pteP then σ.refTable e.frame else σ)
    σ

def copySlots (dst src : ℕ) (σ : Mem) : Mem :=
  { σ with
    pte := fun i =>
      if i / 512 = σ.pml4 dst ∧ i % 512 ∈ kernelSlots then σ.pte (σ.pml4 src * 512 + i % 512)
      else σ.pte i }

def propagateOnePml4 (dst src : ℕ) (σ : Mem) : Mem :=
  copySlots dst src (refTables dst (refTables src σ))

def propagatePml4 (space : ℕ) (σ : Mem) : Mem :=
  if σ.phys.currentSpace then
    (σ.live.filter (· ≠ space)).foldl (fun σ dst => propagateOnePml4 dst space σ) σ
  else σ

/-- `PT_INDEX`, `PD_INDEX`, `PDP_INDEX` and `PML4_INDEX` -/
def tableIndex (l addr : ℕ) : ℕ := addr / (classSize 0 * levelSize l) % 512

def pageEnd (addr cls : ℕ) : ℕ := (addr + classSize cls) % 2 ^ 64

def lastIndex (l addr cls : ℕ) : ℕ :=
  if tableIndex l addr > tableIndex l (pageEnd addr cls) then 512 else tableIndex l (pageEnd addr cls)

/-- What `unmap_page` does to a table of the level at `pt`, and below it -/
def unmapTables (addr cls : ℕ) : ℕ → ℕ → Mem → Except Failure Mem
  | 0, pt, σ => removePt 0 pt (tableIndex 0 addr) (lastIndex 0 addr cls) σ
  | l + 1, pt, σ =>
    if 9 * (l + 1) ≤ cls then removePt (l + 1) pt (tableIndex (l + 1) addr) (lastIndex (l + 1) addr cls) σ
    else
      let i := pt + tableIndex (l + 1) addr
      if ¬(σ.pte i).Has pteP then .ok σ
      else do
        let σ ←
          (if (σ.pte i).Has ptePs then do
            let r ← splitEntry l i σ
            assert .unmapPage (r.2 = true)
            .ok r.1
          else .ok σ)
        unmapTables addr cls l ((σ.pte i).frame * 512) σ

/-- The kernel has entries among those before this one: `i - 1 >= NUSERPML4` without a sign -/
def KernelBefore (i : ℕ) : Prop := i = 0 ∨ nuserpml4 ≤ i - 1
  deriving Decidable

def unmapPage (space addr cls : ℕ) (σ : Mem) : Except Failure Mem := do
  assert .unmapPage (addr % classSize cls = 0)
  let x ← unmapTree space addr cls (σ.root space) σ.phys
  let σ := ({ σ with phys := x.1 } : Mem).setRoot space x.2
  let pml4 := σ.pml4 space * 512
  let i0 := tableIndex 3 addr
  let i1 := tableIndex 3 (pageEnd addr cls)
  if 27 ≤ cls then do
    let σ ← removePt 3 pml4 i0 i1 σ
    .ok (if KernelBefore i1 then propagatePml4 space σ else σ)
  else if ¬(σ.pte (pml4 + i0)).Has pteP then .ok σ
  else unmapTables addr cls 2 ((σ.pte (pml4 + i0)).frame * 512) σ

/-- What `map_page` does to a table of the level at `pt`, and below it -/
def mapTables (base : Pte) (addr cls : ℕ) : ℕ → ℕ → Mem → Except Failure (Mem × Bool)
  | 0, pt, σ => allocFillPt 0 pt base (tableIndex 0 addr) (lastIndex 0 addr cls) σ
  | l + 1, pt, σ =>
    if 9 * (l + 1) ≤ cls then
      allocFillPt (l + 1) pt base (tableIndex (l + 1) addr) (lastIndex (l + 1) addr cls) σ
    else do
      let i := pt + tableIndex (l + 1) addr
      let r ←
        (if ¬(σ.pte i).Has pteP then allocPt i σ
        else if (σ.pte i).Has ptePs then splitEntry l i σ
        else .ok (σ, true))
      if r.2 then mapTables base addr cls l ((r.1.pte i).frame * 512) r.1 else .ok r

inductive Res
  | ok
  | inval
  | noMem
  | fault
  deriving DecidableEq, Repr

/-- The metadata of a mapping, which only `ALLOC_WEAK` goes without -/
def mapNode (space addr cls : ℕ) (page : Path) (flags : UInt32) (σ : Mem) : Except Failure Mem :=
  if Sets flags allocWeak then .ok σ
  else do
    let σ ← unmapPage space addr cls { σ with phys := pageRef page σ.phys }
    let x ← mapTree space addr cls page flags (σ.root space) σ.phys
    .ok (({ σ with phys := x.1 } : Mem).setRoot space x.2)

def mapEntries (space addr cls : ℕ) (base : Pte) (σ : Mem) : Except Failure (Mem × Bool) := do
  let pml4 := σ.pml4 space * 512
  let i0 := tableIndex 3 addr
  let i1 := tableIndex 3 (pageEnd addr cls)
  if 27 ≤ cls then do
    let r ← allocFillPt 3 pml4 base i0 i1 σ
    .ok (if KernelBefore i1 then propagatePml4 space r.1 else r.1, r.2)
  else do
    let r ←
      (if ¬(σ.pte (pml4 + i0)).Has pteP then do
        let r ← allocPt (pml4 + i0) σ
        .ok (if r.2 ∧ nuserpml4 ≤ i0 then propagatePml4 space r.1 else r.1, r.2)
      else .ok (σ, true))
    if r.2 then do
      assert .mapPage (¬(r.1.pte (pml4 + i0)).Has ptePs)
      mapTables base addr cls 2 ((r.1.pte (pml4 + i0)).frame * 512) r.1
    else .ok r

def mapPage (space addr : ℕ) (page : Path) (flags : UInt32) (σ : Mem) : Except Failure (Mem × Res) := do
  assert .mapPage (LazyOrShare flags)
  let n ← σ.phys.deref page
  assert .mapPage (addr % classSize n.cls = 0)
  let σ ← mapNode space addr n.cls page flags σ
  let bits ← prot2pte σ.nxSupported flags
  assert .mapPage (n.pa % classSize n.cls = 0)
  let r ← mapEntries space addr n.cls ⟨n.addr, bits⟩ σ
  .ok (r.1, if r.2 then .ok else .noMem)

/-- `init_kspace` -/
def initKspace (σ : Mem) : Except Failure Mem := do
  let r ← allocPage true σ.phys 0
  match r.2 with
  -- `page_ref` of the null pointer does nothing, but the page is used
  | none => .error .wildPointer
  | some p => do
    let n ← r.1.deref p
    let s ← allocDescriptor ensureFreeDesc (pageRef p r.1)
    let σ : Mem :=
      { σ with
        phys := s
        live := [kspace]
        pml4 := Function.update σ.pml4 kspace n.addr
        root := Function.update σ.root kspace (.fresh .intermediate) }
    .ok ((σ.clearTable n.addr).setPte (n.addr * 512 + uvptIndex) ⟨n.addr, pteP ||| pteU⟩)

/-- The fields of a new space, whose first table is at `pml4` -/
def Mem.newSpace (σ : Mem) (space pml4 : ℕ) (s : Phys) : Mem :=
  ({ σ with
    phys := s
    pml4 := Function.update σ.pml4 space pml4
    root := Function.update σ.root space (.fresh .intermediate) } : Mem).setPte (pml4 * 512 + uvptIndex)
      ⟨pml4, pteP ||| pteU⟩

def Mem.enlist (σ : Mem) (space : ℕ) : Mem := { σ with live := space :: σ.live }

/-- `init_address_space`, up to the end of `env_alloc`. Where there is no memory for the first table, the
page 0 is taken for it. -/
def initAddressSpace (space : ℕ) (σ : Mem) : Except Failure Mem := do
  let r ← allocPage true σ.phys 0
  let x ←
    (match r.2 with
    | none => .ok (({ σ with phys := r.1 } : Mem), 0)
    | some p => do
      let n ← r.1.deref p
      assert .allocPt (n.refc = 0)
      .ok (({ σ with phys := pageRef p r.1 } : Mem).clearTable n.addr, n.addr))
  let s ← allocDescriptor ensureFreeDesc x.1.phys
  .ok ((propagateOnePml4 space kspace (x.1.newSpace space x.2 s)).enlist space)

def unrefTables : List ℕ → Mem → Except Failure Mem
  | [], σ => .ok σ
  | i :: is, σ => do
    let e := σ.pte (σ.pml4 kspace * 512 + i)
    let σ ← (if e.Has pteP then σ.unrefTable e.frame else .ok σ)
    unrefTables is σ

/-- `release_address_space`, up to the end of `env_free` -/
def releaseAddressSpace (space : ℕ) (σ : Mem) : Except Failure Mem := do
  let σ ← unrefTables kernelSlots σ
  let σ ← unmapPage space 0 maxClass σ
  let σ ← σ.unrefTable (σ.pml4 space)
  .ok { σ with live := σ.live.filter (· ≠ space), root := Function.update σ.root space .null }

end Jos.PmapModel
