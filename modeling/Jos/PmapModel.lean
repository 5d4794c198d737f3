import Jos.CArray
import Jos.Dyadic

/-!
The physical memory of `pmap.c`: a tree of pages, lists of those that are free, and the
descriptors all of them are made of.

A page is a block of `2 ^ class` pages of 4 KB. Where the code has a pointer to the descriptor of
a page, the model has the way to the page from the root. The links of a descriptor serve for two
things, the list of free pages of its class and the list of the mappings of the page.
-/

namespace Jos.PmapModel

open Jos.Dyadic

inductive Site
  | ensureFreeDesc
  | freeDescRec
  | pageLookup
  | pageUnref
  | allocPage
  | allocVirtualChild
  | pageLookupVirtual
  | unmapPageRemove
  | removePt
  | prot2pte
  | allocPt
  | allocFillPt
  | unmapPage
  | mapPage
  deriving DecidableEq, Repr

inductive Failure
  /-- `panic("Out of memory\n")` -/
  | outOfMemory
  | assertion (site : Site)
  /-- A pointer that does not point to a page is followed. -/
  | wildPointer
  /-- Behind the end of `free_classes`, or a shift by the width of the type. -/
  | undefined
  deriving DecidableEq, Repr

def assert (site : Site) (p : Prop) [Decidable p] : Except Failure Unit :=
  if p then .ok () else .error (.assertion site)

inductive PageState
  | partialNode
  | allocatable
  | reserved
  deriving DecidableEq, Repr

/-- A descriptor of the physical tree; `addr` is the address divided by 4096. -/
structure Page where
  state : PageState
  refc : UInt32
  cls : ℕ
  addr : ℕ
  deriving DecidableEq, Repr

def classBase : ℕ := 12

def maxClass : ℕ := 48

lemma maxClass_eq : maxClass = 48 := rfl

def classSize (cls : ℕ) : ℕ := 2 ^ (cls + classBase)

def Page.pa (n : Page) : ℕ := n.addr * 2 ^ classBase

abbrev MapRef := ℕ × Path

structure Phys where
  node : Path → Option Page
  /-- `free_classes`, from the first element on -/
  free : ℕ → List Path
  /-- the mappings in the list whose head is the page -/
  maps : Path → List MapRef
  /-- `free_desc_count` -/
  freeDesc : ℕ
  /-- the pages of the descriptor pools, from `first_pool` on -/
  pools : List Path
  /-- `current_space` is set -/
  currentSpace : Bool
  /-- `PADDR(end)` -/
  kernelEnd : ℕ

namespace Phys

variable (s : Phys)

def deref (p : Path) : Except Failure Page :=
  match s.node p with
  | some n => .ok n
  | none => .error .wildPointer

def set (p : Path) (n : Page) : Phys := { s with node := Function.update s.node p (some n) }

def listDel (p : Path) : Phys :=
  { s with
    free := fun c => (s.free c).filter (· ≠ p)
    -- the mappings of the page lose the head of their list
    maps := Function.update s.maps p [] }

/-- `list_append(&free_classes[c], p)` -/
def listAppend (c : ℕ) (p : Path) : Except Failure Phys :=
  if c < maxClass then .ok { s with free := Function.update s.free c (p :: s.free c) }
  else .error .undefined

def ListEmpty (p : Path) : Prop := (∀ c < maxClass, p ∉ s.free c) ∧ s.maps p = []

instance (p : Path) : Decidable (s.ListEmpty p) :=
  inferInstanceAs (Decidable ((∀ c < maxClass, p ∉ s.free c) ∧ s.maps p = []))

def Leaf (p : Path) : Prop := ∀ b, s.node (b :: p) = none
  deriving Decidable

/-- `PAGE_IS_FREE` -/
def IsFree (p : Path) : Prop := (∃ n, s.node p = some n ∧ n.refc = 0) ∧ s.Leaf p

instance (p : Path) : Decidable (s.IsFree p) :=
  match h : s.node p with
  | some n => decidable_of_iff (n.refc = 0 ∧ s.Leaf p) (by simp [IsFree, h])
  | none => isFalse (by simp [IsFree, h])

/-- `free_descriptor` of a page -/
def freeDescriptor (p : Path) : Phys :=
  { s.listDel p with node := Function.update s.node p none, freeDesc := s.freeDesc + 1 }

end Phys

abbrev Ensure := ℕ → Phys → Except Failure Phys

def allocDescriptor (ensure : Ensure) (s : Phys) : Except Failure Phys := do
  let s ← ensure 1 s
  .ok { s with freeDesc := s.freeDesc - 1 }

/-- The tree below a page is no deeper than `fuel`. -/
def freeDescRec : ℕ → Path → Phys → Except Failure Phys
  | 0, _, s => .ok s
  | fuel + 1, p, s =>
    match s.node p with
    | none => .ok s
    | some n => do
      assert .freeDescRec (n.refc = 0)
      let s ← freeDescRec fuel (true :: p) s
      freeDescRec fuel (false :: p) (s.freeDescriptor p)

def Page.half (n : Page) (right : Bool) : Page where
  state := n.state
  refc := if n.refc = 0 then 0 else 1
  cls := n.cls - 1
  addr := n.addr + if right then 2 ^ (n.cls - 1) else 0

def allocChild (ensure : Ensure) (s : Phys) (parent : Path) (right : Bool) : Except Failure Phys := do
  let n ← s.deref parent
  if n.cls = 0 then .ok s
  else do
    let s ← allocDescriptor ensure s
    let n ← s.deref parent
    .ok (s.set (right :: parent) (n.half right))

section Lookup

variable (ensure : Ensure) (type : PageState)

def needChild (s : Phys) (p : Path) (right : Bool) : Except Failure Phys :=
  if s.node (right :: p) = none then allocChild ensure s p right else .ok s

/-- One round of the loop of `page_lookup` with `alloc`, from a page to the child with `addr`. -/
def lookupStep (addr cls : ℕ) (s : Phys) (p : Path) : Except Failure (Phys × Path) := do
  let n ← s.deref p
  let right := addr.testBit (n.cls - 1 + classBase)
  let s ← ensure ((n.cls - cls + 1) * 2) s
  let n ← s.deref p
  let wasFree := n.state = .allocatable ∧ s.IsFree p
  let s₁ ← needChild ensure s p false
  let s₂ ← needChild ensure s₁ p true
  let s₃ ←
    (if wasFree then do
      let other ← s₂.deref ((!right) :: p)
      assert .pageLookup (other.state = .allocatable)
      (s₂.listDel p).listAppend (n.cls - 1) ((!right) :: p)
    else .ok s₂)
  let s₄ :=
    if type ≠ .partialNode ∧ n.state ≠ type then s₃.set p { n with state := .partialNode } else s₃
  assert .pageLookup (∀ b, s₄.node (b :: p) ≠ none)
  .ok (s₄, right :: p)

/-- Each round leads to a page of the next smaller class. -/
def lookupLoop (addr cls : ℕ) : ℕ → Phys → Path → Except Failure (Phys × Path)
  | 0, s, p => .ok (s, p)
  | k + 1, s, p => do
    let r ← lookupStep ensure type addr cls s p
    lookupLoop addr cls k r.1 r.2

/-- The end of `page_lookup` for a type of memory: the page becomes memory of this type. -/
def attachPage (s : Phys) (p : Path) : Except Failure Phys := do
  let n ← s.deref p
  assert .pageLookup (n.refc = 0)
  let s ← freeDescRec maxClass (false :: p) s
  let s ← freeDescRec maxClass (true :: p) s
  -- reserved memory stays reserved
  let state := if n.state = .reserved then .reserved else type
  let s := (s.listDel p).set p { n with state := state }
  if state = .allocatable then s.listAppend n.cls p else .ok s

/-- `page_lookup` with `alloc` -/
def pageLookup (s : Phys) (hint : Path) (addr cls : ℕ) : Except Failure (Phys × Path) := do
  let n ← s.deref hint
  assert .pageLookup (addr % classSize cls = 0)
  let r ← lookupLoop ensure type addr cls (n.cls - cls) s hint
  let s ← (if type = .partialNode then .ok r.1 else attachPage type r.1 r.2)
  let n ← s.deref r.2
  assert .pageLookup (n.pa % classSize n.cls = 0)
  .ok (s, r.2)

end Lookup

/-- `page_lookup` without `alloc`: the page, if it is there. -/
def findPage (s : Phys) (addr : ℕ) : ℕ → Path → Option Path
  | 0, p => some p
  | k + 1, p =>
    match s.node p with
    | none => none
    | some n =>
      let next := addr.testBit (n.cls - 1 + classBase) :: p
      if s.node next = none then none else findPage s addr k next

/-- `page_ref`; the tree below a page is no deeper than `fuel`. -/
def pageRefRec : ℕ → Path → Phys → Phys
  | 0, _, s => s
  | fuel + 1, p, s =>
    match s.node p with
    | none => s
    | some n =>
      let s₁ := s.set p { n with refc := n.refc + 1 }
      if n.refc = 0 then pageRefRec fuel (true :: p) (pageRefRec fuel (false :: p) (s₁.listDel p))
      else s₁

def pageRef (p : Path) (s : Phys) : Phys := pageRefRec (maxClass + 1) p s

/-- The loop of `page_unref`: children that are free are merged into their parent. -/
def mergeUp : Path → Phys → Except Failure (Phys × Path)
  | [], s => .ok (s, [])
  | b :: par, s => do
    let page ← s.deref (b :: par)
    let n ← s.deref par
    if n.state = page.state ∧ s.IsFree (false :: par) ∧ s.IsFree (true :: par) then do
      let s₁ := (s.freeDescriptor (false :: par)).freeDescriptor (true :: par)
      if n.state = .allocatable then do
        assert .pageUnref (s₁.ListEmpty par)
        let s₂ ← s₁.listAppend n.cls par
        mergeUp par s₂
      else mergeUp par s₁
    else .ok (s, b :: par)

/-- What `page_unref` does with a page that has become free. -/
def releasePage (p : Path) (s : Phys) : Except Failure Phys := do
  let r ← mergeUp p s
  let n ← r.1.deref r.2
  let s := r.1.listDel r.2
  if n.state = .allocatable then s.listAppend n.cls r.2 else .ok s

def pageUnrefRec : ℕ → Path → Phys → Except Failure Phys
  | 0, _, s => .ok s
  | fuel + 1, p, s =>
    match s.node p with
    | none => .ok s
    | some n => do
      assert .pageUnref (n.refc ≠ 0)
      let s₁ ←
        (if n.refc = 1 then do
          let s₀ ← pageUnrefRec fuel (false :: p) s
          pageUnrefRec fuel (true :: p) s₀
        else .ok s)
      let n ← s₁.deref p
      let s₂ := s₁.set p { n with refc := n.refc - 1 }
      if s₂.IsFree p then releasePage p s₂ else .ok s₂

def pageUnref (p : Path) (s : Phys) : Except Failure Phys := pageUnrefRec (maxClass + 1) p s

def bootMemSize : ℕ := 1024 * 1024 * 1024

def ioPhysMem : ℕ := 0x0A0000

def poolClass : ℕ := 1

/-- `POOL_ENTRIES_FOR_SIZE(CLASS_SIZE(POOL_CLASS))` -/
def poolEntries : ℕ := (classSize poolClass - 16) / 64

def scanFree (s : Phys) (fits : Page → Bool) : List Path → Except Failure (Option Path)
  | [] => .ok none
  | p :: ps => do
    let n ← s.deref p
    assert .allocPage (n.state = .allocatable)
    if fits n then .ok (some p) else scanFree s fits ps

/-- What is free in the classes from `cls` on. -/
def Phys.freeFrom (s : Phys) (cls : ℕ) : List Path :=
  (List.range' cls (maxClass - cls)).flatMap s.free

def outsideKernel (s : Phys) (n : Page) : Prop :=
  s.kernelEnd ≤ n.pa ∨ n.pa + (classSize n.cls - 1) < ioPhysMem
  deriving Decidable

/-- `alloc_page`; `pool` is `ALLOC_POOL`, `bootmem` is `ALLOC_BOOTMEM`. -/
def allocPageWith (ensure : Ensure) (pool bootmem : Bool) (s : Phys) (cls : ℕ) :
    Except Failure (Phys × Option Path) := do
  let bootmem := (pool || bootmem) && !s.currentSpace
  let found ← scanFree s (fun n => !bootmem || n.pa + classSize cls < bootMemSize) (s.freeFrom cls)
  match found with
  | none => .ok (s, none)
  | some peer => do
    let n ← s.deref peer
    let s := s.listDel peer
    let s := if pool then { s with freeDesc := s.freeDesc + poolEntries } else s
    let r ← pageLookup ensure .partialNode s peer n.pa cls
    let new ← r.1.deref r.2
    assert .allocPage (new.refc = 0)
    let s ←
      (if pool then do
        -- the descriptors lie at the address of the page that was found
        assert .allocPage (new.pa = n.pa)
        .ok { pageRef r.2 r.1 with pools := r.2 :: r.1.pools }
      else .ok r.1)
    assert .allocPage (outsideKernel s new)
    .ok (s, some r.2)

/-- While a pool is allocated there is no other source of descriptors: `allocating_pool` is set. -/
def ensureHeld : Ensure := fun count s =>
  if s.freeDesc < count then .error (.assertion .allocPage) else .ok s

def ensureFreeDesc : Ensure := fun count s =>
  if s.freeDesc < count then do
    let r ← allocPageWith ensureHeld true false s poolClass
    match r.2 with
    | none => .error .outOfMemory
    | some _ => do
      assert .ensureFreeDesc (count ≤ r.1.freeDesc)
      .ok r.1
  else .ok s

def allocPage (bootmem : Bool) (s : Phys) (cls : ℕ) : Except Failure (Phys × Option Path) :=
  allocPageWith ensureFreeDesc false bootmem s cls

def growClass (iter size : ℕ) : ℕ → ℕ → Except Failure ℕ
  | 0, _ => .error .undefined
  | fuel + 1, t =>
    if iter % classSize t = 0 ∧ classSize t ≤ size then growClass iter size fuel (t + 1) else .ok t

/-- The loop of `attach_region`; `t` is `tmp_class + 1`, and a round moves on by at least a page. -/
def attachLoop (type : PageState) (fin : ℕ) : ℕ → ℕ → ℕ → Phys → Except Failure Phys
  | 0, _, _, s => .ok s
  | fuel + 1, iter, t, s =>
    if iter < fin then do
      let t ← growClass iter (fin - iter) (52 - t) t
      if t = 0 then .ok s
      else do
        let r ← pageLookup ensureFreeDesc type s [] iter (t - 1)
        attachLoop type fin fuel (iter + classSize (t - 1)) 1 r.1
    else .ok s

def roundDown (a : ℕ) : ℕ := a - a % classSize 0

/-- `ROUNDUP(a, CLASS_SIZE(0))`, which may wrap. -/
def roundUp (a : ℕ) : ℕ := roundDown ((a + (classSize 0 - 1)) % 2 ^ 64)

def attachRegion (start fin : UInt64) (type : PageState) (s : Phys) : Except Failure Phys :=
  let start := roundDown start.toNat
  let fin := roundUp fin.toNat
  attachLoop type fin ((fin - start) / classSize 0) start 0 s

structure Region where
  start : UInt64
  fin : UInt64
  reserved : Bool
  deriving DecidableEq, Repr

def Region.type (x : Region) : PageState := if x.reserved then .reserved else .allocatable

def Region.attach (x : Region) (s : Phys) : Except Failure Phys := attachRegion x.start x.fin x.type s

/-- The memory after `init_allocator`. -/
def initAllocator (kernelEnd : ℕ) : Phys where
  node := Function.update (fun _ => none) [] (some ⟨.partialNode, 0, maxClass, 0⟩)
  free := fun _ => []
  maps := fun _ => []
  freeDesc := 256
  pools := []
  currentSpace := false
  kernelEnd := kernelEnd

end Jos.PmapModel
