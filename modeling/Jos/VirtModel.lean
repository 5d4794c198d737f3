import Jos.PmapModel

/-!
Address spaces in `pmap.c`: the tree of the mappings of a space.

A node stands for a block of addresses. It has children, or it is a mapping and points to the page of
its size that its addresses are mapped to, or it is there for nothing. To change the mapping of a part
of a page, the node is split, with its page: each half of the node is mapped to its half of the page,
with a reference of its own. A node is identified by its space and the way to it from the root.
-/

namespace Jos.PmapModel

open Jos.Dyadic

/-- The types of the virtual tree; the protection of a mapping is part of its type. -/
inductive VState
  | intermediate
  | mapping (prot : UInt32)
  deriving DecidableEq, Repr

/-- `(state & NODE_TYPE_MASK) == MAPPING_NODE` -/
def VState.IsMapping (st : VState) : Prop := st ≠ .intermediate
  deriving Decidable

/-- A pointer to a node, with all that is below it. -/
inductive VTree
  | null
  | node (state : VState) (phy : Option Path) (left right : VTree)
  deriving DecidableEq, Repr

namespace VTree

/-- What `alloc_descriptor` returns. -/
def fresh (st : VState) : VTree := .node st none .null .null

def child (right : Bool) : VTree → VTree
  | .null => .null
  | .node _ _ l r => if right then r else l

def setChild (t : VTree) (right : Bool) (u : VTree) : VTree :=
  match t with
  | .null => .null
  | .node st phy l r => if right then .node st phy l u else .node st phy u r

def sub (t : VTree) : List Bool → VTree
  | [] => t
  | b :: w => (t.child b).sub w

def put (t : VTree) (u : VTree) : List Bool → VTree
  | [] => u
  | b :: w => t.setChild b ((t.child b).put u w)

/-- `node->phy = page; node->state = state` -/
def setMapping (page : Path) (st : VState) : VTree → VTree
  | .null => .null
  | .node _ _ l r => .node st (some page) l r

end VTree

/-- `list_append(page, mapping)` -/
def Phys.link (s : Phys) (page : Path) (v : MapRef) : Phys :=
  { s with maps := Function.update s.maps page (v :: s.maps page) }

/-- `list_del(mapping)` -/
def Phys.unlink (s : Phys) (v : MapRef) : Phys :=
  { s with maps := fun p => (s.maps p).filter (· ≠ v) }

/-- `alloc_virtual_child` for a node that is mapped to `phy`; `v` is the child. -/
def allocVirtualChild (v : MapRef) (phy : Path) (right : Bool) (s : Phys) : Except Failure Phys := do
  assert .allocVirtualChild (∀ b, s.node (b :: phy) ≠ none)
  let s ← allocDescriptor ensureFreeDesc s
  .ok ((pageRef (right :: phy) s).link (right :: phy) v)

/-- `LOOKUP_PRESERVE`, `LOOKUP_ALLOC` and `LOOKUP_SPLIT` -/
inductive LookupMode
  | preserve
  | alloc
  | split
  deriving DecidableEq, Repr

/-- The physical side of the split of a mapping of `phy`, of the class `nclass`. -/
def splitMapping (v : MapRef) (nclass : ℕ) (st : VState) (phy : Path) (s : Phys) :
    Except Failure Phys := do
  let n ← s.deref phy
  assert .pageLookupVirtual (nclass = n.cls)
  assert .pageLookupVirtual st.IsMapping
  let r ← pageLookup ensureFreeDesc .partialNode s phy n.pa (n.cls - 1)
  assert .pageLookupVirtual (∀ b, r.1.node (b :: phy) ≠ none)
  let s ← allocVirtualChild (v.1, v.2 ++ [false]) phy false r.1
  let s ← allocVirtualChild (v.1, v.2 ++ [true]) phy true s
  pageUnref phy (s.unlink v)

/-- A round of the loop of `page_lookup_virtual` at a node of the class `nclass` without the child
to go on to; `right` is which one. -/
def expand (v : MapRef) (nclass cls : ℕ) (right : Bool) (t : VTree) (s : Phys) :
    Except Failure (Phys × VTree) :=
  match t with
  | .null => .error .wildPointer
  | .node st phy l r => do
    let s ← ensureFreeDesc ((nclass - cls + 1) * 2) s
    match phy with
    | some p => do
      let s ← splitMapping v nclass st p s
      .ok (s, .node .intermediate none (.node st (some (false :: p)) .null .null)
        (.node st (some (true :: p)) .null .null))
    | none => do
      assert .pageLookupVirtual (st = .intermediate)
      let s ← allocDescriptor ensureFreeDesc s
      .ok (s, (VTree.node st none l r).setChild right (.fresh .intermediate))

def LookupMode.stops (mode : LookupMode) : VTree → Prop
  | .null => False
  | .node _ phy _ _ => mode = .preserve ∨ mode = .split ∧ phy = none

instance (mode : LookupMode) : DecidablePred mode.stops := fun t =>
  match t with
  | .null => inferInstanceAs (Decidable False)
  | .node _ _ _ _ => inferInstanceAs (Decidable (_ ∨ _))

/-- The loop of `page_lookup_virtual` from the node `v` on, of the class `cls + k`; with the way
from there to the node that is found. -/
def lookupVirtual (mode : LookupMode) (addr cls : ℕ) :
    ℕ → MapRef → VTree → Phys → Except Failure (Phys × VTree × List Bool)
  | 0, _, t, s => .ok (s, t, [])
  | k + 1, v, t, s => do
    let right := addr.testBit (cls + k + classBase)
    if t.child right = .null ∧ mode.stops t then .ok (s, t, [])
    else do
      let x ← (if t.child right = .null then expand v (cls + k + 1) cls right t s else .ok (s, t))
      let y ← lookupVirtual mode addr cls k (v.1, v.2 ++ [right]) (x.2.child right) x.1
      .ok (y.1, x.2.setChild right y.2.1, right :: y.2.2)

/-- `page_lookup_virtual` in a space, from its root -/
def pageLookupVirtual (mode : LookupMode) (space addr cls : ℕ) (root : VTree) (s : Phys) :
    Except Failure (Phys × VTree × List Bool) :=
  lookupVirtual mode addr cls (maxClass - cls) (space, []) root s

/-- `unmap_page_remove` -/
def unmapPageRemove (space : ℕ) : List Bool → VTree → Phys → Except Failure Phys
  | _, .null, s => .ok s
  | w, .node st phy l r, s => do
    let s ←
      (match phy with
      | some p => do
        assert .unmapPageRemove (l = .null ∧ r = .null)
        assert .unmapPageRemove st.IsMapping
        pageUnref p s
      | none => do
        assert .unmapPageRemove (st = .intermediate)
        let s ← unmapPageRemove space (w ++ [false]) l s
        unmapPageRemove space (w ++ [true]) r s)
    -- `free_descriptor`
    .ok { s.unlink (space, w) with freeDesc := s.freeDesc + 1 }

/-- What `unmap_page` does to the tree of the space. -/
def unmapTree (space addr cls : ℕ) (root : VTree) (s : Phys) : Except Failure (Phys × VTree) := do
  let x ← pageLookupVirtual .alloc space addr cls root s
  let s ← unmapPageRemove space x.2.2 (x.2.1.sub x.2.2) x.1
  -- there is always a root
  if x.2.2 = [] then do
    let s ← allocDescriptor ensureFreeDesc s
    .ok (s, .fresh .intermediate)
  else .ok (s, x.2.1.put .null x.2.2)

def nodeTypeMask : UInt32 := 0xF00000

def protCombine : UInt32 := 0x100

/-- `(PAGE_PROT(flags) & ~PROT_COMBINE) | MAPPING_NODE` -/
def mappingState (flags : UInt32) : VState := .mapping (flags &&& ~~~nodeTypeMask &&& ~~~protCombine)

/-- What `map_page` does to the tree of the space, after `unmap_page`. -/
def mapTree (space addr cls : ℕ) (page : Path) (flags : UInt32) (root : VTree) (s : Phys) :
    Except Failure (Phys × VTree) := do
  let x ← pageLookupVirtual .alloc space addr cls root s
  .ok (x.1.link page (space, x.2.2),
    x.2.1.put ((x.2.1.sub x.2.2).setMapping page (mappingState flags)) x.2.2)

end Jos.PmapModel
