import Jos.MapModel
import Jos.Runs

/-!
The kernel as a machine, as far as its memory goes: from `init_allocator` on, memory is attached,
address spaces come and go, pages are copied on faults, and system calls map and unmap regions.
-/

namespace Jos.PmapModel

open EnvTable (Table Slot)

/-- The memory after `init_allocator` -/
def bootMem (kernelEnd : ℕ) (has1gbPages nxSupported : Bool) : Mem where
  phys := initAllocator kernelEnd
  pte := fun _ => ⟨0, 0⟩
  live := []
  pml4 := fun _ => 0
  root := fun _ => .null
  has1gbPages := has1gbPages
  nxSupported := nxSupported

inductive MemStep
  | attach (x : Region)
  | initKspace
  /-- `switch_address_space(&kspace)` sets `current_space` for the first time -/
  | switchOn
  /-- a page for the kernel: a round of `map_physical_region`, or of `map_region` for `kspace` -/
  | mapPhysical (dst pa cls : ℕ) (flags : UInt32)
  | initSpace (s : Slot)
  | releaseSpace (s : Slot)
  /-- `map_region` when an environment is created -/
  | mapUser (C : Setting) (s : Slot) (dst size : ℕ) (flags : UInt32)
  /-- `force_alloc_page` for a page fault -/
  | fault (C : Setting) (space va maxclass : ℕ)
  | call (C : Setting) (t : Table) (call : MemCall)

def resume : Except Exit Mem → Except Exit Mem
  | .error (.gone σ) => .ok σ
  | m => m

def mapPhysical (dst pa cls : ℕ) (flags : UInt32) (σ : Mem) : Except Failure (Mem × Res) := do
  let r ← pageLookup ensureFreeDesc .partialNode σ.phys [] pa cls
  mapPage kspace dst r.2 flags { σ with phys := r.1 }

def memStep (σ : Mem) : MemStep → Except Exit Mem
  | .attach x => do
    let s ← lift (x.attach σ.phys)
    .ok { σ with phys := s }
  | .initKspace => lift (initKspace σ)
  | .switchOn => .ok { σ with phys := { σ.phys with currentSpace := true } }
  | .mapPhysical dst pa cls flags => Prod.fst <$> lift (mapPhysical dst pa cls flags σ)
  | .initSpace s => lift (initAddressSpace (spaceOf s) σ)
  | .releaseSpace s => lift (releaseAddressSpace (spaceOf s) σ)
  | .mapUser C s dst size flags => resume (Prod.fst <$> mapRegion C (spaceOf s) dst none 0 size flags σ)
  | .fault C space va maxclass => resume (Prod.fst <$> forceAllocPage C space va maxclass σ)
  | .call C t call => resume (call.exec C t σ)

end Jos.PmapModel
