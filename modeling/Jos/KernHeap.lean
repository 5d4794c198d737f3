import Jos.Runs
import Mathlib.Order.Interval.Set.Defs
import Mathlib.Order.CompletePartialOrder
import Mathlib.Data.Set.BooleanAlgebra
import Mathlib.Data.UInt

/-!
The kernel heap: one pointer that `kzalloc_region`, `mmio_map_region` and
`mmio_remap_last_region` move, the last of them backwards.

Whether the pages of a region can be mapped is up to the memory; every step says whether they
were, and a region that cannot be mapped is a panic.
-/

namespace Jos.KernHeap

open Runs Nat

def pageSize : UInt64 := 0x1000
def kernHeapEnd : UInt64 := 0x803fe00000
def kernHeapStart : UInt64 := 0x801fe00000

def roundDown (a : UInt64) : UInt64 := a - a % pageSize
def roundUp (a : UInt64) : UInt64 := roundDown (a + pageSize - 1)

/-- What `current_space` points to. -/
inductive Space
  | null
  | kspace
  | other
  deriving DecidableEq, Repr

inductive Panic
  | assertion
  | heapOverflow
  | mapping
  | notLast
  deriving DecidableEq, Repr

/-- A region as its caller knows it: the address returned and the size asked for. -/
structure Region where
  base : UInt64
  size : UInt64
  mmio : Bool
  deriving DecidableEq, Repr

structure Heap where
  current : Space
  metaheaptop : UInt64
  prevMmio : UInt64
  /-- the regions returned and not replaced, the last one first -/
  live : List Region
  deriving DecidableEq, Repr

/-- `init_memory`: the frame buffer lies at the start of the heap. Its size has 32 bits, and so
has the rounded one. -/
def boot (frameBufferSize : UInt32) : Heap where
  current := .null
  metaheaptop := kernHeapStart + (roundUp frameBufferSize.toUInt64).toUInt32.toUInt64
  prevMmio := 0
  live := []

def kzallocRegion (size : UInt64) (mapped : Bool) (h : Heap) : Except Panic Heap :=
  if h.current = .null then .error .assertion
  else
    let rounded := roundUp size
    if kernHeapEnd < h.metaheaptop + rounded then .error .heapOverflow
    else if !mapped then .error .mapping
    else
      .ok { h with
        metaheaptop := h.metaheaptop + rounded
        live := ⟨h.metaheaptop, size, false⟩ :: h.live }

def mmioMapRegion (addr size : UInt64) (mapped : Bool) (h : Heap) : Except Panic Heap :=
  if h.current ≠ .kspace then .error .assertion
  else
    let start := roundDown addr
    let fin := roundUp (addr + size)
    if !mapped then .error .mapping
    else
      .ok { h with
        prevMmio := h.metaheaptop
        metaheaptop := h.metaheaptop + (fin - start)
        live := ⟨h.metaheaptop + addr - start, size, true⟩ :: h.live }

/-- The region at the old address is replaced, if there is one. -/
def mmioRemapLastRegion (addr oldva size : UInt64) (mapped : Bool) (h : Heap) :
    Except Panic Heap :=
  let start := roundDown addr
  let fin := roundUp (addr + size)
  if h.prevMmio + addr - start ≠ oldva ∧ h.prevMmio + fin - start ≠ h.metaheaptop then
    .error .notLast
  else
    mmioMapRegion addr size mapped
      { h with metaheaptop := h.prevMmio, live := h.live.eraseP (·.base = oldva) }

inductive Step
  | switch (space : Space)
  | kzalloc (size : UInt64) (mapped : Bool)
  | mmioMap (addr size : UInt64) (mapped : Bool)
  | mmioRemap (addr oldva oldsz size : UInt64) (mapped : Bool)
  deriving DecidableEq, Repr

def step (h : Heap) : Step → Except Panic Heap
  | .switch space => .ok { h with current := space }
  | .kzalloc size mapped => kzallocRegion size mapped h
  | .mmioMap addr size mapped => mmioMapRegion addr size mapped h
  | .mmioRemap addr oldva _ size mapped => mmioRemapLastRegion addr oldva size mapped h

def Region.addresses (r : Region) : Set ℕ := Set.Ico r.base.toNat (r.base.toNat + r.size.toNat)

structure Heap.Sound (h : Heap) : Prop where
  disjoint : h.live.Pairwise fun r r' => Disjoint r.addresses r'.addresses
  inside : ∀ r ∈ h.live, r.addresses ⊆ Set.Ico kernHeapStart.toNat kernHeapEnd.toNat

/-- The end of the pages that hold a device's registers does not wrap, and they fit below the
end of the heap if placed at `top`. -/
def MmioFits (top addr size : UInt64) : Prop :=
  addr.toNat + size.toNat + 0xfff < 2 ^ 64 ∧
    top.toNat + ((roundUp (addr + size)).toNat - (roundDown addr).toNat) ≤ kernHeapEnd.toNat

/-- No sum wraps, a device region fits into the heap, and only the region the last call returned is
remapped. -/
def Fits (h : Heap) : Step → Prop
  | .switch _ => True
  | .kzalloc size _ => h.metaheaptop.toNat + size.toNat + 0xfff < 2 ^ 64
  | .mmioMap addr size _ => MmioFits h.metaheaptop addr size
  | .mmioRemap addr oldva _ size _ =>
    (h.live.head?.any fun r => r.mmio ∧ r.base = oldva) ∧ MmioFits h.prevMmio addr size

instance (h : Heap) : DecidablePred (Fits h) := fun op => by
  cases op <;> unfold Fits <;> (try unfold MmioFits) <;> infer_instance

lemma toNat_pageSize : pageSize.toNat = 0x1000 := rfl

lemma toNat_roundDown (a : UInt64) : (roundDown a).toNat = a.toNat - a.toNat % 0x1000 := by
  have hle : a % pageSize ≤ a := by
    rw [UInt64.le_iff_toNat_le, UInt64.toNat_mod]
    exact mod_le _ _
  rw [roundDown, UInt64.toNat_sub_of_le _ _ hle, UInt64.toNat_mod, toNat_pageSize]

lemma toNat_roundUp {a : UInt64} (h : a.toNat + 0xfff < 2 ^ 64) :
    (roundUp a).toNat = (a.toNat + 0xfff) - (a.toNat + 0xfff) % 0x1000 := by
  have hadd : (a + pageSize - 1).toNat = a.toNat + 0xfff := by
    rw [UInt64.toNat_sub, UInt64.toNat_add, toNat_pageSize, UInt64.toNat_one]
    omega
  rw [roundUp, toNat_roundDown, hadd]

/-- Below the pointer there are only the live regions, apart from each other. -/
structure Heap.Inv (h : Heap) : Prop where
  sound : h.Sound
  start : kernHeapStart.toNat ≤ h.metaheaptop.toNat
  below : ∀ r ∈ h.live, r.base.toNat + r.size.toNat ≤ h.metaheaptop.toNat
  last : ∀ r ∈ h.live.head?, r.mmio →
    kernHeapStart.toNat ≤ h.prevMmio.toNat ∧
      ∀ r' ∈ h.live.tail, r'.base.toNat + r'.size.toNat ≤ h.prevMmio.toNat

lemma boot_inv (frameBufferSize : UInt32) : (boot frameBufferSize).Inv where
  sound := ⟨List.Pairwise.nil, by simp [boot]⟩
  start := by
    have hlt := (roundUp frameBufferSize.toUInt64).toUInt32.toNat_lt
    have htop : (boot frameBufferSize).metaheaptop.toNat =
        kernHeapStart.toNat + (roundUp frameBufferSize.toUInt64).toUInt32.toNat := by
      rw [boot, UInt64.toNat_add, UInt32.toNat_toUInt64]
      refine mod_eq_of_lt ?_
      have : kernHeapStart.toNat = 0x801fe00000 := rfl
      omega
    omega
  below := by simp [boot]
  last := by simp [boot]

lemma Heap.Sound.push {h h' : Heap} {r : Region} (hs : h.Sound) (hstart : kernHeapStart.toNat ≤ h.metaheaptop.toNat)
    (hbelow : ∀ r' ∈ h.live, r'.base.toNat + r'.size.toNat ≤ h.metaheaptop.toNat)
    (hlive : h'.live = r :: h.live) (hbase : h.metaheaptop.toNat ≤ r.base.toNat)
    (hend : r.base.toNat + r.size.toNat ≤ kernHeapEnd.toNat) : h'.Sound where
  disjoint := by
    rw [hlive, List.pairwise_cons]
    refine ⟨fun r' hr' => ?_, hs.disjoint⟩
    rw [Set.disjoint_left]
    intro a ha ha'
    have := hbelow r' hr'
    simp only [Region.addresses, Set.mem_Ico] at ha ha'
    omega
  inside := by
    rw [hlive]
    intro r' hr'
    rcases List.mem_cons.mp hr' with rfl | hr'
    · intro a ha
      simp only [Region.addresses, Set.mem_Ico] at ha ⊢
      omega
    · exact hs.inside r' hr'

lemma kzalloc_inv {h h' : Heap} {size : UInt64} {mapped : Bool} (hi : h.Inv)
    (hfits : h.metaheaptop.toNat + size.toNat + 0xfff < 2 ^ 64)
    (hk : kzallocRegion size mapped h = .ok h') : h'.Inv := by
  simp only [kzallocRegion] at hk
  split_ifs at hk with hnull hover
  obtain rfl := Except.ok.inj hk
  have hround := toNat_roundUp (a := size) (by omega)
  have htop : (h.metaheaptop + roundUp size).toNat = h.metaheaptop.toNat + (roundUp size).toNat := by
    rw [UInt64.toNat_add]
    exact mod_eq_of_lt (by omega)
  rw [UInt64.lt_iff_toNat_lt, htop, not_lt] at hover
  refine ⟨hi.sound.push hi.start hi.below rfl le_rfl (by dsimp only; omega), ?_, fun r hr => ?_, ?_⟩
  · rw [htop]
    exact hi.start.trans (le_add_right _ _)
  · rw [htop]
    rcases List.mem_cons.mp hr with rfl | hr
    · dsimp only
      omega
    · exact (hi.below r hr).trans (le_add_right _ _)
  · rintro r hr hm
    cases Option.mem_some_iff.mp hr
    cases hm

lemma mmioMap_inv {h h' : Heap} {addr size : UInt64} {mapped : Bool} (hs : h.Sound)
    (hstart : kernHeapStart.toNat ≤ h.metaheaptop.toNat)
    (hbelow : ∀ r ∈ h.live, r.base.toNat + r.size.toNat ≤ h.metaheaptop.toNat)
    (hfits : MmioFits h.metaheaptop addr size) (hm : mmioMapRegion addr size mapped h = .ok h') :
    h'.Inv := by
  obtain ⟨hwrap, hroom⟩ := hfits
  simp only [mmioMapRegion] at hm
  split_ifs at hm
  obtain rfl := Except.ok.inj hm
  have hsum : (addr + size).toNat = addr.toNat + size.toNat := by
    rw [UInt64.toNat_add]
    exact mod_eq_of_lt (by omega)
  have hup := toNat_roundUp (a := addr + size) (by omega)
  have hdown := toNat_roundDown addr
  have hend : kernHeapEnd.toNat = 0x803fe00000 := rfl
  rw [hsum] at hup
  have htop : (h.metaheaptop + (roundUp (addr + size) - roundDown addr)).toNat =
      h.metaheaptop.toNat + ((roundUp (addr + size)).toNat - (roundDown addr).toNat) := by
    rw [UInt64.toNat_add, UInt64.toNat_sub_of_le _ _ (UInt64.le_iff_toNat_le.mpr (by omega))]
    exact mod_eq_of_lt (by omega)
  have hbase : (h.metaheaptop + addr - roundDown addr).toNat = h.metaheaptop.toNat + addr.toNat % 0x1000 := by
    rw [UInt64.toNat_sub, UInt64.toNat_add, hdown]
    omega
  refine ⟨hs.push hstart hbelow rfl (by dsimp only; omega) (by dsimp only; omega), ?_, fun r hr => ?_, ?_⟩
  · rw [htop]
    omega
  · rw [htop]
    rcases List.mem_cons.mp hr with rfl | hr
    · dsimp only
      omega
    · exact (hbelow r hr).trans (le_add_right _ _)
  · rintro r hr -
    exact ⟨hstart, hbelow⟩

/-- **A call keeps the invariant** if it meets its condition. -/
lemma step_inv (h : Heap) (op : Step) (h' : Heap) (hi : h.Inv) (hfits : Fits h op)
    (hs : step h op = .ok h') : h'.Inv := by
  cases op with
  | switch space =>
    cases hs
    exact ⟨⟨hi.sound.disjoint, hi.sound.inside⟩, hi.start, hi.below, hi.last⟩
  | kzalloc size mapped => exact kzalloc_inv hi hfits hs
  | mmioMap addr size mapped => exact mmioMap_inv hi.sound hi.start hi.below hfits hs
  | mmioRemap addr oldva oldsz size mapped =>
    obtain ⟨hlast, hroom⟩ := hfits
    simp only [step, mmioRemapLastRegion] at hs
    split_ifs at hs with hpanic
    cases hlive : h.live with
    | nil => simp [hlive] at hlast
    | cons r rest =>
      simp only [hlive, List.head?_cons, Option.any_some, decide_eq_true_eq] at hlast
      -- the region that goes is the one above `prev_mmio`
      obtain ⟨hprev, hrest⟩ := hi.last r (by rw [hlive]; rfl) hlast.1
      rw [hlive, List.tail_cons] at hrest
      have herase : h.live.eraseP (·.base = oldva) = rest := by
        rw [hlive, List.eraseP_cons_of_pos (by simpa using hlast.2)]
      rw [herase] at hs
      refine mmioMap_inv ⟨?_, fun r' hr' => ?_⟩ hprev hrest hroom hs
      · have := hi.sound.disjoint
        rw [hlive] at this
        exact this.of_cons
      · exact hi.sound.inside r' (by rw [hlive]; exact List.mem_cons_of_mem _ hr')

/-- **The regions of the kernel heap** that are in use never overlap and never leave the heap, as
long as every call meets its condition. -/
theorem regions_disjoint (frameBufferSize : UInt32) (ops : List Step) (h : Heap)
    (hrun : run step (boot frameBufferSize) ops = .ok h)
    (hfits : ∀ pre op u, pre ++ [op] <+: ops → run step (boot frameBufferSize) pre = .ok u →
      Fits u op) : h.Sound :=
  (run_inv_when step_inv (boot_inv frameBufferSize) hfits hrun).sound

def remapAfter : List Step :=
  [.switch .kspace, .mmioMap 0xfed00000 0x1000 true, .kzalloc 0x1000 true,
    .mmioRemap 0xfed00000 0x801fe00000 0x1000 0x2000 true]

theorem remap_overlaps : ∃ h, run step (boot 0) remapAfter = .ok h ∧ ¬h.Sound := by
  refine ⟨_, rfl, fun hs => ?_⟩
  obtain ⟨hfirst, -⟩ := List.pairwise_cons.mp hs.disjoint
  -- the memory allocated is the second page of the larger device region
  have hpage := hfirst ⟨0x801fe01000, 0x1000, false⟩ (by decide)
  have hdevice : 0x801fe01000 ∈ Region.addresses ⟨0x801fe00000, 0x2000, true⟩ :=
    ⟨by decide, by decide⟩
  exact Set.disjoint_left.mp hpage hdevice ⟨by decide, by decide⟩

def readTables : List Step :=
  [.switch .kspace, .kzalloc 0x64000 true, .mmioMap 0x7fb7e014 0x24 true,
    .mmioRemap 0x7fb7e014 0x801ff90014 0x24 0x1d4c true, .kzalloc 0x200 true]

theorem regions_disjoint_readTables :
    ∃ h, run step (boot 0x12c000) readTables = .ok h ∧ h.Sound := by
  obtain ⟨h, hrun, -⟩ : ∃ h, run step (boot 0x12c000) readTables = .ok h ∧ True := by decide
  have hmeets : Meets step Fits (boot 0x12c000) readTables := by decide
  exact ⟨h, hrun, regions_disjoint 0x12c000 readTables h hrun hmeets.along⟩

end Jos.KernHeap
