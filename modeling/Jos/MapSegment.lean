import Jos.ByteSpace
import Jos.ByteMem
import Jos.KernHeap
import Jos.MapModel
import Jos.Runs

/-!
`map_segment` of `spawn`: a segment of a program is put into the memory of a child.

The pages with bytes of the file are read at `UTEMP` and given to the child, the ones behind are
allocated for it. What is read are whole pages, also behind the segment's part of the file, and what
is allocated need not be whole pages.
-/

namespace Jos.MapSegment

open ByteSpace ByteSpace.Space ByteMem Runs Function Nat
open CArray (ok_bind)
open KernHeap (pageSize roundDown roundUp toNat_roundDown toNat_roundUp toNat_pageSize)
open PmapModel (RegionCall MemCall Sets allocOne allocZero protAll protUser protR protW protLazy spaceOf
  maxUserAddress findEnv refuse)
open EnvTable (Table Slot EnvId pageOffset envid2env envInit firstSlot secondSlot)

/-- What the environments read in their memory, and where the open file stands -/
structure World where
  spaces : ℕ → Space
  offset : ℕ

inductive Stop
  /-- a negative value is returned -/
  | code (e : ℤ)
  /-- the environment that spawns cannot go on -/
  | fault
  deriving DecidableEq, Repr

def World.setSpace (w : World) (space : ℕ) (m : Space) : World := { w with spaces := Function.update w.spaces space m }

/-- `map_region` and `unmap_region`, where there is memory enough; what `map_region` refuses is `-1` to the caller of
the system call. -/
def exec (w : World) : RegionCall → Except Stop World
  | .map dspace dst sspace src size flags =>
    if src % 0x1000 ≠ 0 ∨ dst % 0x1000 ≠ 0 ∨ size % 0x1000 ≠ 0 ∨ size = 0 then .error (.code (-1))
    else
      match sspace with
      | none =>
        .ok (w.setSpace dspace (if Sets flags allocOne then (w.spaces dspace).store dst size fun _ => 0xff
          else (w.spaces dspace).zero dst size))
      | some sspace => .ok (w.setSpace dspace ((w.spaces dspace).share (w.spaces sspace) dst src size))
  | .unmap dspace dst size => .ok (w.setSpace dspace ((w.spaces dspace).unmap dst size))

def call (t : Table) (c : MemCall) (w : World) : Except Stop World :=
  match c.request t with
  | .error (.code e) => .error (.code e)
  | .error _ => .error .fault
  | .ok r => exec w r

/-- A file, and how many bytes there are in the answer to a `read`: some, if there are some left. -/
structure File where
  bytes : Bytes
  size : ℕ
  count : ℕ → ℕ → ℕ
  count_le : ∀ o n, count o n ≤ min n (size - o)
  count_pos : ∀ o n, 0 < n → o < size → 0 < count o n

def File.byte (F : File) (o : ℕ) : UInt8 := if o < F.size then F.bytes o else 0

/-- `readn` into the memory of a space; `n` bytes are read in at most `n` rounds. -/
def readn (F : File) (space buf n : ℕ) : ℕ → ℕ → World → Except Stop World
  | 0, _, w => .ok w
  | rounds + 1, res, w =>
    if res < n then
      let inc := F.count w.offset (n - res)
      if inc = 0 then .ok w
      else if (w.spaces space).Mapped (buf + res) inc then
        readn F space buf n rounds (res + inc)
          { w.setSpace space ((w.spaces space).store (buf + res) inc fun i => F.bytes (w.offset + i)) with
            offset := w.offset + inc }
      else .error .fault
    else .ok w

def utemp : UInt64 := 0x400000

def utext : UInt64 := 0x800000

/-- Where the new pages at `UTEMP` reach the program that runs, it is no longer there. -/
def keepsText (filesz : UInt64) : Except Stop Unit := if utext < utemp + filesz then .error .fault else .ok ()

/-- `map_segment`; `parent` is the space of the environment that spawns. -/
def mapSegment (F : File) (t : Table) (parent : ℕ) (child : EnvId) (va memsz filesz : UInt64) (fileoffset : ℕ)
    (perm : UInt32) (w : World) : Except Stop World := do
  -- for an address at the beginning of a page nothing is shifted
  let res := va % pageSize
  let va := va - res
  let memsz := memsz + res
  let filesz := filesz + res
  let fileoffset := fileoffset - res.toNat
  let filesz := roundUp (va + filesz) - va
  let w ← (if memsz > filesz then call t (.allocRegion child (va + filesz) (memsz - filesz) perm) w else .ok w)
  let w ← call t (.allocRegion 0 utemp filesz (protR ||| protW)) w
  keepsText filesz
  let w := { w with offset := fileoffset }
  let w ← run (fun w i => readn F parent (utemp.toNat + 0x1000 * i) 0x1000 0x1000 0 w) w (List.range (filesz.toNat / 0x1000))
  let w ← call t (.mapRegion 0 utemp child va filesz (perm ||| protLazy)) w
  call t (.unmapRegion 0 utemp filesz) w

/-- A segment of a program, with its part of a file that is long enough -/
structure Segment (F : File) (va memsz filesz : UInt64) (fileoffset : ℕ) (perm : UInt32) : Prop where
  sizes : filesz.toNat ≤ memsz.toNat
  user : va.toNat + memsz.toNat ≤ maxUserAddress
  offset : fileoffset % 0x1000 = va.toNat % 0x1000
  file : fileoffset + filesz.toNat ≤ F.size
  size : F.size < 2 ^ 31
  perm : perm.toNat < 8

structure Family (t : Table) (p c : Slot) (child : EnvId) : Prop where
  parent : envid2env t 0 true = .found (some p)
  child : envid2env t child true = .found (some c)
  ne : c ≠ p

/-- **The child has the segment**: the bytes of the file, and zeros behind them. -/
structure Given (F : File) (va memsz filesz : UInt64) (fileoffset : ℕ) (m : Space) : Prop where
  bytes : ∀ k < filesz.toNat, m (va.toNat + k) = some (F.bytes (fileoffset + k))
  zeros : ∀ k, filesz.toNat ≤ k → k < memsz.toNat → m (va.toNat + k) = some 0

def filePart (va filesz : UInt64) : ℕ := va.toNat % 0x1000 + filesz.toNat

def memPart (va memsz : UInt64) : ℕ := va.toNat % 0x1000 + memsz.toNat

def filePages (va filesz : UInt64) : ℕ := (filePart va filesz + 0xfff) / 0x1000 * 0x1000

/-- There is something to read, and room for it at `UTEMP`; the segment ends with its part of the file, or
with a page; and on the last page read there are zeros where the segment has zeros. -/
structure Fine (F : File) (va memsz filesz : UInt64) (fileoffset : ℕ) : Prop where
  some : 0 < filePart va filesz
  room : filePages va filesz ≤ 0x400000
  whole : memPart va memsz ≤ filePages va filesz ∨ memPart va memsz % 0x1000 = 0
  tail : ∀ k, filesz.toNat ≤ k → k < memsz.toNat → va.toNat % 0x1000 + k < filePages va filesz → F.byte (fileoffset + k) = 0

variable {F : File} {t : Table} {p c s : Slot} {child envid : EnvId} {w w' : World} {perm : UInt32}
  {addr size va memsz filesz : UInt64} {fileoffset space buf n : ℕ}

lemma pageOffset_eq_zero {a : UInt64} : pageOffset a = 0 ↔ a.toNat % 0x1000 = 0 := by
  rw [pageOffset, ← UInt64.toNat_inj, UInt64.toNat_and]
  change a.toNat &&& 2 ^ 12 - 1 = 0 ↔ _
  rw [and_two_pow_sub_one_eq_mod]

lemma perm_forall {P : UInt32 → Prop} (h : ∀ q ∈ List.range 8, P (UInt32.ofNat q)) (hperm : perm.toNat < 8) : P perm := by
  have hq := h perm.toNat (List.mem_range.mpr hperm)
  rwa [UInt32.ofNat_toNat] at hq

lemma refuse_not {P : Prop} [Decidable P] {e : ℤ} (h : ¬P) : refuse P e = .ok () := if_neg h

lemma findEnv_found {check : Bool} (h : envid2env t envid check = .found (some s)) :
    findEnv t envid check = .ok s := by
  rw [findEnv, h]

lemma call_alloc (henv : envid2env t envid true = .found (some s)) (halign : addr.toNat % 0x1000 = 0)
    (haddr : addr.toNat ≤ maxUserAddress) (hperm : perm.toNat < 8) :
    call t (.allocRegion envid addr size perm) w =
      if size.toNat % 0x1000 ≠ 0 ∨ size.toNat = 0 then .error (.code (-1))
      else .ok (w.setSpace (spaceOf s) ((w.spaces (spaceOf s)).zero addr.toNat size.toNat)) := by
  obtain ⟨hall, hone, hflags⟩ := perm_forall (P := fun q => ¬Sets q (~~~protAll) ∧ ¬Sets q allocOne ∧
    ¬Sets (((q ||| allocZero) &&& ~~~allocOne) ||| protUser ||| protLazy) allocOne) (by decide) hperm
  have hreq : (MemCall.allocRegion envid addr size perm).request t =
      .ok (.map (spaceOf s) addr.toNat none 0 size.toNat
        (((perm ||| allocZero) &&& ~~~allocOne) ||| protUser ||| protLazy)) := by
    simp only [MemCall.request, Jos.PmapModel.sysAllocRegion, findEnv_found henv,
      refuse_not (not_not.mpr (pageOffset_eq_zero.mpr halign)), refuse_not (not_lt.mpr haddr), refuse_not hall, ok_bind,
      if_neg hone]
  rw [call, hreq]
  simp only [exec, halign, zero_mod, ne_eq, not_true_eq_false, false_or, if_neg hflags]

lemma call_map (hp : envid2env t 0 true = .found (some p)) (hc : envid2env t child true = .found (some c))
    (halign : addr.toNat % 0x1000 = 0) (haddr : addr.toNat < maxUserAddress) (hsize : size.toNat % 0x1000 = 0)
    (hpos : size.toNat ≠ 0) (hperm : perm.toNat < 8) :
    call t (.mapRegion 0 utemp child addr size (perm ||| protLazy)) w =
      .ok (w.setSpace (spaceOf c) ((w.spaces (spaceOf c)).share (w.spaces (spaceOf p)) addr.toNat utemp.toNat
        size.toNat)) := by
  have hflags := perm_forall (P := fun q => ¬(Sets (q ||| protLazy ||| protUser) (~~~protAll) ∨
    Sets (q ||| protLazy ||| protUser) allocZero ∨ Sets (q ||| protLazy ||| protUser) allocOne)) (by decide) hperm
  have hreq : (MemCall.mapRegion 0 utemp child addr size (perm ||| protLazy)).request t =
      .ok (.map (spaceOf c) addr.toNat (some (spaceOf p)) utemp.toNat size.toNat
        (perm ||| protLazy ||| protUser)) := by
    simp only [MemCall.request, Jos.PmapModel.sysMapRegion, findEnv_found hp, findEnv_found hc,
      refuse_not (not_or.mpr ⟨not_not.mpr (show pageOffset utemp = 0 by decide),
        not_not.mpr (pageOffset_eq_zero.mpr halign)⟩),
      refuse_not (show ¬utemp.toNat ≥ maxUserAddress by decide), refuse_not (not_le.mpr haddr), refuse_not hflags, ok_bind]
  rw [call, hreq]
  simp only [exec, show utemp.toNat % 0x1000 = 0 by decide, halign, hsize, hpos, ne_eq, not_true_eq_false, or_self,
    if_false]

lemma call_unmap (hp : envid2env t 0 true = .found (some p)) : call t (.unmapRegion 0 utemp size) w =
      .ok (w.setSpace (spaceOf p) ((w.spaces (spaceOf p)).unmap utemp.toNat size.toNat)) := by
  have hreq : (MemCall.unmapRegion 0 utemp size).request t = .ok (.unmap (spaceOf p) utemp.toNat size.toNat) := by
    simp only [MemCall.request, Jos.PmapModel.sysUnmapRegion, findEnv_found hp,
      refuse_not (not_not.mpr (show pageOffset utemp = 0 by decide)),
      refuse_not (show ¬utemp.toNat ≥ maxUserAddress by decide), ok_bind]
  rw [call, hreq]
  rfl

structure Filled (F : File) (space buf len start j : ℕ) (w₀ w : World) : Prop where
  bytes : ∀ x < len, w.spaces space (buf + x) = some (if x < j then F.byte (start + x) else 0)
  others : ∀ u ≠ space, w.spaces u = w₀.spaces u
  offset : w.offset = start + min j (F.size - start)

variable {len start j res rounds : ℕ} {w₀ : World}

lemma Filled.at_end (h : Filled F space buf len start j w₀ w) (hend : F.size ≤ w.offset) (hstart : start ≤ F.size)
    (hle : j ≤ n) : Filled F space buf len start n w₀ w := by
  have hoffset := h.offset
  refine ⟨fun x hx => ?_, h.others, by omega⟩
  rw [h.bytes x hx]
  by_cases hxj : x < j
  · rw [if_pos hxj, if_pos (by omega)]
  · have hzero : F.byte (start + x) = 0 := if_neg (by omega)
    rw [if_neg hxj, hzero, ite_self]

lemma Filled.more {i : ℕ} (h : Filled F space buf len start j w₀ w) (hi : w.offset + i ≤ F.size)
    (hpos : 0 < i) (hstart : start ≤ F.size) :
    Filled F space buf len start (j + i) w₀
      { w.setSpace space ((w.spaces space).store (buf + j) i fun x => F.bytes (w.offset + x)) with
        offset := w.offset + i } := by
  have hoffset := h.offset
  refine ⟨fun x hx => ?_, fun u hu => ?_, by dsimp only; omega⟩
  · change update w.spaces space _ space (buf + x) = _
    rw [update_self]
    by_cases hin : In (buf + j) i (buf + x)
    · rw [store_in hin]
      unfold In at hin
      rw [if_pos (by omega), File.byte, if_pos (by omega)]
      congr 2
      omega
    · rw [store_out hin, h.bytes x hx]
      unfold In at hin
      by_cases hxj : x < j
      · rw [if_pos hxj, if_pos (by omega)]
      · rw [if_neg hxj, if_neg (by omega)]
  · change update w.spaces space _ u = _
    rw [update_of_ne hu]
    exact h.others u hu

/-- **`readn` reads** all that is asked for, up to the end of the file. -/
lemma readn_filled (hstart : start ≤ F.size) (hlen : j + n ≤ len) (hres : res ≤ n) (hrounds : n - res ≤ rounds)
    (h : Filled F space buf len start (j + res) w₀ w) :
    ∃ w', readn F space (buf + j) n rounds res w = .ok w' ∧ Filled F space buf len start (j + n) w₀ w' := by
  induction rounds generalizing res w with
  | zero =>
    obtain rfl : res = n := by omega
    exact ⟨w, rfl, h⟩
  | succ rounds ih =>
    rw [readn]
    by_cases hlt : res < n
    swap
    · obtain rfl : res = n := by omega
      exact ⟨w, if_neg hlt, h⟩
    rw [if_pos hlt]
    have hle := F.count_le w.offset (n - res)
    by_cases hzero : F.count w.offset (n - res) = 0
    · rw [if_pos hzero]
      refine ⟨w, rfl, h.at_end ?_ hstart (by omega)⟩
      by_contra hlt'
      exact absurd hzero (F.count_pos w.offset (n - res) (by omega) (not_le.mp hlt')).ne'
    · rw [if_neg hzero]
      have hmapped : (w.spaces space).Mapped (buf + j + res) (F.count w.offset (n - res)) := fun i hi => by
        rw [add_assoc, add_assoc, h.bytes _ (by omega)]
        exact Option.some_ne_none _
      rw [if_pos hmapped, add_assoc buf]
      have hmore := h.more (i := F.count w.offset (n - res)) (by omega) (pos_of_ne_zero hzero) hstart
      rw [add_assoc j] at hmore
      exact ih (by omega) (by omega) hmore

lemma run_readn_filled (hstart : start ≤ F.size) {k : ℕ} (hk : 0x1000 * k ≤ len)
    (h : Filled F space buf len start 0 w₀ w) :
    ∃ w', run (fun w i => readn F space (buf + 0x1000 * i) 0x1000 0x1000 0 w) w (List.range k) = .ok w' ∧
      Filled F space buf len start (0x1000 * k) w₀ w' := by
  induction k with
  | zero => exact ⟨w, rfl, h⟩
  | succ k ih =>
    obtain ⟨w₁, hrun, hw₁⟩ := ih (by omega)
    rw [List.range_succ, run_snoc_ok hrun]
    exact readn_filled hstart (by omega) (zero_le _) le_rfl hw₁

def base (va : UInt64) : UInt64 := va - va % pageSize

def pages (va filesz : UInt64) : UInt64 := roundUp (base va + (filesz + va % pageSize)) - base va

example : pages 0x800ff0 0x20 = 0x2000 := by decide +kernel

def behind (t : Table) (child : EnvId) (va memsz filesz : UInt64) (perm : UInt32) (w : World) : Except Stop World :=
  if memsz + va % pageSize > pages va filesz then
    call t (.allocRegion child (base va + pages va filesz) (memsz + va % pageSize - pages va filesz) perm) w
  else .ok w

def readPart (F : File) (t : Table) (parent : ℕ) (child : EnvId) (va filesz : UInt64) (fileoffset : ℕ) (perm : UInt32)
    (w : World) : Except Stop World := do
  let w ← call t (.allocRegion 0 utemp (pages va filesz) (protR ||| protW)) w
  keepsText (pages va filesz)
  let w := { w with offset := fileoffset - (va % pageSize).toNat }
  let w ← run (fun w i => readn F parent (utemp.toNat + 0x1000 * i) 0x1000 0x1000 0 w) w
    (List.range ((pages va filesz).toNat / 0x1000))
  let w ← call t (.mapRegion 0 utemp child (base va) (pages va filesz) (perm ||| protLazy)) w
  call t (.unmapRegion 0 utemp (pages va filesz)) w

lemma mapSegment_eq (parent : ℕ) : mapSegment F t parent child va memsz filesz fileoffset perm w =
    behind t child va memsz filesz perm w >>= readPart F t parent child va filesz fileoffset perm := rfl

lemma toNat_rest (va : UInt64) : (va % pageSize).toNat = va.toNat % 0x1000 := by
  rw [UInt64.toNat_mod, toNat_pageSize]

lemma toNat_base (va : UInt64) : (base va).toNat = va.toNat - va.toNat % 0x1000 := toNat_roundDown va

lemma maxUserAddress_eq : maxUserAddress = 2 ^ 39 := rfl

namespace Segment

variable (h : Segment F va memsz filesz fileoffset perm)

include h

lemma toNat_memPart : (memsz + va % pageSize).toNat = memPart va memsz := by
  have hmax := maxUserAddress_eq
  have := h.user
  rw [UInt64.toNat_add, toNat_rest, memPart, add_comm]
  exact mod_eq_of_lt (by omega)

lemma toNat_pages : (pages va filesz).toNat = filePages va filesz := by
  have hmax := maxUserAddress_eq
  have huser := h.user
  have hsizes := h.sizes
  have hpart : (filesz + va % pageSize).toNat = filePart va filesz := by
    rw [UInt64.toNat_add, toNat_rest, filePart, add_comm]
    exact mod_eq_of_lt (by omega)
  have hbase := toNat_base va
  have hsum : (base va + (filesz + va % pageSize)).toNat = (base va).toNat + filePart va filesz := by
    rw [UInt64.toNat_add, hpart]
    refine mod_eq_of_lt ?_
    unfold filePart
    omega
  have hup := toNat_roundUp (a := base va + (filesz + va % pageSize)) (by
    rw [hsum]
    unfold filePart
    omega)
  have hle : base va ≤ roundUp (base va + (filesz + va % pageSize)) := by
    rw [UInt64.le_iff_toNat_le, hup]
    omega
  rw [pages, UInt64.toNat_sub_of_le _ _ hle, hup]
  unfold filePages
  omega

lemma filePages_le : filePages va filesz ≤ 2 ^ 40 := by
  have hmax := maxUserAddress_eq
  have := h.user
  have := h.sizes
  unfold filePages filePart
  omega

end Segment

lemma filePages_mod (va filesz : UInt64) : filePages va filesz % 0x1000 = 0 := mul_mod_left _ _

lemma filePages_pos : 0 < filePages va filesz ↔ 0 < filePart va filesz := by
  unfold filePages
  omega

lemma filePart_le (va filesz : UInt64) : filePart va filesz ≤ filePages va filesz := by
  unfold filePages
  omega

lemma setSpace_same (w : World) (space : ℕ) (m : Space) : (w.setSpace space m).spaces space = m := update_self ..

lemma setSpace_ne {u : ℕ} (w : World) (m : Space) (h : u ≠ space) : (w.setSpace space m).spaces u = w.spaces u :=
  update_of_ne h ..

lemma behind_eq (hseg : Segment F va memsz filesz fileoffset perm) (hc : envid2env t child true = .found (some c))
    (w : World) (hlt : filePages va filesz < memPart va memsz) :
    behind t child va memsz filesz perm w =
      if memPart va memsz % 0x1000 ≠ 0 then .error (.code (-1))
      else .ok (w.setSpace (spaceOf c) ((w.spaces (spaceOf c)).zero ((base va).toNat + filePages va filesz)
        (memPart va memsz - filePages va filesz))) := by
  have hmax := maxUserAddress_eq
  have hmod := filePages_mod va filesz
  have hbase := toNat_base va
  have huser := hseg.user
  have hmem := hseg.toNat_memPart
  have hpages := hseg.toNat_pages
  have hgt : memsz + va % pageSize > pages va filesz := by
    change pages va filesz < memsz + va % pageSize
    rw [UInt64.lt_iff_toNat_lt, hmem, hpages]
    exact hlt
  have hsize : (memsz + va % pageSize - pages va filesz).toNat = memPart va memsz - filePages va filesz := by
    rw [UInt64.toNat_sub_of_le _ _ (UInt64.le_iff_toNat_le.mpr (UInt64.lt_iff_toNat_lt.mp hgt).le), hmem, hpages]
  have haddr : (base va + pages va filesz).toNat = (base va).toNat + filePages va filesz := by
    rw [UInt64.toNat_add, hpages]
    refine mod_eq_of_lt ?_
    unfold memPart at hlt
    omega
  have hle : (base va + pages va filesz).toNat ≤ maxUserAddress := by
    unfold memPart at hlt
    omega
  rw [behind, if_pos hgt, call_alloc hc (by rw [haddr]; omega) hle hseg.perm, hsize, haddr]
  by_cases hpart : memPart va memsz % 0x1000 = 0
  · rw [if_neg (by omega), if_neg (not_not.mpr hpart)]
  · rw [if_pos (.inl (by omega)), if_pos hpart]

lemma behind_none (hseg : Segment F va memsz filesz fileoffset perm) (w : World)
    (hle : memPart va memsz ≤ filePages va filesz) : behind t child va memsz filesz perm w = .ok w := by
  refine if_neg ?_
  change ¬pages va filesz < memsz + va % pageSize
  rw [UInt64.lt_iff_toNat_lt, hseg.toNat_memPart, hseg.toNat_pages]
  exact not_lt.mpr hle

lemma toNat_utemp : utemp.toNat = 0x400000 := rfl

section

variable (hseg : Segment F va memsz filesz fileoffset perm)
include hseg

lemma alloc_utemp (hp : envid2env t 0 true = .found (some p)) (hsome : 0 < filePart va filesz) (w : World) :
    call t (.allocRegion 0 utemp (pages va filesz) (protR ||| protW)) w =
      .ok (w.setSpace (spaceOf p) ((w.spaces (spaceOf p)).zero utemp.toNat (filePages va filesz))) := by
  have hpos := filePages_pos.mpr hsome
  have hmod := filePages_mod va filesz
  rw [call_alloc hp (by decide) (by decide) (by decide), hseg.toNat_pages, if_neg (by omega)]

lemma keepsText_eq :
    keepsText (pages va filesz) = if 0x400000 < filePages va filesz then .error .fault else .ok () := by
  have hle := hseg.filePages_le
  have hsum : (utemp + pages va filesz).toNat = 0x400000 + filePages va filesz := by
    rw [UInt64.toNat_add, toNat_utemp, hseg.toNat_pages]
    exact mod_eq_of_lt (by omega)
  have hiff : utext < utemp + pages va filesz ↔ 0x400000 < filePages va filesz := by
    rw [UInt64.lt_iff_toNat_lt, hsum, show utext.toNat = 0x800000 from rfl]
    omega
  unfold keepsText
  by_cases hlt : 0x400000 < filePages va filesz
  · rw [if_pos (hiff.mpr hlt), if_pos hlt]
  · rw [if_neg fun h => hlt (hiff.mp h), if_neg hlt]

lemma base_lt (hsome : 0 < filePart va filesz) : (base va).toNat < maxUserAddress := by
  have := hseg.user
  have := hseg.sizes
  unfold filePart at hsome
  rw [toNat_base]
  omega

end

section

variable (hfam : Family t p c child)
include hfam

section

variable (hseg : Segment F va memsz filesz fileoffset perm)
include hseg

/-- **The pages with bytes of the file** come to the child as they are in the file. -/
lemma readPart_ok (hsome : 0 < filePart va filesz) (hroom : filePages va filesz ≤ 0x400000) (w : World) :
    ∃ w', readPart F t (spaceOf p) child va filesz fileoffset perm w = .ok w' ∧
      (∀ x < filePages va filesz, w'.spaces (spaceOf c) ((base va).toNat + x) =
        some (F.byte (fileoffset - va.toNat % 0x1000 + x))) ∧
      ∀ a, ¬In (base va).toNat (filePages va filesz) a → w'.spaces (spaceOf c) a = w.spaces (spaceOf c) a := by
  have hne : spaceOf c ≠ spaceOf p := fun h => hfam.ne (Fin.ext (succ.inj h))
  have hpos := filePages_pos.mpr hsome
  have hmod := filePages_mod va filesz
  have hbase := toNat_base va
  have hpages := hseg.toNat_pages
  have hstart : fileoffset - va.toNat % 0x1000 ≤ F.size := by
    have := hseg.file
    omega
  set w₁ := w.setSpace (spaceOf p) ((w.spaces (spaceOf p)).zero utemp.toNat (filePages va filesz)) with hw₁
  have hempty : Filled F (spaceOf p) utemp.toNat (filePages va filesz) (fileoffset - va.toNat % 0x1000) 0 w₁
      { w₁ with offset := fileoffset - va.toNat % 0x1000 } := by
    refine ⟨fun x hx => ?_, fun _ _ => rfl, by dsimp only; omega⟩
    rw [hw₁, setSpace_same, zero_in ⟨le_add_right _ _, by omega⟩, if_neg (not_lt_zero x)]
  obtain ⟨w₂, hrun, hfilled⟩ := run_readn_filled hstart (k := filePages va filesz / 0x1000) (by omega) hempty
  rw [Nat.mul_div_cancel' (Nat.dvd_of_mod_eq_zero hmod)] at hfilled
  have hchild : w₂.spaces (spaceOf c) = w.spaces (spaceOf c) := by
    rw [hfilled.others _ hne, hw₁, setSpace_ne _ _ hne]
  -- the child shares the pages, and then they are no longer at `UTEMP`
  set w₃ := w₂.setSpace (spaceOf c) ((w₂.spaces (spaceOf c)).share (w₂.spaces (spaceOf p)) (base va).toNat utemp.toNat
    (filePages va filesz)) with hw₃
  refine ⟨w₃.setSpace (spaceOf p) ((w₃.spaces (spaceOf p)).unmap utemp.toNat (filePages va filesz)), ?_,
    fun x hx => ?_, fun a ha => ?_⟩
  · unfold readPart
    rw [alloc_utemp hseg hfam.parent hsome, ok_bind, keepsText_eq hseg, if_neg (not_lt.mpr hroom), ok_bind]
    dsimp only
    rw [toNat_rest, hpages, hrun, ok_bind, call_map hfam.parent hfam.child (by omega) (base_lt hseg hsome)
      (by rw [hpages]; exact hmod) (by omega) hseg.perm, ok_bind, call_unmap hfam.parent, hpages]
  · rw [setSpace_ne _ _ hne, hw₃, setSpace_same]
    refine share_in ⟨le_add_right _ _, by omega⟩ ?_
    rw [Nat.add_sub_cancel_left, hfilled.bytes x hx, if_pos hx]
  · rw [setSpace_ne _ _ hne, hw₃, setSpace_same, share_out ha, hchild]

lemma readPart_fails (hno : ¬(0 < filePart va filesz ∧ filePages va filesz ≤ 0x400000)) (w w' : World) :
    readPart F t (spaceOf p) child va filesz fileoffset perm w ≠ .ok w' := by
  unfold readPart
  by_cases hsome : 0 < filePart va filesz
  · have hroom : 0x400000 < filePages va filesz := not_le.mp fun hle => hno ⟨hsome, hle⟩
    rw [alloc_utemp hseg hfam.parent hsome, ok_bind, keepsText_eq hseg, if_pos hroom]
    exact nofun
  · have hzero : filePages va filesz = 0 := Nat.eq_zero_of_not_pos fun hpos => hsome (filePages_pos.mp hpos)
    rw [call_alloc hfam.parent (by decide) (by decide) (by decide), hseg.toNat_pages, if_pos (.inr hzero)]
    exact nofun

lemma mapSegment_ok (hsome : 0 < filePart va filesz) (hroom : filePages va filesz ≤ 0x400000)
    (hwhole : memPart va memsz ≤ filePages va filesz ∨ memPart va memsz % 0x1000 = 0) (w : World) :
    ∃ w', mapSegment F t (spaceOf p) child va memsz filesz fileoffset perm w = .ok w' ∧
      (∀ x < filePages va filesz, w'.spaces (spaceOf c) ((base va).toNat + x) =
        some (F.byte (fileoffset - va.toNat % 0x1000 + x))) ∧
      ∀ x, filePages va filesz ≤ x → x < memPart va memsz → w'.spaces (spaceOf c) ((base va).toNat + x) = some 0 := by
  rw [mapSegment_eq]
  rcases lt_or_ge (filePages va filesz) (memPart va memsz) with hlt | hge
  · have hpart := hwhole.resolve_left (not_le.mpr hlt)
    rw [behind_eq hseg hfam.child w hlt, if_neg (not_not.mpr hpart), ok_bind]
    obtain ⟨w', hw', hbytes, hrest⟩ := readPart_ok hfam hseg hsome hroom
      (w.setSpace (spaceOf c) ((w.spaces (spaceOf c)).zero ((base va).toNat + filePages va filesz)
        (memPart va memsz - filePages va filesz)))
    refine ⟨w', hw', hbytes, fun x hge hx => ?_⟩
    rw [hrest _ fun hin => by have := hin.2; omega, setSpace_same]
    exact zero_in ⟨by omega, by omega⟩
  · rw [behind_none hseg w hge, ok_bind]
    obtain ⟨w', hw', hbytes, -⟩ := readPart_ok hfam hseg hsome hroom w
    exact ⟨w', hw', hbytes, fun x hlo hhi => by omega⟩

lemma of_mapSegment_ok (h : mapSegment F t (spaceOf p) child va memsz filesz fileoffset perm w = .ok w') :
    0 < filePart va filesz ∧ filePages va filesz ≤ 0x400000 ∧
      (memPart va memsz ≤ filePages va filesz ∨ memPart va memsz % 0x1000 = 0) := by
  rw [mapSegment_eq] at h
  obtain ⟨w₁, hw₁, h⟩ := Jos.CArray.bind_eq_ok.mp h
  have hread : 0 < filePart va filesz ∧ filePages va filesz ≤ 0x400000 := by
    by_contra hno
    exact readPart_fails hfam hseg hno w₁ w' h
  refine ⟨hread.1, hread.2, ?_⟩
  by_contra hwhole
  rw [not_or, not_le] at hwhole
  rw [behind_eq hseg hfam.child w hwhole.1, if_pos hwhole.2] at hw₁
  cases hw₁

end

end

/-- **A segment is given to the child**, with its bytes of the file and its zeros, exactly if it has bytes
in the file (or does not begin with a page), no more than there is room for, it ends with its part of
the file or with a page, and on the last page of this part the file has zeros where the segment has. -/
theorem map_segment_gives_iff (hfam : Family t p c child) (hseg : Segment F va memsz filesz fileoffset perm) (w : World) :
    (∃ w', mapSegment F t (spaceOf p) child va memsz filesz fileoffset perm w = .ok w' ∧
      Given F va memsz filesz fileoffset (w'.spaces (spaceOf c))) ↔ Fine F va memsz filesz fileoffset := by
  have hbase := toNat_base va
  have hoffset := hseg.offset
  have hpart := filePart_le va filesz
  -- a place in the segment, from the beginning of its first page
  have hplace : ∀ k, va.toNat + k = (base va).toNat + (va.toNat % 0x1000 + k) := fun k => by omega
  have hfile : ∀ k, fileoffset - va.toNat % 0x1000 + (va.toNat % 0x1000 + k) = fileoffset + k := fun k => by
    omega
  constructor
  · rintro ⟨w', hw', hgiven⟩
    obtain ⟨hsome, hroom, hwhole⟩ := of_mapSegment_ok hfam hseg hw'
    refine ⟨hsome, hroom, hwhole, fun k hge hlt hpage => ?_⟩
    obtain ⟨w'', hw'', hbytes, -⟩ := mapSegment_ok hfam hseg hsome hroom hwhole w
    obtain rfl : w' = w'' := Except.ok.inj (hw'.symm.trans hw'')
    have hzero := hgiven.zeros k hge hlt
    rw [hplace, hbytes _ hpage, hfile] at hzero
    exact Option.some.inj hzero
  · intro hfine
    obtain ⟨w', hw', hbytes, hzeros⟩ := mapSegment_ok hfam hseg hfine.some hfine.room hfine.whole w
    refine ⟨w', hw', fun k hk => ?_, fun k hge hlt => ?_⟩
    · rw [hplace, hbytes _ (by unfold filePart at hpart; omega), hfile, File.byte,
        if_pos (by have := hseg.file; omega)]
    · rw [hplace]
      rcases lt_or_ge (va.toNat % 0x1000 + k) (filePages va filesz) with hpage | hpage
      · rw [hbytes _ hpage, hfile, hfine.tail k hge hlt hpage]
      · exact hzeros _ hpage (by unfold memPart; omega)

def parentAndChild : Table :=
  { (envInit.modify firstSlot ({ · with id := 0x1000, status := .running })).modify secondSlot
      ({ · with id := 0x1001, parentId := 0x1000, status := .notRunnable }) with curenv := some firstSlot }

lemma parentAndChild_family : Family parentAndChild 0 1 0x1001 := ⟨by decide, by decide, by decide⟩

def sameBytes (b : UInt8) (size : ℕ) : File where
  bytes := fun _ => b
  size := size
  count := fun o n => min n (size - o)
  count_le := fun _ _ => le_rfl
  count_pos := fun _ _ hn ho => lt_min hn (Nat.sub_pos_of_lt ho)

def emptyWorld : World := ⟨fun _ => empty, 0⟩

/-- A page of the file and one of zeros -/
theorem map_segment_gives_two_pages :
    ∃ w', mapSegment (sameBytes 0xff 0x1800) parentAndChild 1 0x1001 0x800000 0x2000 0x1000 0 protR emptyWorld = .ok w' ∧
      Given (sameBytes 0xff 0x1800) 0x800000 0x2000 0x1000 0 (w'.spaces 2) := by
  have hseg : Segment (sameBytes 0xff 0x1800) 0x800000 0x2000 0x1000 0 protR :=
    ⟨by decide, by decide, by decide, by decide, by decide, by decide⟩
  refine (map_segment_gives_iff parentAndChild_family hseg emptyWorld).mpr
    ⟨by decide, by decide, by decide, fun k hge _ hlt => ?_⟩
  have hlt' : k < 0x1000 := by rwa [show filePages 0x800000 0x1000 = 0x1000 by decide,
    show ((0x800000 : UInt64).toNat % 0x1000) = 0 by decide, zero_add] at hlt
  exact absurd hge (not_le.mpr hlt')

/-- Four bytes of a longer file, and four zeros: the child gets four more bytes of the file. Four bytes and
the zeros of a page: the call fails. -/
theorem zeros_not_given :
    Family parentAndChild 0 1 0x1001 ∧
      (Segment (sameBytes 0xff 8) 0x800000 8 4 0 protR ∧
        ∃ w', mapSegment (sameBytes 0xff 8) parentAndChild 1 0x1001 0x800000 8 4 0 protR emptyWorld = .ok w' ∧
          w'.spaces 2 0x800004 = some 0xff ∧ ¬Given (sameBytes 0xff 8) 0x800000 8 4 0 (w'.spaces 2)) ∧
      (Segment (sameBytes 0xff 8) 0x800000 0x1004 4 0 protR ∧
        mapSegment (sameBytes 0xff 8) parentAndChild 1 0x1001 0x800000 0x1004 4 0 protR emptyWorld =
          .error (.code (-1))) := by
  have hfam := parentAndChild_family
  have hseg : Segment (sameBytes 0xff 8) 0x800000 8 4 0 protR :=
    ⟨by decide, by decide, by decide, by decide, by decide, by decide⟩
  have hseg' : Segment (sameBytes 0xff 8) 0x800000 0x1004 4 0 protR :=
    ⟨by decide, by decide, by decide, by decide, by decide, by decide⟩
  refine ⟨hfam, ⟨hseg, ?_⟩, hseg', ?_⟩
  · obtain ⟨w', hw', hbytes, -⟩ := mapSegment_ok hfam hseg (by decide) (by decide) (by decide) emptyWorld
    have hbyte : w'.spaces 2 0x800004 = some 0xff := hbytes 4 (by decide)
    refine ⟨w', hw', hbyte, fun hgiven => ?_⟩
    have hzero := hgiven.zeros 4 (by decide) (by decide)
    cases hbyte.symm.trans hzero
  · rw [mapSegment_eq, behind_eq hseg' hfam.child emptyWorld (by decide), if_pos (by decide)]
    rfl

end Jos.MapSegment
