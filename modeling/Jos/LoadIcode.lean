import Mathlib.Data.List.Pairwise
import Jos.ByteSpace
import Jos.ByteMem
import Jos.KernHeap
import Jos.CArray

/-!
`load_icode`: the segments of a program are put into the memory of a new environment.

For every entry of the table of segments, what is asked is the type of the first one. So if this is
to be loaded all are, one over the other if need be, and else none is.
-/

namespace Jos.LoadIcode

open ByteSpace ByteSpace.Space ByteMem Runs List Option
open KernHeap (pageSize roundDown roundUp toNat_roundDown toNat_roundUp toNat_pageSize)
open CArray (ok_bind)

def le (b : Bytes) : ℕ → ℕ → ℕ
  | 0, _ => 0
  | n + 1, o => (b o).toNat + 256 * le b n (o + 1)

/-- `struct Proghdr`, as far as it is used -/
structure Proghdr where
  type : UInt32
  offset : UInt64
  va : UInt64
  filesz : UInt64
  memsz : UInt64
  deriving DecidableEq, Repr

def Proghdr.read (b : Bytes) (o : ℕ) : Proghdr where
  type := UInt32.ofNat (le b 4 o)
  offset := UInt64.ofNat (le b 8 (o + 8))
  va := UInt64.ofNat (le b 8 (o + 16))
  filesz := UInt64.ofNat (le b 8 (o + 32))
  memsz := UInt64.ofNat (le b 8 (o + 40))

def eMagic (b : Bytes) : UInt32 := UInt32.ofNat (le b 4 0)
def eEntry (b : Bytes) : UInt64 := UInt64.ofNat (le b 8 24)
def ePhoff (b : Bytes) : UInt64 := UInt64.ofNat (le b 8 32)
def ePhnum (b : Bytes) : UInt16 := UInt16.ofNat (le b 2 56)

def elfMagic : UInt32 := 0x464C457F
def elfProgLoad : UInt32 := 1

/-- `ph[i]`; an entry has 56 bytes -/
def header (b : Bytes) (i : ℕ) : Proghdr := .read b ((ePhoff b).toNat + 56 * i)

def headers (b : Bytes) : List Proghdr := (List.range (ePhnum b).toNat).map (header b)

inductive Failure
  | invalidExe
  /-- the kernel writes to where there is no page -/
  | pageFault
  deriving DecidableEq, Repr

/-- `map_region` with `ALLOC_ZERO`; what it returns is not looked at. -/
def mapZero (m : Space) (lo size : UInt64) : Space :=
  if size % pageSize ≠ 0 ∨ size = 0 then m else m.zero lo.toNat size.toNat

/-- `memcpy` from the image and `memset` -/
def copyTo (m : Space) (lo size : UInt64) (f : ℕ → UInt8) : Except Failure Space :=
  if m.Mapped lo.toNat size.toNat then .ok (m.store lo.toNat size.toNat f) else .error .pageFault

/-- A round of the loop; `first` is what `ph` points to. -/
def loadHeader (b : Bytes) (first : Proghdr) (m : Space) (ph : Proghdr) : Except Failure Space :=
  if first.type = elfProgLoad then do
    let start := roundDown ph.va
    let fin := roundUp (ph.va + ph.memsz)
    let m ← copyTo (mapZero m start (fin - start)) ph.va ph.filesz fun i => b (ph.offset.toNat + i)
    if first.filesz < first.memsz then copyTo m (ph.va + ph.filesz) (ph.memsz - ph.filesz) fun _ => 0
    else .ok m
  else .ok m

def userStackTop : UInt64 := 0x7fffff7000
def userStackSize : UInt64 := 0x10000

def loadIcode (b : Bytes) : Except Failure (Space × UInt64) :=
  if eMagic b ≠ elfMagic then .error .invalidExe
  else do
    let m ← run (loadHeader b (header b 0)) Space.empty (headers b)
    .ok (mapZero m (userStackTop - userStackSize) userStackSize, eEntry b)

def maxUserAddress : ℕ := 0x8000000000

namespace Proghdr

variable (ph : Proghdr)

def IsLoad : Prop := ph.type = elfProgLoad
  deriving Decidable

def OnPages (a : ℕ) : Prop :=
  ph.va.toNat / 0x1000 * 0x1000 ≤ a ∧ a < (ph.va.toNat + ph.memsz.toNat + 0xfff) / 0x1000 * 0x1000
  deriving Decidable

def Has (a : ℕ) : Prop := In ph.va.toNat ph.memsz.toNat a

def byteAt (b : Bytes) (a : ℕ) : UInt8 :=
  if In ph.va.toNat ph.filesz.toNat a then b (ph.offset.toNat + (a - ph.va.toNat)) else 0

end Proghdr

def OnStack (a : ℕ) : Prop := In (userStackTop - userStackSize).toNat userStackSize.toNat a
  deriving Decidable

/-- An image of a program for a user; segments that are to be loaded have no page in common. -/
structure WellFormed (b : Bytes) : Prop where
  magic : eMagic b = elfMagic
  sizes : ∀ ph ∈ headers b, ph.filesz.toNat ≤ ph.memsz.toNat
  user : ∀ ph ∈ headers b, ph.va.toNat + ph.memsz.toNat ≤ maxUserAddress
  apart : (headers b).Pairwise fun p q => p.IsLoad → q.IsLoad → ∀ a, p.OnPages a → ¬q.OnPages a

/-- **The program is in memory**, and nothing else is. -/
structure Loaded (b : Bytes) (m : Space) : Prop where
  segments : ∀ ph ∈ headers b, ph.IsLoad → ∀ a, ph.Has a → m a = some (ph.byteAt b a)
  only : ∀ a, m a ≠ none → OnStack a ∨ ∃ ph ∈ headers b, ph.IsLoad ∧ ph.OnPages a

def lastOn (a : ℕ) : List Proghdr → Option Proghdr
  | [] => none
  | ph :: phs => (lastOn a phs).or (if ph.OnPages a then some ph else none)

/-- All segments can be loaded in order: no page is one of the others alone, and where a page is loaded
again, the bytes of those that are to be loaded stay. The stack comes last. -/
structure Harmless (b : Bytes) : Prop where
  pages : ∀ ph ∈ headers b, ∀ a, ph.OnPages a → OnStack a ∨ ∃ q ∈ headers b, q.IsLoad ∧ q.OnPages a
  bytes : ∀ ph ∈ headers b, ph.IsLoad → ∀ a, ph.Has a → ¬OnStack a →
    ∀ q, lastOn a (headers b) = some q → q.byteAt b a = ph.byteAt b a
  stack : ∀ ph ∈ headers b, ph.IsLoad → ∀ a, ph.Has a → OnStack a → ph.byteAt b a = 0

def Nothing (b : Bytes) : Prop :=
  ∀ ph ∈ headers b, ph.IsLoad → ∀ a, ph.Has a → OnStack a ∧ ph.byteAt b a = 0

variable {b : Bytes} {m : Space} {ph first : Proghdr} {a : ℕ} {phs : List Proghdr}

def Proghdr.over (b : Bytes) (ph : Proghdr) (m : Space) : Space :=
  fun a => if ph.OnPages a then some (ph.byteAt b a) else m a

def Proghdr.Fits (ph : Proghdr) : Prop :=
  ph.filesz.toNat ≤ ph.memsz.toNat ∧ ph.va.toNat + ph.memsz.toNat ≤ maxUserAddress

lemma maxUserAddress_eq : maxUserAddress = 2 ^ 39 := rfl

lemma toNat_end (h : ph.Fits) : (ph.va + ph.memsz).toNat = ph.va.toNat + ph.memsz.toNat := by
  have hmax := maxUserAddress_eq
  have := h.2
  rw [UInt64.toNat_add]
  exact Nat.mod_eq_of_lt (by omega)

lemma mapZero_pages (h : ph.Fits) (m : Space) (a : ℕ) :
    mapZero m (roundDown ph.va) (roundUp (ph.va + ph.memsz) - roundDown ph.va) a =
      if ph.OnPages a then some 0 else m a := by
  have hmax := maxUserAddress_eq
  have hend := toNat_end h
  have hfit := h.2
  have hlo := toNat_roundDown ph.va
  have hhi := toNat_roundUp (a := ph.va + ph.memsz) (by omega)
  have hle : roundDown ph.va ≤ roundUp (ph.va + ph.memsz) := by
    rw [UInt64.le_iff_toNat_le]
    omega
  have hsize := UInt64.toNat_sub_of_le _ _ hle
  have hiff : In (roundDown ph.va).toNat (roundUp (ph.va + ph.memsz) - roundDown ph.va).toNat a ↔ ph.OnPages a := by
    unfold In Proghdr.OnPages
    omega
  unfold mapZero
  split
  · next hbad =>
    have hzero : (roundUp (ph.va + ph.memsz) - roundDown ph.va).toNat = 0 := by
      rcases hbad with hbad | hbad
      · refine absurd ?_ hbad
        rw [← UInt64.toNat_inj, UInt64.toNat_mod, toNat_pageSize, hsize]
        change _ = 0
        omega
      · rw [hbad]
        rfl
    rw [if_neg fun hon => ?_]
    have hin := hiff.mpr hon
    unfold In at hin
    omega
  · by_cases hon : ph.OnPages a
    · rw [if_pos hon, zero_in (hiff.mpr hon)]
    · rw [if_neg hon, zero_out fun hin => hon (hiff.mp hin)]

lemma Proghdr.Has.onPages (h : ph.Has a) : ph.OnPages a := by
  unfold Proghdr.Has In at h
  unfold Proghdr.OnPages
  omega

lemma copyTo_ok {lo size : UInt64} {f : ℕ → UInt8} (h : m.Mapped lo.toNat size.toNat) :
    copyTo m lo size f = .ok (m.store lo.toNat size.toNat f) := if_pos h

/-- **A segment is loaded**, of whatever type, if the first one is to be loaded. -/
lemma loadHeader_load (hfirst : first.IsLoad) (h : ph.Fits) (m : Space) :
    loadHeader b first m ph = .ok (ph.over b m) := by
  have hmax := maxUserAddress_eq
  obtain ⟨hfile, huser⟩ := h
  have hpages := mapZero_pages ⟨hfile, huser⟩ m
  set m₁ := mapZero m (roundDown ph.va) (roundUp (ph.va + ph.memsz) - roundDown ph.va) with hm₁
  have hmapped : ∀ a, In ph.va.toNat ph.memsz.toNat a → m₁ a ≠ none := fun a ha => by
    rw [hpages, if_pos (Proghdr.Has.onPages ha)]
    exact some_ne_none 0
  have hbytes : m₁.store ph.va.toNat ph.filesz.toNat (fun i => b (ph.offset.toNat + i)) = ph.over b m := by
    funext a
    unfold Proghdr.over Proghdr.byteAt
    by_cases hin : In ph.va.toNat ph.filesz.toNat a
    · have hhas : ph.Has a := ⟨hin.1, by have := hin.2; omega⟩
      rw [store_in hin, if_pos hhas.onPages, if_pos hin]
    · rw [store_out hin, hpages, if_neg hin]
  unfold loadHeader
  rw [if_pos (show first.type = elfProgLoad from hfirst)]
  dsimp only
  rw [← hm₁, copyTo_ok (mapped_of_in hmapped le_rfl (by omega)), ok_bind, hbytes]
  split
  swap
  · rfl
  -- behind the bytes of the image there are zeros already
  have hlo : (ph.va + ph.filesz).toNat = ph.va.toNat + ph.filesz.toNat := by
    rw [UInt64.toNat_add]
    exact Nat.mod_eq_of_lt (by omega)
  have hlen : (ph.memsz - ph.filesz).toNat = ph.memsz.toNat - ph.filesz.toNat :=
    UInt64.toNat_sub_of_le _ _ (UInt64.le_iff_toNat_le.mpr hfile)
  have hover : ∀ a, In ph.va.toNat ph.memsz.toNat a → ph.over b m a ≠ none := fun a ha => by
    rw [Proghdr.over, if_pos (Proghdr.Has.onPages ha)]
    exact some_ne_none _
  rw [copyTo_ok (by rw [hlo, hlen]; exact mapped_of_in hover (by omega) (by omega)), hlo, hlen]
  refine congrArg Except.ok (funext fun a => ?_)
  by_cases hin : In (ph.va.toNat + ph.filesz.toNat) (ph.memsz.toNat - ph.filesz.toNat) a
  · have hhas : ph.Has a := by
      unfold In at hin
      unfold Proghdr.Has In
      omega
    rw [store_in hin, Proghdr.over, if_pos hhas.onPages, Proghdr.byteAt, if_neg]
    unfold In at hin ⊢
    omega
  · exact store_out hin

lemma run_load (hfirst : first.IsLoad) (hfits : ∀ ph ∈ phs, ph.Fits) (m : Space) :
    run (loadHeader b first) m phs = .ok fun a => ((lastOn a phs).map (·.byteAt b a)).or (m a) := by
  induction phs generalizing m with
  | nil => rfl
  | cons ph phs ih =>
    rw [run_cons_ok (loadHeader_load hfirst (hfits ph mem_cons_self) m),
      ih fun q hq => hfits q (mem_cons_of_mem ph hq)]
    congr 1
    funext a
    rw [lastOn]
    cases lastOn a phs with
    | some q => rfl
    | none =>
      rw [none_or, map_none, none_or, Proghdr.over]
      split <;> rfl

lemma run_noLoad (hfirst : ¬first.IsLoad) (m : Space) : run (loadHeader b first) m phs = .ok m := by
  induction phs with
  | nil => rfl
  | cons ph phs ih => rw [run_cons_ok (if_neg hfirst), ih]

lemma lastOn_spec {q : Proghdr} (h : lastOn a phs = some q) : q ∈ phs ∧ q.OnPages a := by
  induction phs with
  | nil => cases h
  | cons ph phs ih =>
    rw [lastOn] at h
    cases hlast : lastOn a phs with
    | some q' =>
      rw [hlast, some_or] at h
      obtain rfl := some.inj h
      obtain ⟨hmem, hon⟩ := ih hlast
      exact ⟨mem_cons_of_mem ph hmem, hon⟩
    | none =>
      rw [hlast, none_or] at h
      split at h
      · next hon =>
        obtain rfl := some.inj h
        exact ⟨mem_cons_self, hon⟩
      · cases h

lemma lastOn_none (h : lastOn a phs = none) (hmem : ph ∈ phs) : ¬ph.OnPages a := by
  induction phs with
  | nil => exact absurd hmem not_mem_nil
  | cons p phs ih =>
    rw [lastOn, or_eq_none_iff] at h
    rcases mem_cons.mp hmem with rfl | hmem
    · intro hon
      rw [if_pos hon] at h
      cases h.2
    · exact ih h.1 hmem

lemma WellFormed.fits (h : WellFormed b) (hmem : ph ∈ headers b) : ph.Fits := ⟨h.sizes ph hmem, h.user ph hmem⟩

lemma loaded_iff_harmless :
    Loaded b (fun a => if OnStack a then some 0 else (lastOn a (headers b)).map (·.byteAt b a)) ↔ Harmless b := by
  have hlast : ∀ ph ∈ headers b, ∀ a, ph.OnPages a → ∃ q, lastOn a (headers b) = some q := by
    intro ph hmem a hon
    cases h : lastOn a (headers b) with
    | none => exact absurd hon (lastOn_none h hmem)
    | some q => exact ⟨q, rfl⟩
  constructor
  · intro h
    refine ⟨fun ph hmem a hon => ?_, fun ph hmem hload a hhas hout q hq => ?_, fun ph hmem hload a hhas hin => ?_⟩
    · by_cases hstack : OnStack a
      · exact .inl hstack
      obtain ⟨q, hq⟩ := hlast ph hmem a hon
      refine h.only a ?_
      rw [if_neg hstack, hq]
      exact some_ne_none _
    · have hbyte := h.segments ph hmem hload a hhas
      rw [if_neg hout, hq] at hbyte
      exact some.inj hbyte
    · have hbyte := h.segments ph hmem hload a hhas
      rw [if_pos hin] at hbyte
      exact (some.inj hbyte).symm
  · intro h
    refine ⟨fun ph hmem hload a hhas => ?_, fun a ha => ?_⟩
    · by_cases hstack : OnStack a
      · rw [if_pos hstack, h.stack ph hmem hload a hhas hstack]
      · obtain ⟨q, hq⟩ := hlast ph hmem a hhas.onPages
        rw [if_neg hstack, hq, map_some, h.bytes ph hmem hload a hhas hstack q hq]
    · by_cases hstack : OnStack a
      · exact .inl hstack
      rw [if_neg hstack] at ha
      cases hq : lastOn a (headers b) with
      | none =>
        rw [hq] at ha
        exact absurd rfl ha
      | some q => exact h.pages q (lastOn_spec hq).1 a (lastOn_spec hq).2

lemma loaded_iff_nothing : Loaded b (fun a => if OnStack a then some 0 else none) ↔ Nothing b := by
  constructor
  · intro h ph hmem hload a hhas
    have hbyte := h.segments ph hmem hload a hhas
    by_cases hstack : OnStack a
    · rw [if_pos hstack] at hbyte
      exact ⟨hstack, (some.inj hbyte).symm⟩
    · rw [if_neg hstack] at hbyte
      cases hbyte
  · intro h
    refine ⟨fun ph hmem hload a hhas => ?_, fun a ha => .inl ?_⟩
    · obtain ⟨hstack, hzero⟩ := h ph hmem hload a hhas
      rw [if_pos hstack, hzero]
    · by_contra hstack
      rw [if_neg hstack] at ha
      exact ha rfl

/-- **A well-formed program is loaded**, and nothing else is, exactly if the first segment of the table is
to be loaded and to load all of them does no harm, or it is not and there is nothing to load. -/
theorem load_icode_loads_iff (h : WellFormed b) :
    ∃ m, loadIcode b = .ok (m, eEntry b) ∧
      (Loaded b m ↔ (header b 0).IsLoad ∧ Harmless b ∨ ¬(header b 0).IsLoad ∧ Nothing b) := by
  have hfits : ∀ ph ∈ headers b, ph.Fits := fun ph hmem => h.fits hmem
  unfold loadIcode
  rw [if_neg (not_not.mpr h.magic)]
  by_cases hfirst : (header b 0).IsLoad
  · rw [run_load hfirst hfits, ok_bind]
    refine ⟨_, rfl, ?_⟩
    simp only [Space.empty, or_none, hfirst, true_and, not_true_eq_false, false_and, or_false]
    exact loaded_iff_harmless
  · rw [run_noLoad hfirst, ok_bind]
    refine ⟨_, rfl, ?_⟩
    simp only [hfirst, false_and, not_false_eq_true, true_and, false_or]
    exact loaded_iff_nothing

lemma WellFormed.harmless (h : WellFormed b) (hall : ∀ ph ∈ headers b, ph.IsLoad ∨ ∀ a, ¬ph.OnPages a)
    (hstack : ∀ ph ∈ headers b, ∀ a, ph.OnPages a → ¬OnStack a) : Harmless b where
  pages ph hmem a hon := .inr ⟨ph, hmem, (hall ph hmem).resolve_right fun hno => hno a hon, hon⟩
  bytes ph hmem hload a hhas _ q hq := by
    obtain ⟨hqmem, hqon⟩ := lastOn_spec hq
    have hqload := (hall q hqmem).resolve_right fun hno => hno a hqon
    by_contra hne
    have hsymm : Std.Symm fun p q : Proghdr => p.IsLoad → q.IsLoad → ∀ a, p.OnPages a → ¬q.OnPages a :=
      ⟨fun p q hpq hq hp a hqa hpa => hpq hp hq a hpa hqa⟩
    exact h.apart.forall hqmem hmem (fun he => hne (by rw [he])) hqload hload a hqon hhas.onPages
  stack ph hmem _ a hhas hin := absurd hin (hstack ph hmem a hhas.onPages)

def bytesLe : ℕ → ℕ → List UInt8
  | 0, _ => []
  | n + 1, v => UInt8.ofNat v :: bytesLe n (v / 256)

def proghdrBytes (type offset va filesz memsz : ℕ) : List UInt8 :=
  bytesLe 4 type ++ bytesLe 4 7 ++ bytesLe 8 offset ++ bytesLe 8 va ++ bytesLe 8 va ++ bytesLe 8 filesz ++
    bytesLe 8 memsz ++ bytesLe 8 0x1000

def image (entries : List UInt8) (o : ℕ) : UInt8 :=
  (bytesLe 4 0x464C457F ++ bytesLe 20 0 ++ bytesLe 8 0x800000 ++ bytesLe 8 64 ++ bytesLe 16 0 ++ bytesLe 2 2 ++
    bytesLe 6 0 ++ entries ++ [0x55, 0x48, 0x89, 0xe5]).getD o 0

def text : List UInt8 := proghdrBytes 1 176 0x800000 4 8

def gnuStack : List UInt8 := proghdrBytes 0x6474e551 0 0 0 0

def textHdr : Proghdr := ⟨1, 176, 0x800000, 4, 8⟩

def gnuStackHdr : Proghdr := ⟨0x6474e551, 0, 0, 0, 0⟩

lemma gnuStackHdr_noPages (a : ℕ) : ¬gnuStackHdr.OnPages a := by
  unfold Proghdr.OnPages
  rw [show gnuStackHdr.va.toNat = 0 from rfl, show gnuStackHdr.memsz.toNat = 0 from rfl]
  omega

lemma textHdr_notOnStack (a : ℕ) (h : textHdr.OnPages a) : ¬OnStack a := by
  unfold Proghdr.OnPages at h
  rw [show textHdr.va.toNat = 0x800000 from rfl, show textHdr.memsz.toNat = 8 from rfl] at h
  unfold OnStack In
  rw [show (userStackTop - userStackSize).toNat = 0x7ffffe7000 from by decide]
  omega

lemma wellFormed_two (hmagic : eMagic b = elfMagic)
    (hheaders : headers b = [textHdr, gnuStackHdr] ∨ headers b = [gnuStackHdr, textHdr]) : WellFormed b := by
  have hmem : ∀ ph ∈ headers b, ph = textHdr ∨ ph = gnuStackHdr := by
    rcases hheaders with h | h <;> simp [h, or_comm]
  refine ⟨hmagic, fun ph hph => ?_, fun ph hph => ?_, ?_⟩
  · rcases hmem ph hph with rfl | rfl <;> decide
  · rcases hmem ph hph with rfl | rfl <;> decide
  · rcases hheaders with h | h
    · rw [h, pairwise_pair]
      exact fun _ hload => absurd hload (by decide)
    · rw [h, pairwise_pair]
      exact fun hload => absurd hload (by decide)

lemma headers_text : headers (image (text ++ gnuStack)) = [textHdr, gnuStackHdr] := by decide

lemma headers_gnuStack : headers (image (gnuStack ++ text)) = [gnuStackHdr, textHdr] := by decide

theorem load_icode_loads_text :
    ∃ m, loadIcode (image (text ++ gnuStack)) = .ok (m, eEntry (image (text ++ gnuStack))) ∧
      Loaded (image (text ++ gnuStack)) m := by
  have hwf : WellFormed (image (text ++ gnuStack)) := wellFormed_two (by decide) (.inl headers_text)
  obtain ⟨m, hm, hiff⟩ := load_icode_loads_iff hwf
  refine ⟨m, hm, hiff.mpr (.inl ⟨by decide, hwf.harmless (fun ph hph => ?_) fun ph hph a hon => ?_⟩)⟩
  · rw [headers_text, mem_pair] at hph
    rcases hph with rfl | rfl
    · exact .inl rfl
    · exact .inr gnuStackHdr_noPages
  · rw [headers_text, mem_pair] at hph
    rcases hph with rfl | rfl
    · exact textHdr_notOnStack a hon
    · exact absurd hon (gnuStackHdr_noPages a)

/-- With the entries the other way round, nothing is loaded. -/
theorem text_not_loaded :
    WellFormed (image (gnuStack ++ text)) ∧ textHdr ∈ headers (image (gnuStack ++ text)) ∧ textHdr.IsLoad ∧
      textHdr.Has 0x800000 ∧
      ∃ m, loadIcode (image (gnuStack ++ text)) = .ok (m, eEntry (image (gnuStack ++ text))) ∧
        m 0x800000 = none ∧ ¬Loaded (image (gnuStack ++ text)) m := by
  have hmem : textHdr ∈ headers (image (gnuStack ++ text)) := by
    exact mem_cons_of_mem _ mem_cons_self
  have hhas : textHdr.Has 0x800000 := ⟨by decide, by decide⟩
  refine ⟨wellFormed_two (by decide) (.inr headers_gnuStack), hmem, rfl, hhas, ?_⟩
  have hnone : mapZero Space.empty (userStackTop - userStackSize) userStackSize 0x800000 = none := by
    rfl
  refine ⟨_, rfl, hnone, fun h => ?_⟩
  have hbyte := h.segments textHdr hmem rfl 0x800000 hhas
  cases hbyte

end Jos.LoadIcode
