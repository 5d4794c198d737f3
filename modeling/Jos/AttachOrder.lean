import Jos.PhysAttach
import Jos.Runs

/-!
What a sequence of attached regions makes of a page of 4 KB.

A region is attached in blocks that are as large as its place allows. A block that is not reserved
as a whole becomes memory of the type, also where parts of it were reserved before.
-/

namespace Jos.AttachOrder

open CArray Jos.Dyadic PmapModel Runs List Nat

structure Piece where
  addr : ℕ
  cls : ℕ
  deriving DecidableEq, Repr

/-- The loop of `attach_region` without the memory. -/
def pieces (fin : ℕ) : ℕ → ℕ → ℕ → List Piece
  | 0, _, _ => []
  | fuel + 1, iter, t =>
    if iter < fin then
      match growClass iter (fin - iter) (52 - t) t with
      | .ok (c + 1) => ⟨iter, c⟩ :: pieces fin fuel (iter + classSize c) 1
      | _ => []
    else []

def regionPieces (x : Region) : List Piece :=
  pieces (roundUp x.fin.toNat) ((roundUp x.fin.toNat - roundDown x.start.toNat) / classSize 0)
    (roundDown x.start.toNat) 0

def Piece.block (pc : Piece) : Path := toward maxClass (frameOf pc.addr) (maxClass - pc.cls)

/-- The page `i` of 4 KB is part of the block. -/
def Piece.Mem (pc : Piece) (i : ℕ) : Prop :=
  pc.addr ≤ i * classSize 0 ∧ i * classSize 0 < pc.addr + classSize pc.cls
  deriving Decidable

/-- A block of the memory the tree describes. -/
structure Piece.Ok (pc : Piece) : Prop where
  aligned : pc.addr % classSize pc.cls = 0
  fits : pc.addr + classSize pc.cls ≤ 2 ^ (maxClass + classBase)

variable {ext : Path → ℕ} {F : Set Path} {s s' : Phys} {type : PageState} {pc pc' : Piece}
  {r : Phys × Path} {i fin fuel iter t : ℕ}

lemma classSize_eq (c : ℕ) : classSize c = 2 ^ c * classSize 0 := by
  unfold classSize
  rw [zero_add, pow_add]

lemma classSize_zero_dvd (c : ℕ) : classSize 0 ∣ classSize c := ⟨2 ^ c, by rw [classSize_eq, mul_comm]⟩

lemma classSize_zero_le (c : ℕ) : classSize 0 ≤ classSize c := le_of_dvd (classSize_pos c) (classSize_zero_dvd c)

lemma aligned_add (h : iter % classSize 0 = 0) (c : ℕ) : (iter + classSize c) % classSize 0 = 0 :=
  Nat.mod_eq_zero_of_dvd (Nat.dvd_add (Nat.dvd_of_mod_eq_zero h) (classSize_zero_dvd c))

namespace Piece.Ok

section

variable (h : pc.Ok)
include h

lemma cls_le : pc.cls ≤ maxClass := by
  have h1 : classSize pc.cls ≤ 2 ^ (maxClass + classBase) := (le_add_left _ _).trans h.fits
  have h2 := (Nat.pow_le_pow_iff_right (by decide)).mp h1
  omega

lemma frame_lt : frameOf pc.addr + 2 ^ pc.cls ≤ 2 ^ maxClass := by
  have hfits := h.fits
  rw [classSize_eq, pow_add] at hfits
  unfold frameOf
  have hpos : 0 < 2 ^ classBase := Nat.two_pow_pos _
  rw [← add_mul_div_right _ _ hpos]
  refine Nat.div_le_of_le_mul ?_
  exact hfits

lemma addr_eq : pc.addr = frameOf pc.addr * classSize 0 := by
  exact (Nat.div_mul_cancel ((classSize_zero_dvd _).trans (Nat.dvd_of_mod_eq_zero h.aligned))).symm

lemma start_block : start maxClass pc.block = frameOf pc.addr := by
  have hlt := h.frame_lt
  have hpos := Nat.two_pow_pos pc.cls
  unfold Piece.block
  rw [start_toward _ (by omega) (Nat.sub_le _ _), Nat.sub_sub_self h.cls_le]
  refine Nat.div_mul_cancel ?_
  have hdvd := dvd_of_mod_eq_zero h.aligned
  rw [classSize_eq, h.addr_eq] at hdvd
  exact Nat.dvd_of_mul_dvd_mul_right (classSize_pos 0) hdvd

lemma covers_iff : Covers maxClass pc.block i ↔ pc.Mem i := by
  unfold Covers Piece.Mem
  rw [h.start_block, Piece.block, length_toward, Nat.sub_sub_self h.cls_le, classSize_eq pc.cls]
  have haddr := h.addr_eq
  generalize frameOf pc.addr = f at haddr
  rw [haddr, ← add_mul]
  have hpos := classSize_pos 0
  rw [Nat.mul_le_mul_right_iff hpos, Nat.mul_lt_mul_right hpos]

lemma lt_of_mem (hi : pc.Mem i) : i < 2 ^ maxClass := by
  have hc := h.covers_iff.mpr hi
  unfold Covers at hc
  rw [h.start_block, Piece.block, length_toward, Nat.sub_sub_self h.cls_le] at hc
  have := h.frame_lt
  omega

end

end Piece.Ok

def retyped (type : PageState) (old : Option PageState) : Option PageState :=
  if old = some .reserved then some .reserved else some type

lemma retyped_some (type t : PageState) :
    retyped type (some t) = some (if t = .reserved then .reserved else type) := by
  cases t <;> rfl

def Piece.Safe (type : PageState) (s : Phys) (pc : Piece) : Prop :=
  type = .reserved ∨ (∀ i, pc.Mem i → typeOf s i ≠ some .reserved) ∨ InReserved s pc.block

lemma hasType_of_inReserved (hs : Shape s) {p : Path} (hp : p.length ≤ maxClass)
    (hc : Covers maxClass p i) (h : InReserved s p) : HasType s i .reserved := by
  obtain ⟨q, n, hqp, hn, hst⟩ := h
  obtain ⟨l, m, hm, hl, hcl, -, hmst⟩ := hs.exists_leaf hn (covers_of_suffix hp hqp hc)
  exact ⟨l, m, hm, hl, hcl, (hmst (by rw [hst]; decide)).trans hst⟩

structure PieceAttached (ext : Path → ℕ) (F : Set Path) (type : PageState) (pc : Piece)
    (s s' : Phys) : Prop where
  inv : Inv ext F s'
  types : ∀ i < 2 ^ maxClass,
    typeOf s' i = if pc.Mem i then retyped type (typeOf s i) else typeOf s i
  safe : ∀ pc' : Piece, pc'.Ok → (∀ i, pc'.Mem i → ¬pc.Mem i) → pc'.Safe type s → pc'.Safe type s'

lemma attachPiece_spec (htype : type ≠ .partialNode) (hi : Inv ext F s) (hok : pc.Ok) (hsafe : pc.Safe type s)
    (h : pageLookup ensureFreeDesc type s [] pc.addr pc.cls = .ok r) :
    PieceAttached ext F type pc s r.1 := by
  obtain ⟨s₁, n, happ, hn, hatt, hinv⟩ := pageLookup_typed provides_ensureFreeDesc htype hi h
  have hs₁ := happ.inv.shape
  have hblock : r.2 = pc.block := by
    have hway : r.2 = toward maxClass (frameOf pc.addr) r.2.length := happ.way rfl
    have hlen : r.2.length = maxClass - pc.cls := by
      have := happ.length
      rwa [length_nil, zero_add] at this
    rw [hway, hlen]
    rfl
  have hlen : pc.block.length ≤ maxClass := by
    rw [Piece.block, length_toward]
    exact sub_le _ _
  have htypes : ∀ i < 2 ^ maxClass, typeOf r.1 i = if pc.Mem i then retyped type (typeOf s i) else typeOf s i := by
    intro i hlt
    obtain ⟨t, ht⟩ := hi.shape.exists_type hlt
    have ht₁ := happ.types i t ht
    rw [(typeOf_iff hi.shape hlt).mpr ht]
    split
    · next hmem =>
      have hc := hok.covers_iff.mpr hmem
      have hnew := hatt.type_inside (hblock ▸ hc)
      rw [(typeOf_iff hinv.shape hlt).mpr hnew]
      rw [retyped_some, Option.some.injEq]
      unfold Page.attached
      rcases hsafe with rfl | hnone | hres
      · split <;> split <;> rfl
      · have htne : t ≠ .reserved := fun h =>
          hnone i hmem ((typeOf_iff hi.shape hlt).mpr (h ▸ ht))
        have hnne : n.state ≠ .reserved := by
          intro hst
          obtain ⟨l, m, hm, hl, hcl, -, hmst⟩ := hs₁.exists_leaf hn (hblock ▸ hc)
          have : HasType s₁ i .reserved := ⟨l, m, hm, hl, hcl, (hmst (by rw [hst]; decide)).trans hst⟩
          exact htne (ht₁.unique hs₁ this)
        rw [if_neg htne, if_neg hnne]
      · have htr : t = .reserved := ht.unique hi.shape (hasType_of_inReserved hi.shape hlen hc hres)
        obtain ⟨q, k, hq, hk, hst⟩ := hres
        obtain ⟨m, hm, hmst⟩ := happ.reserved q k nil_suffix (hblock ▸ hq) hk hst
        rw [hn] at hm
        cases hm
        rw [if_pos htr, if_pos hmst]
    · next hmem =>
      refine (typeOf_iff hinv.shape hlt).mpr (hatt.type_outside hs₁ hn (fun hc => hmem ?_) ht₁)
      exact hok.covers_iff.mp (hblock ▸ hc)
  refine ⟨hinv, htypes, fun pc' hok' hdis hsafe' => ?_⟩
  rcases hsafe' with h | h | h
  · exact .inl h
  · refine .inr (.inl fun i hmem => ?_)
    rw [htypes i (hok'.lt_of_mem hmem), if_neg (hdis i hmem)]
    exact h i hmem
  · -- a block beside this one is neither on the way nor below it
    have happart : ¬pc'.block <:+ r.2 ∧ ¬r.2 <:+ pc'.block := by
      have hlen' : pc'.block.length ≤ maxClass := by
        rw [Piece.block, length_toward]
        exact sub_le _ _
      rw [hblock]
      constructor
      · intro hsuf
        have hc := covers_of_suffix hlen hsuf (covers_start pc.block)
        exact hdis _ (hok'.covers_iff.mp hc) (hok.covers_iff.mp (covers_start _))
      · intro hsuf
        have hc := covers_of_suffix hlen' hsuf (covers_start pc'.block)
        exact hdis _ (hok'.covers_iff.mp (covers_start _)) (hok.covers_iff.mp hc)
    obtain ⟨q, k, hq, hk, hst⟩ := happ.beside _ happart.1 h
    refine .inr (.inr ⟨q, k, hq, ?_, hst⟩)
    rw [hatt.node_outside fun hrq => happart.2 (hrq.trans hq)]
    exact hk

lemma growClass_spec {size t' : ℕ} (h : growClass iter size fuel t = .ok t') :
    t ≤ t' ∧ ∀ u, t ≤ u → u < t' → iter % classSize u = 0 ∧ classSize u ≤ size := by
  induction fuel generalizing t with
  | zero => cases h
  | succ fuel ih =>
    rw [growClass] at h
    split at h
    · next hfit =>
      obtain ⟨hle, hall⟩ := ih h
      refine ⟨le_of_succ_le hle, fun u hu hlt => ?_⟩
      rcases eq_or_lt_of_le hu with rfl | hu
      · exact hfit
      · exact hall u hu hlt
    · cases h
      exact ⟨le_refl _, fun u hu hlt => absurd hlt (not_lt.mpr hu)⟩

lemma growClass_piece {t' : ℕ} (ht : t ≤ 1) (halign : iter % classSize 0 = 0)
    (hfalign : fin % classSize 0 = 0) (hlt : iter < fin)
    (h : growClass iter (fin - iter) (52 - t) t = .ok t') :
    ∃ c, t' = c + 1 ∧ iter % classSize c = 0 ∧ iter + classSize c ≤ fin := by
  obtain ⟨hle, hall⟩ := growClass_spec h
  have hroom : iter + classSize 0 ≤ fin := by
    obtain ⟨a, rfl⟩ := dvd_of_mod_eq_zero halign
    obtain ⟨b, rfl⟩ := dvd_of_mod_eq_zero hfalign
    exact Nat.mul_le_mul_left _ (Nat.lt_of_mul_lt_mul_left hlt)
  rcases eq_or_lt_of_le hle with rfl | hlt'
  · rcases le_one_iff_eq_zero_or_eq_one.mp ht with rfl | rfl
    · -- a block of the smallest class fits
      rw [show 52 - 0 = 51 + 1 from rfl, growClass, if_pos ⟨halign, by omega⟩] at h
      exact absurd (growClass_spec h).1 (by decide)
    · exact ⟨0, rfl, halign, hroom⟩
  · obtain ⟨ha, hs⟩ := hall (t' - 1) (by omega) (by omega)
    exact ⟨t' - 1, by omega, ha, by omega⟩

section Region

variable (hfin : fin ≤ 2 ^ (maxClass + classBase)) (hfalign : fin % classSize 0 = 0)
include hfin hfalign

lemma pieces_spec (halign : iter % classSize 0 = 0) (ht : t ≤ 1) :
    ∀ pc ∈ pieces fin fuel iter t, pc.Ok ∧ iter ≤ pc.addr := by
  induction fuel generalizing iter t with
  | zero => exact nofun
  | succ fuel ih =>
    intro pc hpc
    rw [pieces] at hpc
    split at hpc
    · next hlt =>
      split at hpc
      · next c hc =>
        obtain ⟨c', hcc, ha, hroom⟩ := growClass_piece ht halign hfalign hlt hc
        obtain rfl : c = c' := succ.inj hcc
        rcases mem_cons.mp hpc with rfl | hpc
        · exact ⟨⟨ha, hroom.trans hfin⟩, le_refl _⟩
        · obtain ⟨hok, hle⟩ := ih (aligned_add halign c) (le_refl 1) pc hpc
          exact ⟨hok, (le_add_right _ _).trans hle⟩
      · cases hpc
    · cases hpc

lemma attachLoop_types (htype : type ≠ .partialNode) (hi : Inv ext F s)
    (halign : iter % classSize 0 = 0) (hfuel : fin ≤ iter + fuel * classSize 0) (ht : t ≤ 1)
    (hsafe : ∀ pc ∈ pieces fin fuel iter t, pc.Safe type s)
    (h : attachLoop type fin fuel iter t s = .ok s') :
    Inv ext F s' ∧ ∀ i < 2 ^ maxClass, typeOf s' i =
      if iter ≤ i * classSize 0 ∧ i * classSize 0 < fin then retyped type (typeOf s i)
      else typeOf s i := by
  induction fuel generalizing iter t s with
  | zero =>
    cases h
    refine ⟨hi, fun i _ => (if_neg fun hc => ?_).symm⟩
    omega
  | succ fuel ih =>
    rw [attachLoop] at h
    split at h
    swap
    · cases h
      exact ⟨hi, fun i _ => (if_neg fun hc => by omega).symm⟩
    next hlt =>
    obtain ⟨t', ht', h⟩ := bind_eq_ok.mp h
    obtain ⟨c, rfl, ha, hroom⟩ := growClass_piece ht halign hfalign hlt ht'
    obtain ⟨r, hr, h⟩ := bind_eq_ok.mp h
    rw [pieces, if_pos hlt, ht'] at hsafe
    have hok : Piece.Ok ⟨iter, c⟩ := ⟨ha, hroom.trans hfin⟩
    have hpc := attachPiece_spec htype hi hok (hsafe _ mem_cons_self) hr
    have halign' := aligned_add halign c
    have hfuel' : fin ≤ iter + classSize c + fuel * classSize 0 := by
      have := classSize_zero_le c
      rw [succ_mul] at hfuel
      omega
    obtain ⟨hinv, htypes⟩ := ih hpc.inv halign' hfuel' (le_refl 1) (fun pc' hpc' => by
      obtain ⟨hok', hle⟩ := pieces_spec hfin hfalign halign' (le_refl 1) pc' hpc'
      refine hpc.safe pc' hok' (fun i hmem' hmem => ?_) (hsafe pc' (mem_cons_of_mem _ hpc'))
      have h1 := hmem'.1
      have h2 : i * classSize 0 < iter + classSize c := hmem.2
      omega) h
    refine ⟨hinv, fun i hlt => ?_⟩
    rw [htypes i hlt, hpc.types i hlt]
    have hmem : Piece.Mem ⟨iter, c⟩ i ↔ iter ≤ i * classSize 0 ∧ i * classSize 0 < iter + classSize c := Iff.rfl
    by_cases h1 : Piece.Mem ⟨iter, c⟩ i
    · rw [if_pos h1]
      rw [hmem] at h1
      rw [if_neg (by omega), if_pos (by omega)]
    · rw [if_neg h1]
      rw [hmem] at h1
      by_cases h2 : iter + classSize c ≤ i * classSize 0 ∧ i * classSize 0 < fin
      · rw [if_pos h2, if_pos (by omega)]
      · rw [if_neg h2, if_neg (by omega)]

end Region

lemma roundDown_aligned (a : ℕ) : roundDown a % classSize 0 = 0 := by
  exact mod_eq_zero_of_dvd (dvd_sub_mod a)

lemma roundUp_aligned (a : ℕ) : roundUp a % classSize 0 = 0 := roundDown_aligned _

lemma roundUp_le {a : ℕ} (h : a ≤ 2 ^ (maxClass + classBase)) : roundUp a ≤ 2 ^ (maxClass + classBase) := by
  have hdvd : classSize 0 ∣ 2 ^ (maxClass + classBase) := by
    exact classSize_zero_dvd _
  have hpos := classSize_pos 0
  obtain ⟨k, hk⟩ := hdvd
  have hle : roundUp a ≤ a + (classSize 0 - 1) := (sub_le _ _).trans (mod_le _ _)
  obtain ⟨j, hj⟩ := dvd_of_mod_eq_zero (roundUp_aligned a)
  rw [hj, hk]
  have hlt : classSize 0 * j < classSize 0 * (k + 1) := by
    rw [mul_succ]
    omega
  exact Nat.mul_le_mul_left _ (Nat.lt_succ_iff.mp (Nat.lt_of_mul_lt_mul_left hlt))

/-- The region contains the page `i` of 4 KB. -/
def Contains (x : Region) (i : ℕ) : Prop :=
  roundDown x.start.toNat ≤ i * classSize 0 ∧ i * classSize 0 < roundUp x.fin.toNat
  deriving Decidable

/-- **The condition**: each block that is to be allocatable has nothing reserved in it, or lies in one
reserved page; and the tree describes the memory. -/
def Safe (s : Phys) (x : Region) : Prop :=
  x.fin.toNat ≤ 2 ^ (maxClass + classBase) ∧ ∀ pc ∈ regionPieces x, pc.Safe x.type s

variable {xs : List Region} {x : Region}

/-- **`attach_region`** gives its type to the pages of the region that are not reserved. -/
theorem attach_types (hi : Inv ext F s) (hsafe : Safe s x) (h : x.attach s = .ok s') :
    Inv ext F s' ∧ ∀ i < 2 ^ maxClass,
      typeOf s' i = if Contains x i then retyped x.type (typeOf s i) else typeOf s i := by
  refine attachLoop_types (roundUp_le hsafe.1) (roundUp_aligned _) x.type_ne hi (roundDown_aligned _)
    ?_ (zero_le 1) hsafe.2 h
  have h1 := dvd_of_mod_eq_zero (roundDown_aligned x.start.toNat)
  have h2 := dvd_of_mod_eq_zero (roundUp_aligned x.fin.toNat)
  rw [Nat.div_mul_cancel (Nat.dvd_sub h2 h1)]
  omega

def AttachedAs (xs : List Region) (reserved : Bool) (i : ℕ) : Prop :=
  ∃ x ∈ xs, x.reserved = reserved ∧ Contains x i

/-- The types are what the regions so far make of them. -/
structure TypesOf (xs : List Region) (s : Phys) : Prop where
  reserved : ∀ i < 2 ^ maxClass, typeOf s i = some .reserved ↔ AttachedAs xs true i
  allocatable : ∀ i < 2 ^ maxClass,
    typeOf s i = some .allocatable ↔ AttachedAs xs false i ∧ ¬AttachedAs xs true i

lemma attachedAs_snoc {b : Bool} :
    AttachedAs (xs ++ [x]) b i ↔ AttachedAs xs b i ∨ x.reserved = b ∧ Contains x i := by
  constructor
  · rintro ⟨y, hy, h⟩
    rcases mem_append.mp hy with hy | hy
    · exact .inl ⟨y, hy, h⟩
    · rw [mem_singleton.mp hy] at h
      exact .inr h
  · rintro (⟨y, hy, h⟩ | h)
    · exact ⟨y, mem_append_left _ hy, h⟩
    · exact ⟨x, mem_append_right _ (mem_singleton_self x), h⟩

lemma typesOf_snoc (h : TypesOf xs s) (htypes : ∀ i < 2 ^ maxClass,
      typeOf s' i = if Contains x i then retyped x.type (typeOf s i) else typeOf s i) :
    TypesOf (xs ++ [x]) s' := by
  have hkey : ∀ i < 2 ^ maxClass, (typeOf s' i = some .reserved ↔ AttachedAs (xs ++ [x]) true i) ∧
      (typeOf s' i = some .allocatable ↔ AttachedAs (xs ++ [x]) false i ∧ ¬AttachedAs (xs ++ [x]) true i) := by
    intro i hlt
    have hres := h.reserved i hlt
    have hall := h.allocatable i hlt
    rw [attachedAs_snoc, attachedAs_snoc, htypes i hlt]
    by_cases hc : Contains x i
    · rw [if_pos hc]
      unfold retyped Region.type
      by_cases hr : typeOf s i = some .reserved
      · have := hres.mp hr
        simp [hr, this]
      · have := mt hres.mpr hr
        cases hx : x.reserved <;> simp [hr, this, hc]
    · simp only [hc, if_false, and_false, or_false]
      exact ⟨hres, hall⟩
  exact ⟨fun i hlt => (hkey i hlt).1, fun i hlt => (hkey i hlt).2⟩

lemma typesOf_init (kernelEnd : ℕ) : TypesOf [] (initAllocator kernelEnd) := by
  have hs := (inv_initAllocator kernelEnd).shape
  have htype : ∀ i < 2 ^ maxClass, typeOf (initAllocator kernelEnd) i = some .partialNode := by
    intro i hlt
    exact (typeOf_iff hs hlt).mpr ⟨[], _, rfl, fun _ => rfl, covers_nil hlt, rfl⟩
  refine ⟨fun i hlt => ?_, fun i hlt => ?_⟩
  · rw [htype i hlt]
    exact iff_of_false nofun nofun
  · rw [htype i hlt]
    exact iff_of_false nofun fun h => by
      obtain ⟨⟨y, hy, -⟩, -⟩ := h
      cases hy

def attachStep (s : Phys) (x : Region) : Except Failure Phys := x.attach s

theorem run_types {kernelEnd : ℕ} (hrun : run attachStep (initAllocator kernelEnd) xs = .ok s)
    (hsafe : ∀ pre x u, pre ++ [x] <+: xs → run attachStep (initAllocator kernelEnd) pre = .ok u →
      Safe u x) : Inv (fun _ => 0) ∅ s ∧ TypesOf xs s := by
  induction xs using reverseRecOn generalizing s with
  | nil =>
    cases hrun
    exact ⟨inv_initAllocator kernelEnd, typesOf_init kernelEnd⟩
  | append_singleton xs x ih =>
    obtain ⟨u, hu, hs⟩ := run_snoc_inv hrun
    obtain ⟨hinv, htypes⟩ := ih hu fun pre y v hpre hv =>
      hsafe pre y v (hpre.trans (prefix_append _ _)) hv
    obtain ⟨hinv', heff⟩ := attach_types hinv (hsafe xs x u (prefix_refl _) hu) hs
    exact ⟨hinv', typesOf_snoc htypes heff⟩

/-- The page `i` is covered by a page of a free list. -/
def Allocatable (s : Phys) (i : ℕ) : Prop := ∃ c, ∃ p ∈ s.free c, Covers maxClass p i

/-- The page `i` holds descriptors. -/
def InPool (s : Phys) (i : ℕ) : Prop := ∃ p ∈ s.pools, Covers maxClass p i

lemma allocatable_iff (hi : Inv (fun _ => 0) ∅ s) (hlt : i < 2 ^ maxClass) :
    Allocatable s i ↔ typeOf s i = some .allocatable ∧ ¬InPool s i := by
  have hdirect : ∀ p, 0 < direct (fun _ => 0) s p ↔ p ∈ s.pools := by
    intro p
    unfold direct
    rw [zero_add, count_pos_iff]
  rw [typeOf_iff hi.shape hlt]
  constructor
  · rintro ⟨c, p, hp, hc⟩
    obtain ⟨n, hn, hst, -, hl, hr⟩ := hi.lists.listed c p hp
    refine ⟨⟨p, n, hn, hl, hc, hst⟩, ?_⟩
    rintro ⟨q, hq, hcq⟩
    obtain ⟨m, hm⟩ := Phys.has_iff.mp (hi.counted.present q ((hdirect q).mpr hq))
    have hqp : q <:+ p := by
      rcases comparable_of_covers (hi.shape.length_le (Phys.has_of_node hn))
        (hi.shape.length_le (Phys.has_of_node hm)) hc hcq with h | h
      · rw [hi.shape.eq_of_leaf hl (Phys.has_of_node hm) h]
      · exact h
    have hzero := hi.counted.above hi.shape hn (hr (Set.notMem_empty p)) hqp m hm
    have hle := hi.counted.count_le hm hi.shape
    rw [hzero] at hle
    exact absurd (lt_of_lt_of_le ((hdirect q).mpr hq) hle) (lt_irrefl 0)
  · rintro ⟨⟨p, n, hn, hl, hc, hst⟩, hpool⟩
    refine ⟨n.cls, p, hi.lists.complete p n hn hst ?_ hl (Set.notMem_empty p) (Set.notMem_empty p), hc⟩
    by_contra hr
    obtain ⟨q, hq, hd⟩ := hi.counted.exists_direct hi.shape hn hr
    exact hpool ⟨q, (hdirect q).mp hd, covers_of_suffix (hi.shape.length_le (Phys.has_of_node hn)) hq hc⟩

/-- **Reserved memory stays reserved**, and the order does not matter, in every sequence of calls
that attach no block as allocatable in which there is reserved memory, unless it lies in one
reserved page; for the pages that do not hold descriptors. -/
theorem allocatable_iff_attached (kernelEnd : ℕ) (xs : List Region) (s : Phys)
    (hrun : run attachStep (initAllocator kernelEnd) xs = .ok s)
    (hsafe : ∀ pre x u, pre ++ [x] <+: xs → run attachStep (initAllocator kernelEnd) pre = .ok u →
      Safe u x) (i : ℕ) (hlt : i < 2 ^ maxClass) (hpool : ¬InPool s i) :
    Allocatable s i ↔ AttachedAs xs false i ∧ ¬AttachedAs xs true i := by
  obtain ⟨hinv, htypes⟩ := run_types hrun hsafe
  rw [allocatable_iff hinv hlt, htypes.allocatable i hlt]
  exact and_iff_left hpool

def sample : List Region :=
  [⟨0, 0x400000000000000, false⟩, ⟨0, 0x200000000000000, true⟩, ⟨0, 0x200000000000000, false⟩]

theorem allocatable_iff_attached_sample :
    ∃ s, run attachStep (initAllocator 0) sample = .ok s ∧ ∀ i < 2 ^ maxClass, ¬InPool s i →
      (Allocatable s i ↔ AttachedAs sample false i ∧ ¬AttachedAs sample true i) := by
  have hend : ∃ s, run attachStep (initAllocator 0) sample = .ok s ∧ True := by decide
  have htwo : ∃ u, run attachStep (initAllocator 0) (sample.take 2) = .ok u ∧
      (u.node [false, false, false]).map (·.state) = some .reserved := by
    decide
  have hpieces : regionPieces ⟨0, 0x200000000000000, false⟩ = [⟨0, 45⟩] := by decide
  have hblock : Piece.block ⟨0, 45⟩ = [false, false, false] := by decide
  obtain ⟨s, hrun, -⟩ := hend
  refine ⟨s, hrun, allocatable_iff_attached 0 sample s hrun fun pre x u hpre hu => ?_⟩
  have hlen := hpre.length_le
  have htake := prefix_iff_eq_take.mp ((prefix_append pre [x]).trans hpre)
  have hx : sample[pre.length]? = some x := by
    obtain ⟨post, hpost⟩ := hpre
    rw [← hpost, append_assoc, getElem?_append_right (le_refl _), Nat.sub_self]
    rfl
  rw [length_append, length_singleton, show sample.length = 3 from rfl] at hlen
  have hcases : pre.length = 0 ∨ pre.length = 1 ∨ pre.length = 2 := by omega
  rcases hcases with hk | hk | hk
  · -- nothing is reserved yet
    rw [length_eq_zero_iff.mp hk] at hu hx
    cases hu
    cases hx
    refine ⟨by decide, fun pc hpc => .inr (.inl fun i hmem hres => ?_)⟩
    have hok := (pieces_spec (roundUp_le (by decide)) (roundUp_aligned _) (roundDown_aligned _)
      (zero_le 1) pc hpc).1
    obtain ⟨y, hy, -⟩ := ((typesOf_init 0).reserved i (hok.lt_of_mem hmem)).mp hres
    cases hy
  · rw [hk] at hx
    cases hx
    exact ⟨by decide, fun pc _ => .inl rfl⟩
  · rw [hk] at hx htake
    cases hx
    obtain ⟨u', hu', hst⟩ := htwo
    rw [← htake, hu] at hu'
    cases hu'
    obtain ⟨n, hn, hst⟩ := Option.map_eq_some_iff.mp hst
    refine ⟨by decide, fun pc hpc => .inr (.inr ⟨_, n, ?_, hn, hst⟩)⟩
    rw [hpieces] at hpc
    rw [mem_singleton.mp hpc, hblock]

/-- The first page is reserved, and then attached with the page behind it: it is free. -/
theorem reserved_lost :
    ¬ ∀ kernelEnd xs s, run attachStep (initAllocator kernelEnd) xs = .ok s →
      ∀ i < 2 ^ maxClass, ¬InPool s i →
        (Allocatable s i ↔ AttachedAs xs false i ∧ ¬AttachedAs xs true i) := by
  intro hall
  have hbad : ∃ s, run attachStep (initAllocator 0) [⟨0, 4096, true⟩, ⟨0, 8192, false⟩] = .ok s ∧
      s.pools = [] ∧ replicate 47 false ∈ s.free 1 := by
    decide +kernel
  obtain ⟨s, hrun, hpools, hfree⟩ := hbad
  have hpool : ¬InPool s 0 := by
    rintro ⟨p, hp, -⟩
    rw [hpools] at hp
    cases hp
  have hcov : Covers maxClass (replicate 47 false) 0 := by decide
  have hres : AttachedAs [⟨0, 4096, true⟩, ⟨0, 8192, false⟩] true 0 :=
    ⟨_, mem_cons_self, rfl, by decide⟩
  exact ((hall 0 _ s hrun 0 (Nat.two_pow_pos _) hpool).mp ⟨1, _, hfree, hcov⟩).2 hres

end Jos.AttachOrder
