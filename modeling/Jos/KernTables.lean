import Jos.SpaceSwitch
import Mathlib.Algebra.BigOperators.Group.List.Basic
import Mathlib.Algebra.Order.BigOperators.Group.List
import Mathlib.Algebra.Order.Ring.Int
import Mathlib.Data.List.FinRange
import Mathlib.Tactic.Linarith
import Mathlib.Tactic.Ring

/-!
The page tables of the kernel that all address spaces share: the entries of the PML4s that point
to them, and the references that are counted for these entries.

A reference is counted where the code calls `page_ref` for an entry, and dropped where it calls
`page_unref`.
-/

namespace Jos.KernTables

open EnvTable Runs SpaceSwitch List Function

abbrev Index := Fin 512

abbrev Frame := ℕ

abbrev Entries := Index → Option Frame

def nuserpml4 : ℕ := 1

def uvptIndex : Index := 2

def kernelSlots : List Index := (List.finRange 512).filter fun i => nuserpml4 ≤ i.val ∧ i ≠ uvptIndex

structure Tables where
  pml4 : SpaceRef → Entries
  live : Slot → Bool
  /-- the references counted for entries of PML4s -/
  counted : Frame → ℤ

/-- A loop of `page_ref` or `page_unref` over the entries of a PML4 -/
def adjust (d : ℤ) (e : Entries) (counted : Frame → ℤ) : Frame → ℤ :=
  kernelSlots.foldl
    (fun c i =>
      match e i with
      | some t => Function.update c t (c t + d)
      | none => c)
    counted

/-- `propagate_one_pml4`; the loop for the old tables calls `page_ref`, too. -/
def propagateOnePml4 (dst src : SpaceRef) (σ : Tables) : Tables :=
  { σ with
    counted := adjust 1 (σ.pml4 dst) (adjust 1 (σ.pml4 src) σ.counted)
    pml4 := Function.update σ.pml4 dst fun i =>
      if i.val < nuserpml4 ∨ i = uvptIndex then σ.pml4 dst i else σ.pml4 src i }

def Tables.spaces (σ : Tables) : List SpaceRef :=
  .kspace :: ((List.finRange 1024).filter (σ.live ·)).map .env

/-- `propagate_pml4`, with a current space -/
def propagatePml4 (spc : SpaceRef) (σ : Tables) : Tables :=
  (σ.spaces.filter (· ≠ spc)).foldl (fun σ dst => propagateOnePml4 dst spc σ) σ

/-- `init_address_space` for a slot, with the page it allocates, up to the end of `env_alloc` -/
def initAddressSpace (s : Slot) (cr3 : Frame) (σ : Tables) : Tables :=
  let fresh : Entries := fun i => if i = uvptIndex then some cr3 else none
  let σ := propagateOnePml4 (.env s) .kspace { σ with pml4 := Function.update σ.pml4 (.env s) fresh }
  { σ with live := Function.update σ.live s true }

/-- `release_address_space`, up to the end of `env_free`: `unmap_page` computes no entry to be
removed from the end of the largest page, and propagates the PML4. -/
def releaseAddressSpace (s : Slot) (σ : Tables) : Tables :=
  let σ := propagatePml4 (.env s) { σ with counted := adjust (-1) (σ.pml4 .kspace) σ.counted }
  { σ with live := Function.update σ.live s false }

/-- `alloc_pt` for an entry that is not present -/
def allocPt (spc : SpaceRef) (i : Index) (t : Frame) (σ : Tables) : Tables :=
  { σ with
    counted := Function.update σ.counted t (σ.counted t + 1)
    pml4 := Function.update σ.pml4 spc (Function.update (σ.pml4 spc) i (some t)) }

inductive Step
  | initAddressSpace (s : Slot) (cr3 : Frame)
  | allocPt (spc : SpaceRef) (i : Index) (t : Frame)
  | propagateOnePml4 (dst src : SpaceRef)
  | propagatePml4 (spc : SpaceRef)
  | releaseAddressSpace (s : Slot)
  deriving DecidableEq, Repr

/-- The calls are for spaces that are there or, to set one up, for a free slot; a new table is a page
without references. -/
def Allowed (σ : Tables) : Step → Prop
  | .initAddressSpace s _ => σ.live s = false
  | .allocPt spc i t => spc ∈ σ.spaces ∧ i ∈ kernelSlots ∧ σ.pml4 spc i = none ∧ σ.counted t = 0
  | .propagateOnePml4 dst src => dst ∈ σ.spaces ∧ src ∈ σ.spaces
  | .propagatePml4 spc => spc ∈ σ.spaces
  | .releaseAddressSpace s => σ.live s = true

instance (σ : Tables) : DecidablePred (Allowed σ) := fun op => by
  cases op <;> unfold Allowed <;> infer_instance

inductive Fault
  | notCalled
  deriving DecidableEq, Repr

def step (σ : Tables) (op : Step) : Except Fault Tables :=
  if Allowed σ op then
    match op with
    | .initAddressSpace s cr3 => .ok (Jos.KernTables.initAddressSpace s cr3 σ)
    | .allocPt spc i t => .ok (Jos.KernTables.allocPt spc i t σ)
    | .propagateOnePml4 dst src => .ok (Jos.KernTables.propagateOnePml4 dst src σ)
    | .propagatePml4 spc => .ok (Jos.KernTables.propagatePml4 spc σ)
    | .releaseAddressSpace s => .ok (Jos.KernTables.releaseAddressSpace s σ)
  else .error .notCalled

def entriesTo (e : Entries) (t : Frame) : ℤ := (kernelSlots.filter (e · = some t)).length

def Tables.pointers (σ : Tables) (t : Frame) : ℤ :=
  (σ.spaces.map fun sp => entriesTo (σ.pml4 sp) t).sum

def Tables.Exact (σ : Tables) : Prop := ∀ t, σ.counted t = σ.pointers t

def boot (e : Entries) : Tables where
  pml4 sp := if sp = .kspace then e else fun _ => none
  live _ := false
  counted := entriesTo e

def NoTables (e : Entries) : Prop := ∀ i ∈ kernelSlots, e i = none
  deriving Decidable

/-- A PML4 that is written to has no tables of the kernel yet, and a space is released only if there are
none. -/
def Counts (σ : Tables) : Step → Prop
  | .propagateOnePml4 dst src => Allowed σ (.propagateOnePml4 dst src) → NoTables (σ.pml4 dst)
  | .propagatePml4 spc =>
    Allowed σ (.propagatePml4 spc) → ∀ dst ∈ σ.spaces, dst ≠ spc → NoTables (σ.pml4 dst)
  | .releaseAddressSpace s =>
    Allowed σ (.releaseAddressSpace s) → ∀ sp ∈ σ.spaces, NoTables (σ.pml4 sp)
  | .initAddressSpace _ _ | .allocPt _ _ _ => True

lemma adjust_apply (d : ℤ) (e : Entries) (c : Frame → ℤ) (t : Frame) : adjust d e c t = c t + d * entriesTo e t := by
  unfold adjust entriesTo
  induction kernelSlots generalizing c with
  | nil => simp
  | cons i l ih =>
    rw [foldl_cons, ih, filter_cons]
    cases he : e i with
    | none => simp
    | some t' =>
      dsimp only
      by_cases ht : t' = t
      · subst ht
        rw [update_self, if_pos (by simp), length_cons, Nat.cast_add, Nat.cast_one]
        ring
      · rw [update_of_ne (Ne.symm ht), if_neg (by simpa using ht)]

lemma entriesTo_nonneg (e : Entries) (t : Frame) : 0 ≤ entriesTo e t := Nat.cast_nonneg _

variable {σ : Tables} {l : List SpaceRef} {s : Slot} {e : Entries}

lemma entriesTo_eq_zero (h : NoTables e) (t : Frame) : entriesTo e t = 0 := by
  unfold entriesTo
  rw [filter_eq_nil_iff.mpr (fun i hi => by simp [h i hi])]
  rfl

lemma exists_entriesTo_pos (h : ¬NoTables e) : ∃ t, 0 < entriesTo e t := by
  unfold NoTables at h
  push Not at h
  obtain ⟨i, hi, hne⟩ := h
  obtain ⟨t, ht⟩ := Option.ne_none_iff_exists'.mp hne
  refine ⟨t, ?_⟩
  have hmem : i ∈ kernelSlots.filter (e · = some t) := mem_filter.mpr ⟨hi, by simp [ht]⟩
  exact Nat.cast_pos.mpr (length_pos_of_mem hmem)

lemma entriesTo_congr {e e' : Entries} (h : ∀ i ∈ kernelSlots, e i = e' i) (t : Frame) :
    entriesTo e t = entriesTo e' t := by
  unfold entriesTo
  rw [filter_congr fun i hi => by rw [h i hi]]

lemma entriesTo_propagate (dst src : SpaceRef) (σ : Tables) (t : Frame) :
    entriesTo ((propagateOnePml4 dst src σ).pml4 dst) t = entriesTo (σ.pml4 src) t := by
  refine entriesTo_congr (fun i hi => ?_) t
  have hslot := (mem_filter.mp hi).2
  rw [decide_eq_true_eq] at hslot
  have hcopy : ¬(i.val < nuserpml4 ∨ i = uvptIndex) := by
    rintro (hlt | heq)
    · omega
    · exact hslot.2 heq
  simp [propagateOnePml4, hcopy]

lemma propagate_other {dst sp : SpaceRef} (src : SpaceRef) (σ : Tables) (h : sp ≠ dst) :
    (propagateOnePml4 dst src σ).pml4 sp = σ.pml4 sp := update_of_ne h ..

section Sums

variable {α : Type} {f g : α → ℤ} {l : List α} {a : α}

lemma sum_map_congr (h : ∀ x ∈ l, f x = g x) : (l.map f).sum = (l.map g).sum := congrArg sum (map_congr_left h)

lemma sum_filter_ne [DecidableEq α] (hl : l.Nodup) (ha : a ∈ l) :
    (l.map f).sum = f a + ((l.filter (· ≠ a)).map f).sum := by
  induction l with
  | nil => cases ha
  | cons b l ih =>
    obtain ⟨hb, hl⟩ := nodup_cons.mp hl
    by_cases hba : b = a
    · subst hba
      have hall : l.filter (· ≠ b) = l := filter_eq_self.mpr fun x hx => by simpa using ne_of_mem_of_not_mem hx hb
      rw [filter_cons_of_neg (by simp), hall, map_cons, sum_cons]
    · have hmem : a ∈ l := (mem_cons.mp ha).resolve_left (Ne.symm hba)
      rw [map_cons, sum_cons, ih hl hmem, filter_cons_of_pos (by simpa using hba), map_cons, sum_cons]
      ring

lemma sum_pos_of (h : ∀ x ∈ l, 0 ≤ f x) (ha : a ∈ l) (hpos : 0 < f a) : 0 < (l.map f).sum :=
  hpos.trans_le (single_le_sum (by simpa using h) _ (mem_map_of_mem ha))

end Sums

def Tables.surplus (σ : Tables) (t : Frame) : ℤ := σ.counted t - σ.pointers t

lemma exact_iff : σ.Exact ↔ ∀ t, σ.surplus t = 0 := by
  unfold Tables.Exact Tables.surplus
  simp only [sub_eq_zero]

lemma nodup_spaces (σ : Tables) : σ.spaces.Nodup := by
  refine nodup_cons.mpr ⟨by simp, ?_⟩
  exact ((nodup_finRange 1024).filter _).map fun s s' h => SpaceRef.env.inj h

lemma mem_spaces_env : .env s ∈ σ.spaces ↔ σ.live s = true := by
  simp [Tables.spaces]

/-- **One PML4 is written**, and the references for its old entries are counted twice too often. -/
lemma surplus_propagateOne {dst : SpaceRef} (src : SpaceRef) (hdst : dst ∈ σ.spaces)
    (t : Frame) : (propagateOnePml4 dst src σ).surplus t = σ.surplus t + 2 * entriesTo (σ.pml4 dst) t := by
  have hpointers : (propagateOnePml4 dst src σ).pointers t + entriesTo (σ.pml4 dst) t =
      σ.pointers t + entriesTo (σ.pml4 src) t := by
    unfold Tables.pointers
    rw [show (propagateOnePml4 dst src σ).spaces = σ.spaces from rfl,
      sum_filter_ne (nodup_spaces σ) hdst, sum_filter_ne (f := fun sp => entriesTo (σ.pml4 sp) t)
        (nodup_spaces σ) hdst, entriesTo_propagate]
    have hrest := sum_map_congr (l := σ.spaces.filter (· ≠ dst))
      (f := fun sp => entriesTo ((propagateOnePml4 dst src σ).pml4 sp) t)
      (g := fun sp => entriesTo (σ.pml4 sp) t) fun sp hsp => by
        rw [propagate_other src σ (by simpa using (mem_filter.mp hsp).2)]
    rw [hrest]
    ring
  have hcounted : (propagateOnePml4 dst src σ).counted t =
      σ.counted t + entriesTo (σ.pml4 src) t + entriesTo (σ.pml4 dst) t := by
    simp only [propagateOnePml4, adjust_apply, one_mul]
  unfold Tables.surplus
  linarith

lemma surplus_foldl (spc : SpaceRef) (hl : l.Nodup) (hmem : ∀ dst ∈ l, dst ∈ σ.spaces) (t : Frame) :
    (l.foldl (fun σ dst => propagateOnePml4 dst spc σ) σ).surplus t =
      σ.surplus t + 2 * (l.map fun dst => entriesTo (σ.pml4 dst) t).sum := by
  induction l generalizing σ with
  | nil => simp
  | cons dst l ih =>
    obtain ⟨hdst, hl⟩ := nodup_cons.mp hl
    have hlater := ih (σ := propagateOnePml4 dst spc σ) hl fun d hd => hmem d (mem_cons_of_mem _ hd)
    have hrest := sum_map_congr (l := l) (f := fun sp => entriesTo ((propagateOnePml4 dst spc σ).pml4 sp) t)
      (g := fun sp => entriesTo (σ.pml4 sp) t) fun sp hsp => by
        rw [propagate_other spc σ (ne_of_mem_of_not_mem hsp hdst)]
    rw [foldl_cons, hlater, hrest, surplus_propagateOne spc (hmem dst mem_cons_self), map_cons, sum_cons]
    ring

lemma surplus_propagate (spc : SpaceRef) (σ : Tables) (t : Frame) : (propagatePml4 spc σ).surplus t =
      σ.surplus t + 2 * ((σ.spaces.filter (· ≠ spc)).map fun dst => entriesTo (σ.pml4 dst) t).sum :=
  surplus_foldl spc ((nodup_spaces σ).filter _) (fun _ h => (mem_filter.mp h).1) t

lemma foldl_kept (spc : SpaceRef) (σ : Tables) (hspc : spc ∉ l) :
    (l.foldl (fun σ dst => propagateOnePml4 dst spc σ) σ).pml4 spc = σ.pml4 spc ∧
      (l.foldl (fun σ dst => propagateOnePml4 dst spc σ) σ).live = σ.live := by
  induction l generalizing σ with
  | nil => exact ⟨rfl, rfl⟩
  | cons dst l ih =>
    obtain ⟨hpml4, hlive⟩ := ih (propagateOnePml4 dst spc σ) fun h => hspc (mem_cons_of_mem _ h)
    have hne : spc ≠ dst := by
      rintro rfl
      exact hspc mem_cons_self
    rw [foldl_cons, hpml4, hlive, propagate_other spc σ hne]
    exact ⟨rfl, rfl⟩

lemma propagate_kept (spc : SpaceRef) (σ : Tables) :
    (propagatePml4 spc σ).pml4 spc = σ.pml4 spc ∧ (propagatePml4 spc σ).live = σ.live := by
  exact foldl_kept spc σ (by simp)

lemma spaces_kill (σ : Tables) (s : Slot) :
    Tables.spaces { σ with live := Function.update σ.live s false } = σ.spaces.filter (· ≠ .env s) := by
  have hlist : ((finRange 1024).filter (update σ.live s false ·)) =
      ((finRange 1024).filter (σ.live ·)).filter (· ≠ s) := by
    rw [filter_filter]
    refine filter_congr fun t _ => ?_
    rcases eq_or_ne t s with rfl | hne
    · simp
    · simp [hne]
  unfold Tables.spaces
  rw [filter_cons_of_pos (by simp), filter_map, hlist]
  refine congrArg (fun l => SpaceRef.kspace :: l.map SpaceRef.env) (filter_congr fun t _ => ?_)
  simp

lemma surplus_kill (hs : σ.live s = true) (t : Frame) :
    Tables.surplus { σ with live := Function.update σ.live s false } t =
      σ.surplus t + entriesTo (σ.pml4 (.env s)) t := by
  have hsum := sum_filter_ne (f := fun sp => entriesTo (σ.pml4 sp) t) (nodup_spaces σ) (mem_spaces_env.mpr hs)
  unfold Tables.surplus Tables.pointers
  rw [spaces_kill, hsum]
  ring

lemma pointers_congr {σ σ' : Tables} (hspaces : σ'.spaces = σ.spaces)
    (h : ∀ sp ∈ σ.spaces, σ'.pml4 sp = σ.pml4 sp) (t : Frame) : σ'.pointers t = σ.pointers t := by
  unfold Tables.pointers
  rw [hspaces]
  exact sum_map_congr fun sp hsp => by rw [h sp hsp]

/-- **A new space** gets its references counted as they should. -/
lemma surplus_init (cr3 : Frame) (hs : σ.live s = false) (t : Frame) :
    (initAddressSpace s cr3 σ).surplus t = σ.surplus t := by
  let fresh : Entries := fun i => if i = uvptIndex then some cr3 else none
  -- the space is there before its PML4 is written
  let σ₁ : Tables := { σ with
    pml4 := update σ.pml4 (.env s) fresh, live := update σ.live s true }
  have hsame : initAddressSpace s cr3 σ = propagateOnePml4 (.env s) .kspace σ₁ := by
    simp only [initAddressSpace, propagateOnePml4, σ₁, fresh]
  have hlive : σ₁.live s = true := update_self ..
  have hback : update σ₁.live s false = σ.live := by
    simp only [σ₁, update_idem, ← hs, update_eq_self]
  have hfresh : entriesTo (σ₁.pml4 (.env s)) t = 0 := by
    refine entriesTo_eq_zero (fun i hi => ?_) t
    have hslot := (mem_filter.mp hi).2
    rw [decide_eq_true_eq] at hslot
    simp [σ₁, fresh, hslot.2]
  have hkill := surplus_kill hlive t
  have hpointers : Tables.pointers { σ₁ with live := update σ₁.live s false } t = σ.pointers t := by
    have hspaces : Tables.spaces { σ₁ with live := update σ₁.live s false } = σ.spaces := by
      unfold Tables.spaces
      rw [hback]
    refine pointers_congr hspaces (fun sp hsp => update_of_ne ?_ _ _) t
    rintro rfl
    rw [mem_spaces_env, hs] at hsp
    cases hsp
  rw [hsame, surplus_propagateOne _ (mem_spaces_env.mpr hlive), hfresh]
  unfold Tables.surplus at hkill ⊢
  linarith

/-- **A space is released**, and the references for all entries of the kernel are counted too often. -/
lemma surplus_release (hs : σ.live s = true) (t : Frame) :
    (releaseAddressSpace s σ).surplus t = σ.surplus t + entriesTo (σ.pml4 (.env s)) t - entriesTo (σ.pml4 .kspace) t +
      2 * ((σ.spaces.filter (· ≠ .env s)).map fun dst => entriesTo (σ.pml4 dst) t).sum := by
  let σ₁ : Tables := { σ with counted := adjust (-1) (σ.pml4 .kspace) σ.counted }
  have hunref : σ₁.surplus t = σ.surplus t - entriesTo (σ.pml4 .kspace) t := by
    simp only [Tables.surplus, Tables.pointers, Tables.spaces, σ₁, adjust_apply]
    ring
  obtain ⟨hpml4, hlive⟩ := propagate_kept (.env s) σ₁
  have hkill := surplus_kill (σ := propagatePml4 (.env s) σ₁) (s := s) (by rw [hlive, hs]) t
  rw [hpml4, surplus_propagate, hunref] at hkill
  refine hkill.trans ?_
  rw [show σ₁.spaces = σ.spaces by simp only [Tables.spaces, σ₁]]
  ring

lemma kspace_mem_spaces (σ : Tables) : .kspace ∈ σ.spaces := mem_cons_self

lemma surplus_release_ge (hs : σ.live s = true) (t : Frame) :
    σ.surplus t + σ.pointers t ≤ (releaseAddressSpace s σ).surplus t := by
  have hothers : entriesTo (σ.pml4 .kspace) t ≤
      ((σ.spaces.filter (· ≠ .env s)).map fun dst => entriesTo (σ.pml4 dst) t).sum := by
    refine single_le_sum (fun x hx => ?_) _ (mem_map_of_mem (f := fun dst => entriesTo (σ.pml4 dst) t)
      (mem_filter.mpr ⟨kspace_mem_spaces σ, by simp⟩))
    obtain ⟨dst, -, rfl⟩ := mem_map.mp hx
    exact entriesTo_nonneg _ t
  have hall : σ.pointers t = entriesTo (σ.pml4 (.env s)) t +
      ((σ.spaces.filter (· ≠ .env s)).map fun dst => entriesTo (σ.pml4 dst) t).sum :=
    sum_filter_ne (f := fun sp => entriesTo (σ.pml4 sp) t) (nodup_spaces σ) (mem_spaces_env.mpr hs)
  rw [surplus_release hs]
  linarith

lemma sum_eq_zero_of (h : ∀ sp ∈ l, NoTables (σ.pml4 sp)) (t : Frame) :
    (l.map fun sp => entriesTo (σ.pml4 sp) t).sum = 0 :=
  sum_eq_zero fun x hx => by
    obtain ⟨sp, hsp, rfl⟩ := mem_map.mp hx
    exact entriesTo_eq_zero (h sp hsp) t

lemma entriesTo_eq_sum (e : Entries) (t : Frame) :
    entriesTo e t = (kernelSlots.map fun i => if e i = some t then 1 else 0).sum := by
  unfold entriesTo
  induction kernelSlots with
  | nil => rfl
  | cons i l ih =>
    rw [map_cons, sum_cons, ← ih, filter_cons]
    split_ifs <;> simp_all [add_comm]

lemma entriesTo_update {i : Index} (hi : i ∈ kernelSlots) (hnone : e i = none)
    (t u : Frame) : entriesTo (Function.update e i (some t)) u = entriesTo e u + if u = t then 1 else 0 := by
  have hnodup : kernelSlots.Nodup := (nodup_finRange 512).filter _
  have hrest := sum_map_congr (l := kernelSlots.filter (· ≠ i))
    (f := fun j => if update e i (some t) j = some u then (1 : ℤ) else 0)
    (g := fun j => if e j = some u then 1 else 0) fun j hj => by
      rw [update_of_ne (by simpa using (mem_filter.mp hj).2)]
  rw [entriesTo_eq_sum, entriesTo_eq_sum, sum_filter_ne hnodup hi, hrest,
    sum_filter_ne (f := fun j => if e j = some u then (1 : ℤ) else 0) hnodup hi,
    update_self, hnone]
  by_cases hu : u = t
  · subst hu
    simp [add_comm]
  · simp [hu, Ne.symm hu]

lemma exact_allocPt {spc : SpaceRef} {i : Index} {t : Frame} (h : σ.Exact)
    (hspc : spc ∈ σ.spaces) (hi : i ∈ kernelSlots) (hnone : σ.pml4 spc i = none) :
    (allocPt spc i t σ).Exact := by
  intro u
  have hpointers : (allocPt spc i t σ).pointers u = σ.pointers u + if u = t then 1 else 0 := by
    unfold Tables.pointers
    rw [show (allocPt spc i t σ).spaces = σ.spaces from rfl, sum_filter_ne (nodup_spaces σ) hspc,
      sum_filter_ne (f := fun sp => entriesTo (σ.pml4 sp) u) (nodup_spaces σ) hspc]
    have hrest := sum_map_congr (l := σ.spaces.filter (· ≠ spc))
      (f := fun sp => entriesTo ((allocPt spc i t σ).pml4 sp) u)
      (g := fun sp => entriesTo (σ.pml4 sp) u) fun sp hsp => by
        have hne : sp ≠ spc := by simpa using (mem_filter.mp hsp).2
        simp [allocPt, update_of_ne hne]
    have hspc' : (allocPt spc i t σ).pml4 spc = update (σ.pml4 spc) i (some t) := update_self ..
    rw [hrest, hspc', entriesTo_update hi hnone]
    ring
  rw [hpointers, ← h u]
  by_cases hu : u = t
  · subst hu
    simp [allocPt]
  · simp [allocPt, hu]

/-- **A step keeps the count exact** under its condition. -/
lemma step_exact (σ : Tables) (op : Step) (σ' : Tables) (h : σ.Exact) (hc : Counts σ op)
    (hs : step σ op = .ok σ') : σ'.Exact := by
  unfold step at hs
  split at hs
  · rename_i hal
    cases op with
    | initAddressSpace s cr3 =>
      cases hs
      rw [exact_iff] at h ⊢
      intro t
      rw [surplus_init cr3 hal, h]
    | allocPt spc i t =>
      cases hs
      exact exact_allocPt h hal.1 hal.2.1 hal.2.2.1
    | propagateOnePml4 dst src =>
      cases hs
      rw [exact_iff] at h ⊢
      intro t
      rw [surplus_propagateOne src hal.1, h, entriesTo_eq_zero (hc hal)]
      rfl
    | propagatePml4 spc =>
      cases hs
      rw [exact_iff] at h ⊢
      intro t
      have hnone := sum_eq_zero_of (σ := σ) (l := σ.spaces.filter (· ≠ spc)) (fun sp hsp =>
        hc hal sp (mem_filter.mp hsp).1 (by simpa using (mem_filter.mp hsp).2)) t
      rw [surplus_propagate, h, hnone]
      rfl
    | releaseAddressSpace s =>
      obtain rfl := Except.ok.inj hs
      rw [exact_iff] at h ⊢
      intro t
      have hnone := sum_eq_zero_of (σ := σ) (l := σ.spaces.filter (· ≠ .env s))
        (fun sp hsp => hc hal sp (mem_filter.mp hsp).1) t
      rw [surplus_release hal, h, hnone, entriesTo_eq_zero (hc hal _ (mem_spaces_env.mpr hal)),
        entriesTo_eq_zero (hc hal _ (kspace_mem_spaces σ))]
      rfl
  · cases hs

/-- A step that misses its condition makes the count too large. -/
lemma step_breaks (σ : Tables) (op : Step) (h : σ.Exact) (hc : ¬Counts σ op) :
    ∃ σ', step σ op = .ok σ' ∧ ¬σ'.Exact := by
  rw [exact_iff] at h
  cases op with
  | initAddressSpace s cr3 | allocPt spc i t => exact absurd trivial hc
  | propagateOnePml4 dst src =>
    unfold Counts at hc
    push Not at hc
    obtain ⟨hal, hsome⟩ := hc
    refine ⟨propagateOnePml4 dst src σ, by rw [step, if_pos hal], fun hex => ?_⟩
    obtain ⟨t, ht⟩ := exists_entriesTo_pos hsome
    have := exact_iff.mp hex t
    rw [surplus_propagateOne src hal.1, h] at this
    linarith
  | propagatePml4 spc =>
    unfold Counts at hc
    push Not at hc
    obtain ⟨hal, dst, hdst, hne, hsome⟩ := hc
    refine ⟨propagatePml4 spc σ, by rw [step, if_pos hal], fun hex => ?_⟩
    obtain ⟨t, ht⟩ := exists_entriesTo_pos hsome
    have hzero := exact_iff.mp hex t
    have hsum := sum_pos_of (l := σ.spaces.filter (· ≠ spc)) (f := fun sp => entriesTo (σ.pml4 sp) t)
      (fun _ _ => entriesTo_nonneg _ t) (mem_filter.mpr ⟨hdst, by simpa using hne⟩) ht
    rw [surplus_propagate, h] at hzero
    linarith
  | releaseAddressSpace s =>
    unfold Counts at hc
    push Not at hc
    obtain ⟨hal, sp, hsp, hsome⟩ := hc
    refine ⟨releaseAddressSpace s σ, by rw [step, if_pos hal], fun hex => ?_⟩
    obtain ⟨t, ht⟩ := exists_entriesTo_pos hsome
    have hzero := exact_iff.mp hex t
    have hge := surplus_release_ge hal t
    have hsum := sum_pos_of (f := fun sp => entriesTo (σ.pml4 sp) t) (fun _ _ => entriesTo_nonneg _ t) hsp ht
    rw [h] at hge
    unfold Tables.pointers at hge
    linarith

lemma boot_exact (e : Entries) : (boot e).Exact := by
  intro t
  simp [Tables.pointers, Tables.spaces, boot]

/-- **The references of the kernel's page tables** are counted exactly along a run if and only if no
PML4 with tables of the kernel is ever written over, and no space released while there are any. -/
theorem tables_counted_iff (e : Entries) (ops : List Step) :
    (∀ pre σ, pre <+: ops → run step (boot e) pre = .ok σ → σ.Exact) ↔
      ∀ pre op σ, pre ++ [op] <+: ops → run step (boot e) pre = .ok σ → Counts σ op :=
  run_forall_iff step_exact (fun _ h => h) step_breaks (boot_exact e) ops

/-- One environment comes and goes, and the kernel's only table is left with three references for
the one entry that points to it. -/
theorem release_keeps_references :
    ∃ σ, run step (boot fun i => if i = 3 then some 7 else none)
        [.initAddressSpace 0 9, .releaseAddressSpace 0] = .ok σ ∧
      σ.counted 7 = 3 ∧ σ.pointers 7 = 1 := by
  decide +kernel

end Jos.KernTables
