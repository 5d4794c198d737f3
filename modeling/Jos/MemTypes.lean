import Jos.PhysAttach
import Jos.PhysMerge
import Jos.Runs

/-!
The types of memory under look-ups, references and their release.

Nothing but the release of a page can change a type, and it does where it joins a page that was
never attached with a free page beside it that was.
-/

namespace Jos.MemTypes

open CArray Jos.Dyadic PmapModel Runs List

structure State where
  phys : Phys
  /-- the pages of the references that are held -/
  refs : List Path

inductive Step
  /-- `page_lookup` with `alloc` and `PARTIAL_NODE` -/
  | lookup (addr : UInt64) (cls : ℕ)
  /-- `page_ref` of a page of the tree -/
  | ref (p : Path)
  /-- `page_unref` for a reference that is held -/
  | unref (i : ℕ)
  deriving DecidableEq, Repr

def step (st : State) : Step → Except Failure State
  | .lookup addr cls => do
    let r ← pageLookup ensureFreeDesc .partialNode st.phys [] addr.toNat cls
    .ok { st with phys := r.1 }
  | .ref p =>
    -- of the null pointer
    if st.phys.node p = none then .ok st
    else .ok ⟨pageRef p st.phys, p :: st.refs⟩
  | .unref i =>
    match st.refs[i]? with
    | none => .ok st
    | some p => do
      let s ← pageUnref p st.phys
      .ok ⟨s, st.refs.eraseIdx i⟩

/-- **The condition**: a page that is released is not joined with memory of another type. -/
def Safe (st : State) : Step → Prop
  | .unref i => ∀ p, st.refs[i]? = some p → MergeSafe st.phys p
  | _ => True

instance (st : State) : ∀ y, Decidable (Safe st y)
  | .unref i => decForallSome st.refs[i]? _ fun _ => inferInstance
  | .lookup _ _ => isTrue trivial
  | .ref _ => isTrue trivial

def TypesInv (s₀ : Phys) (st : State) : Prop :=
  Inv (held st.refs) Set.univ st.phys ∧ TypesKept s₀ st.phys

variable {s s' : Phys} {p : Path}

lemma types_ref {d : Path → ℕ} (h : Referenced d p s s') : TypesKept s s' := by
  have hframe : ∀ q k, s.node q = some k → ∃ m, s'.node q = some m ∧ m.frame = k.frame := fun q k hk => by
      have := h.frames q
      rw [hk] at this
      exact Option.map_eq_some_iff.mp this
  rintro x t ⟨q, k, hk, hl, hc, rfl⟩
  obtain ⟨m, hm, hf⟩ := hframe q k hk
  refine ⟨q, m, hm, fun b => ?_, hc, congrArg Prod.fst hf⟩
  have := h.frames (b :: q)
  rw [hl b] at this
  exact Option.map_eq_none_iff.mp this

variable {s₀ : Phys} {st st' : State}

/-- **One step** keeps the types. -/
theorem step_types {y : Step} (h : TypesInv s₀ st) (hsafe : Safe st y) (hs : step st y = .ok st')
    (hb : Bounded (held st'.refs) st'.phys) : TypesInv s₀ st' := by
  obtain ⟨hinv, htypes⟩ := h
  cases y with
  | lookup addr cls =>
    obtain ⟨r, hr, hst⟩ := bind_eq_ok.mp hs
    cases hst
    obtain ⟨n, hn⟩ := Phys.has_iff.mp hinv.shape.root
    obtain ⟨hl, -⟩ := pageLookup_spec provides_ensureFreeDesc (hinv.mono (Set.subset_insert [] Set.univ)) hn hr
    exact ⟨hl.inv.mono (Set.subset_univ _), htypes.trans hl.types⟩
  | ref p =>
    rw [step] at hs
    split at hs
    · cases hs
      exact ⟨hinv, htypes⟩
    · next hp =>
      cases hs
      rw [held_cons] at hb
      have href := pageRef_spec hinv.shape hinv.lists hinv.counted hp hb.room
      refine ⟨?_, htypes.trans (types_ref href.1)⟩
      rw [held_cons]
      exact (hinv.mono (Set.subset_insert p Set.univ)).ref hp hb.room
  | unref i =>
    rw [step] at hs
    cases hp : st.refs[i]? with
    | none =>
      rw [hp] at hs
      cases hs
      exact ⟨hinv, htypes⟩
    | some p =>
      rw [hp] at hs
      obtain ⟨s, hunref, hst⟩ := bind_eq_ok.mp hs
      cases hst
      rw [held_eraseIdx hp] at hinv
      have hcounted := hinv.counted
      rw [direct_bump] at hcounted
      obtain ⟨hdown, hup⟩ := hsafe p hp
      refine ⟨hinv.unref hunref, htypes.trans ?_⟩
      exact pageUnrefRec_types (by omega) (releasable hinv.shape hinv.lists hcounted) hdown hup hunref

def start (s₀ : Phys) : State := ⟨s₀, []⟩

lemma inv_attached {kernelEnd : ℕ} {regions : List Region}
    (h : run (fun s x => Region.attach x s) (initAllocator kernelEnd) regions = .ok s₀) :
    Inv (fun _ => 0) ∅ s₀ :=
  run_inv (P := fun _ => True) (fun _ _ _ hi _ hs => attach_inv hi hs) (inv_initAllocator kernelEnd)
    (fun _ _ => trivial) h

/-- **Memory types are stable** in every run whose releases join no memory of different types. -/
theorem types_stable (kernelEnd : ℕ) (regions : List Region) (s₀ : Phys)
    (hatt : run (fun s x => Region.attach x s) (initAllocator kernelEnd) regions = .ok s₀)
    (ys : List Step) (st : State) (hrun : run step (start s₀) ys = .ok st)
    (hsafe : ∀ pre y u, pre ++ [y] <+: ys → run step (start s₀) pre = .ok u → Safe u y)
    (hb : ∀ pre u, pre <+: ys → run step (start s₀) pre = .ok u → Bounded (held u.refs) u.phys) :
    ∀ x < 2 ^ maxClass, typeOf st.phys x = typeOf s₀ x := by
  have hinv₀ := inv_attached hatt
  have hstart : TypesInv s₀ (start s₀) := ⟨hinv₀.mono (Set.subset_univ _), TypesKept.refl s₀⟩
  obtain ⟨hinv, htypes⟩ : TypesInv s₀ st := by
    refine run_inv_when (C := fun u y => Safe u y ∧
      ∀ u', step u y = .ok u' → Bounded (held u'.refs) u'.phys)
      (fun u y u' hu hC hs => step_types hu hC.1 hs (hC.2 u' hs)) hstart ?_ hrun
    intro pre y u hpre hu
    exact ⟨hsafe pre y u hpre hu, fun u' hs => hb _ u' hpre ((run_snoc_ok hu y).trans hs)⟩
  exact fun x hx => typeOf_eq hinv₀.shape hinv.shape htypes hx

def quarter : List Region := [⟨0, 0x400000000000000, false⟩]

def sample : List Step :=
  [.lookup 0x800000000000000 47, .ref [true], .unref 0, .lookup 0 45, .ref [false, false, false],
    .unref 0]

theorem types_stable_sample :
    ∃ s₀ st, run (fun s x => Region.attach x s) (initAllocator 0) quarter = .ok s₀ ∧
      run step (start s₀) sample = .ok st ∧ ∀ x < 2 ^ maxClass, typeOf st.phys x = typeOf s₀ x := by
  have hcheck : ∃ s₀, run (fun s x => Region.attach x s) (initAllocator 0) quarter = .ok s₀ ∧
      ∀ k ≤ 6, ∃ u, run step (start s₀) (sample.take k) = .ok u ∧
        (∀ y ∈ sample[k]?, Safe u y) ∧ u.refs.length + u.phys.pools.length + 1 < 2 ^ 32 := by
    decide
  obtain ⟨s₀, hatt, hall⟩ := hcheck
  obtain ⟨st, hrun, -⟩ := hall 6 (le_refl 6)
  refine ⟨s₀, st, hatt, hrun, types_stable 0 quarter s₀ hatt sample st hrun ?_ ?_⟩
  · intro pre y u hpre hu
    have hlen := hpre.length_le
    rw [length_append, length_singleton] at hlen
    have hlen' : pre.length ≤ 6 := Nat.le_of_succ_le hlen
    obtain ⟨u', hu', hsafe, -⟩ := hall pre.length hlen'
    rw [← prefix_iff_eq_take.mp ((prefix_append pre [y]).trans hpre), hu] at hu'
    cases hu'
    refine hsafe y ?_
    obtain ⟨post, hpost⟩ := hpre
    rw [← hpost, append_assoc, getElem?_append_right (le_refl _), Nat.sub_self]
    rfl
  · intro pre u hpre hu
    obtain ⟨u', hu', -, hlen⟩ := hall pre.length hpre.length_le
    rw [← prefix_iff_eq_take.mp hpre, hu] at hu'
    cases hu'
    exact bounded_of_length hlen

/-- The quarter beside the memory, which was never attached, is referenced and released: it is
joined with the memory, which is not attached any more. -/
theorem types_lost :
    ¬ ∀ kernelEnd regions s₀, run (fun s x => Region.attach x s) (initAllocator kernelEnd) regions =
      .ok s₀ → ∀ ys st, run step (start s₀) ys = .ok st →
        ∀ x < 2 ^ maxClass, typeOf st.phys x = typeOf s₀ x := by
  intro hall
  have hbad : ∃ s₀, run (fun s x => Region.attach x s) (initAllocator 0) quarter = .ok s₀ ∧
      ∃ st, run step (start s₀) [.lookup 0x400000000000000 46, .ref [true, false], .unref 0] = .ok st ∧
        typeOf s₀ 0 = some .allocatable ∧ typeOf st.phys 0 = some .partialNode := by
    decide
  obtain ⟨s₀, hatt, st, hrun, h₀, h⟩ := hbad
  have := hall 0 quarter s₀ hatt _ st hrun 0 (Nat.two_pow_pos _)
  rw [h₀, h] at this
  cases this

end Jos.MemTypes
