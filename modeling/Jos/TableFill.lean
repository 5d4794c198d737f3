import Jos.TableModel
import Jos.AttachOrder
import Mathlib.Data.UInt

/-!
What `alloc_fill_pt` leaves for the hardware to find.

The walk of the hardware is that of a processor with four levels of tables. An entry with `PTE_PS`
stands for a large page of 2 MB, or of 1 GB on a processor that has them. Anywhere else the bit is
reserved, and the access faults.
-/

namespace Jos.PmapModel

open CArray Jos.Dyadic Runs AttachOrder Nat

def LargePage (has1gb : Bool) (l : ℕ) : Prop := l = 1 ∨ l = 2 ∧ has1gb
  deriving Decidable

/-- What the entry of a table of the level leads to: the page of 4 KB and the bits of the last entry -/
def hwEntry (σ : Mem) (va : ℕ) : ℕ → Pte → Option (ℕ × UInt64)
  | 0, e => if e.Has pteP then some (e.frame, e.bits) else none
  | l + 1, e =>
    if ¬e.Has pteP then none
    else if e.Has ptePs then
      if LargePage σ.has1gbPages (l + 1) then
        some (e.frame + va / classSize 0 % levelSize (l + 1), e.bits)
      else none
    else hwEntry σ va l (σ.pte (e.frame * 512 + tableIndex l va))

variable {σ σ' σ₁ : Mem} {l n i j i0 i1 dst va : ℕ} {base e : Pte} {r : Mem × Bool} {has1gb : Bool}
  {fill : ℕ → Pte → Mem → Except Failure (Mem × Bool)}

lemma hwEntry_absent (h : ¬e.Has pteP) : hwEntry σ va l e = none := by
  cases l with
  | zero => exact if_neg h
  | succ l => exact if_pos h

lemma hwEntry_reserved (hps : e.Has ptePs) (hl : ¬LargePage σ.has1gbPages l) (hpos : l ≠ 0) :
    hwEntry σ va l e = none := by
  obtain ⟨k, rfl⟩ := exists_eq_succ_of_ne_zero hpos
  rw [hwEntry, if_pos hps, if_neg hl]
  exact ite_self none

/-- `need_recur` -/
def NeedRecur (has1gb : Bool) (l : ℕ) : Prop := 2 < l ∨ l = 2 ∧ ¬has1gb
  deriving Decidable

lemma not_largePage (h : NeedRecur has1gb l) : ¬LargePage has1gb l := by
  rintro (rfl | ⟨rfl, h1⟩)
  · exact h.elim (by omega) (fun h => by omega)
  · exact h.elim (by omega) (fun h => h.2 h1)

lemma largePage_of_not (h : ¬NeedRecur has1gb l) (hpos : l ≠ 0) : LargePage has1gb l := by
  have hle : l ≤ 2 := not_lt.mp fun hlt => h (.inl hlt)
  have hcases : l = 1 ∨ l = 2 := by omega
  rcases hcases with rfl | rfl
  · exact .inl rfl
  · exact .inr ⟨rfl, by_contra fun h1 => h (.inr ⟨rfl, h1⟩)⟩

def FreeFrame (s : Phys) (f : ℕ) : Prop :=
  ∃ p n, s.node p = some n ∧ n.state = .allocatable ∧ n.refc = 0 ∧ s.Leaf p ∧ Covers maxClass p f

/-- **The range is filled**: the hardware finds the memory from the base on, with its flags, and nothing
else is written but tables that were allocated. -/
structure Filled (l dst : ℕ) (base : Pte) (i0 i1 : ℕ) (σ σ' : Mem) : Prop where
  walk : ∀ i, i0 ≤ i → i < i1 → ∀ va, ∃ bits,
    hwEntry σ' va l (σ'.pte (dst + i)) =
      some (base.frame + (i - i0) * levelSize l + va / classSize 0 % levelSize l, bits) ∧
    bits &&& ~~~ptePs = base.bits &&& ~~~ptePs
  others : ∀ j, j < dst + i0 ∨ dst + i1 ≤ j → σ'.pte j ≠ σ.pte j →
    FreeFrame σ.phys (j / 512) ∧ ¬FreeFrame σ'.phys (j / 512)

lemma setPte_pte_self (σ : Mem) (i : ℕ) (e : Pte) : (σ.setPte i e).pte i = e := Function.update_self ..

lemma setPte_pte_ne (h : j ≠ i) (σ : Mem) (e : Pte) : (σ.setPte i e).pte j = σ.pte j := Function.update_of_ne h ..

lemma fillEntries_plain (h : fillEntries (fillEntry l) l n i base σ = .ok r) :
    r.1.has1gbPages = σ.has1gbPages ∧ r.1.phys = σ.phys ∧
      (∀ k < n, r.1.pte (i + k) = ⟨base.frame + k * levelSize l, base.bits⟩) ∧
      ∀ j, j < i ∨ i + n ≤ j → r.1.pte j = σ.pte j := by
  induction n generalizing i base σ with
  | zero =>
    cases h
    exact ⟨rfl, rfl, fun k hk => absurd hk (not_lt_zero k), fun _ _ => rfl⟩
  | succ n ih =>
    obtain ⟨r₁, h₁, h⟩ := bind_eq_ok.mp h
    replace h₁ := then_ok h₁
    cases h₁
    obtain ⟨h1gb, hphys, hin, hout⟩ := ih h
    refine ⟨h1gb, hphys, fun k hk => ?_, fun j hj => ?_⟩
    · rcases Nat.eq_zero_or_pos k with rfl | hpos
      · -- the later rounds leave the entry alone
        rw [add_zero, zero_mul, add_zero, hout i (.inl (lt_succ_self i)), setPte_pte_self]
      · have hstep := hin (k - 1) (by omega)
        have hindex : i + 1 + (k - 1) = i + k := by omega
        have hframe : base.frame + levelSize l + (k - 1) * levelSize l = base.frame + k * levelSize l := by
          obtain ⟨j, rfl⟩ := exists_eq_succ_of_ne_zero hpos.ne'
          rw [succ_sub_one, succ_mul]
          omega
        rw [hindex, hframe] at hstep
        exact hstep
    · rw [hout j (by omega), setPte_pte_ne (by omega)]

def stored (l : ℕ) (base : Pte) : Pte := if l = 0 then base else { base with bits := base.bits ||| ptePs }

lemma allocFillPt_plain (h : ¬NeedRecur σ.has1gbPages l) :
    allocFillPt l dst base i0 i1 σ = (assert .allocFillPt (i0 ≠ i1) >>= fun _ =>
      fillEntries (fillEntry l) l (i1 - i0) (dst + i0) (stored l base) σ) := by
  cases l with
  | zero => rfl
  | succ l =>
    unfold NeedRecur at h
    rw [allocFillPt, if_neg h, stored, if_neg (succ_ne_zero l)]

lemma allocFillPt_recur (h : NeedRecur σ.has1gbPages (l + 1)) :
    allocFillPt (l + 1) dst base i0 i1 σ = (assert .allocFillPt (i0 ≠ i1) >>= fun _ =>
      fillEntries (fun i base σ => do
          let r ← allocPt i σ
          if r.2 then allocFillPt l i base 0 512 r.1 else .ok r)
        (l + 1) (i1 - i0) (dst + i0) base σ) := by
  unfold NeedRecur at h
  rw [allocFillPt, if_pos h]

lemma or_and_disjoint {b c : UInt64} (h : b &&& c = 0) (a : UInt64) : (a ||| b) &&& c = a &&& c := by
  refine UInt64.toBitVec_inj.mp ?_
  have hb := congrArg UInt64.toBitVec h
  simp only [UInt64.toBitVec_and, UInt64.toBitVec_or, UInt64.toBitVec_zero] at hb ⊢
  rw [BitVec.and_or_distrib_right, hb, BitVec.or_zero]

lemma or_and_self (a b : UInt64) : (a ||| b) &&& b = b := by
  refine UInt64.toBitVec_inj.mp ?_
  ext i
  simpa using .inr

lemma stored_frame (l : ℕ) (base : Pte) : (stored l base).frame = base.frame := by
  unfold stored
  split <;> rfl

lemma stored_bits (l : ℕ) (base : Pte) : (stored l base).bits &&& ~~~ptePs = base.bits &&& ~~~ptePs := by
  unfold stored
  split
  · rfl
  · exact or_and_disjoint (by decide) _

lemma stored_present (l : ℕ) (base : Pte) : (stored l base).Has pteP ↔ base.Has pteP := by
  unfold stored Pte.Has
  split
  · rfl
  · rw [or_and_disjoint (by decide)]

lemma stored_large (hl : l ≠ 0) (base : Pte) : (stored l base).Has ptePs := by
  unfold stored Pte.Has
  rw [if_neg hl, or_and_self]
  decide

lemma hwEntry_stored (hP : e.Has pteP) (hps : l ≠ 0 → e.Has ptePs) (h : ¬NeedRecur σ.has1gbPages l) :
    hwEntry σ va l e = some (e.frame + va / classSize 0 % levelSize l, e.bits) := by
  cases l with
  | zero => rw [hwEntry, if_pos hP, levelSize, pow_zero, mod_one, add_zero]
  | succ l =>
    rw [hwEntry, if_neg (not_not.mpr hP), if_pos (hps (succ_ne_zero l)), if_pos (largePage_of_not h (succ_ne_zero l))]

/-- **Filling without a recursion** -/
lemma filled_plain (hrec : ¬NeedRecur σ.has1gbPages l) (hP : base.Has pteP)
    (h : allocFillPt l dst base i0 i1 σ = .ok r) : Filled l dst base i0 i1 σ r.1 := by
  rw [allocFillPt_plain hrec] at h
  replace h := then_ok h
  obtain ⟨h1gb, hphys, hin, hout⟩ := fillEntries_plain h
  refine ⟨fun i hlo hhi va => ⟨(stored l base).bits, ?_, stored_bits l base⟩, fun j hj hne => ?_⟩
  · have hentry := hin (i - i0) (by omega)
    have hindex : dst + i0 + (i - i0) = dst + i := by omega
    rw [hindex, stored_frame] at hentry
    rw [hentry]
    exact hwEntry_stored ((stored_present l base).mpr hP) (fun hl => stored_large hl base) (h1gb ▸ hrec)
  · exact absurd (hout j (by omega)) hne

structure Spoiled (i : ℕ) (σ σ' : Mem) : Prop where
  has1gb : σ'.has1gbPages = σ.has1gbPages
  before : ∀ j < i, σ'.pte j = σ.pte j ∨ σ'.pte j = ⟨0, 0⟩

lemma Spoiled.refl (i : ℕ) (σ : Mem) : Spoiled i σ σ := ⟨rfl, fun _ _ => .inl rfl⟩

lemma Spoiled.trans (h : Spoiled i σ σ₁) (h' : Spoiled j σ₁ σ') (hij : i ≤ j) : Spoiled i σ σ' where
  has1gb := h'.has1gb.trans h.has1gb
  before := fun k hk => by
    rcases h'.before k (by omega) with h₁ | h₁
    · rw [h₁]
      exact h.before k hk
    · exact .inr h₁

lemma spoiled_setPte (σ : Mem) (i : ℕ) (e : Pte) : Spoiled i σ (σ.setPte i e) :=
  ⟨rfl, fun _ hj => .inl (setPte_pte_ne hj.ne σ e)⟩

lemma spoiled_allocPt (h : allocPt i σ = .ok r) : Spoiled i σ r.1 := by
  unfold allocPt at h
  split at h
  · obtain ⟨⟨s, o⟩, -, h⟩ := bind_eq_ok.mp h
    cases o with
    | none =>
      cases h
      exact ⟨rfl, fun _ _ => .inl rfl⟩
    | some p =>
      obtain ⟨m, -, h⟩ := bind_eq_ok.mp h
      replace h := then_ok h
      cases h
      refine ⟨rfl, fun k hk => ?_⟩
      show (if k / 512 = m.addr then _ else _) = _ ∨ (if k / 512 = m.addr then _ else _) = _
      split
      · exact .inr rfl
      · exact .inl (setPte_pte_ne hk.ne _ _)
  · cases h
    exact .refl i σ

lemma spoiled_fillEntry (h : fillEntry l i base σ = .ok r) : Spoiled i σ r.1 := by
  replace h := then_ok h
  cases h
  exact spoiled_setPte σ i base

lemma spoiled_fillEntries (hfill : ∀ i base σ r, fill i base σ = .ok r → Spoiled i σ r.1)
    (h : fillEntries fill l n i base σ = .ok r) : Spoiled i σ r.1 := by
  induction n generalizing i base σ with
  | zero =>
    cases h
    exact .refl i σ
  | succ n ih =>
    obtain ⟨r₁, h₁, h⟩ := bind_eq_ok.mp h
    have hs := hfill _ _ _ _ h₁
    split at h
    · exact hs.trans (ih h) (le_succ i)
    · cases h
      exact hs

lemma spoiled_allocFillPt (h : allocFillPt l dst base i0 i1 σ = .ok r) : Spoiled (dst + i0) σ r.1 := by
  induction l generalizing dst base i0 i1 σ r with
  | zero =>
    replace h := then_ok h
    exact spoiled_fillEntries (fun _ _ _ _ => spoiled_fillEntry) h
  | succ l ih =>
    by_cases hrec : NeedRecur σ.has1gbPages (l + 1)
    · rw [allocFillPt_recur hrec] at h
      replace h := then_ok h
      refine spoiled_fillEntries (fun i base σ r h => ?_) h
      obtain ⟨r₁, h₁, h⟩ := bind_eq_ok.mp h
      split at h
      · exact (spoiled_allocPt h₁).trans (ih h) le_rfl
      · cases h
        exact spoiled_allocPt h₁
    · rw [allocFillPt_plain hrec] at h
      replace h := then_ok h
      exact spoiled_fillEntries (fun _ _ _ _ => spoiled_fillEntry) h

def NoTable (e : Pte) : Prop := ¬e.Has pteP ∨ e.Has ptePs

lemma Spoiled.noTable (h : Spoiled i σ σ') (hj : j < i) (he : NoTable (σ.pte j)) : NoTable (σ'.pte j) := by
  rcases h.before j hj with hsame | hzero
  · rw [hsame]
    exact he
  · rw [hzero]
    exact .inl (by decide)

lemma fillEntries_noTable (hn : 0 < n) (hfill : ∀ i base σ r, fill i base σ = .ok r → Spoiled i σ r.1)
    (hfirst : ∀ i base σ σ', fill i base σ = .ok (σ', true) → NoTable (σ'.pte i))
    (h : fillEntries fill l n i base σ = .ok (σ', true)) : NoTable (σ'.pte i) := by
  obtain ⟨n, rfl⟩ := exists_eq_succ_of_ne_zero hn.ne'
  obtain ⟨⟨σ₁, b⟩, h₁, h⟩ := bind_eq_ok.mp h
  cases b with
  | false => cases h
  | true => exact (spoiled_fillEntries hfill h).noTable (lt_succ_self i) (hfirst _ _ _ _ h₁)

/-- **The recursion fills the entries behind the one it has allocated a table for**, beginning with
this entry itself: the table is lost at once. -/
lemma allocFillPt_noTable (hl : l ≠ 0) (hi : i0 < i1) (h : allocFillPt l dst base i0 i1 σ = .ok (σ', true)) :
    NoTable (σ'.pte (dst + i0)) := by
  induction l generalizing dst base i0 i1 σ σ' with
  | zero => exact absurd rfl hl
  | succ l ih =>
    by_cases hrec : NeedRecur σ.has1gbPages (l + 1)
    · rw [allocFillPt_recur hrec] at h
      replace h := then_ok h
      have hl' : l ≠ 0 := by
        rintro rfl
        exact hrec.elim (by omega) (fun h => by omega)
      refine fillEntries_noTable (by omega) (fun i base σ r h => ?_) (fun i base σ σ' h => ?_) h
      · obtain ⟨r₁, h₁, h⟩ := bind_eq_ok.mp h
        split at h
        · exact (spoiled_allocPt h₁).trans (spoiled_allocFillPt h) le_rfl
        · cases h
          exact spoiled_allocPt h₁
      · obtain ⟨⟨σ₁, b⟩, -, h⟩ := bind_eq_ok.mp h
        cases b with
        | false => cases h
        | true => exact ih hl' (by omega) h
    · rw [allocFillPt_plain hrec] at h
      replace h := then_ok h
      obtain ⟨-, -, hin, -⟩ := fillEntries_plain h
      have hentry := hin 0 (by omega)
      rw [add_zero] at hentry
      rw [hentry]
      exact .inr (stored_large hl base)

/-- **`alloc_fill_pt`** does what it is for exactly if it does not call itself, and the base is present. -/
theorem alloc_fill_pt_iff (hi : i0 < i1) (h : allocFillPt l dst base i0 i1 σ = .ok (σ', true)) :
    Filled l dst base i0 i1 σ σ' ↔ base.Has pteP ∧ ¬NeedRecur σ.has1gbPages l := by
  constructor
  · intro hfilled
    obtain ⟨bits, hwalk, -⟩ := hfilled.walk i0 le_rfl hi 0
    have hpresent : (σ'.pte (dst + i0)).Has pteP := by
      by_contra hno
      rw [hwEntry_absent hno] at hwalk
      cases hwalk
    have hplain : ¬NeedRecur σ.has1gbPages l := by
      intro hrec
      have hl : l ≠ 0 := by
        rintro rfl
        exact hrec.elim (by omega) (fun h => by omega)
      have h1gb := (spoiled_allocFillPt h).has1gb
      rcases allocFillPt_noTable hl hi h with hno | hps
      · exact hno hpresent
      · rw [hwEntry_reserved hps (h1gb ▸ not_largePage hrec) hl] at hwalk
        cases hwalk
    refine ⟨?_, hplain⟩
    rw [allocFillPt_plain hplain] at h
    replace h := then_ok h
    obtain ⟨-, -, hin, -⟩ := fillEntries_plain h
    have hentry := hin 0 (by omega)
    rw [add_zero] at hentry
    rw [hentry] at hpresent
    exact (stored_present l base).mp hpresent
  · rintro ⟨hP, hrec⟩
    exact filled_plain hrec hP h

def emptyTables (s : Phys) : Mem where
  phys := s
  pte := fun _ => ⟨0, 0⟩
  live := []
  pml4 := fun _ => 0
  root := fun _ => .null
  has1gbPages := false
  nxSupported := false

/-- Two pages of 2 MB -/
theorem alloc_fill_pt_two_pages :
    ∃ σ', allocFillPt 1 (16 * 512) ⟨0x40000, pteP⟩ 3 5 (emptyTables (initAllocator 0)) = .ok (σ', true) ∧
      Filled 1 (16 * 512) ⟨0x40000, pteP⟩ 3 5 (emptyTables (initAllocator 0)) σ' :=
  ⟨_, rfl, (alloc_fill_pt_iff (by decide) rfl).mpr ⟨by decide, by decide⟩⟩

/-- A page of 1 GB without support for it: the hardware finds nothing, and the entry behind the one
that was to be set is overwritten. -/
theorem fill_overwrites_table :
    ∃ s σ', run attachStep (initAllocator 0) [⟨0x400000, 0x800000, false⟩] = .ok s ∧
      allocFillPt 2 (16 * 512) ⟨0x40000, pteP⟩ 0 1 (emptyTables s) = .ok (σ', true) ∧
      ¬Filled 2 (16 * 512) ⟨0x40000, pteP⟩ 0 1 (emptyTables s) σ' ∧
      hwEntry σ' 0 2 (σ'.pte (16 * 512)) = none ∧ σ'.pte (16 * 512 + 1) = ⟨0x40200, pteP ||| ptePs⟩ := by
  have hend : ∃ s, run attachStep (initAllocator 0) [⟨0x400000, 0x800000, false⟩] = .ok s ∧
      ∃ r, run (fun r (_ : Unit) => allocFillPt 2 (16 * 512) ⟨0x40000, pteP⟩ 0 1 r.1) (emptyTables s, true)
          [()] = .ok r ∧ r.2 = true ∧ hwEntry r.1 0 2 (r.1.pte (16 * 512)) = none ∧
        r.1.pte (16 * 512 + 1) = ⟨0x40200, pteP ||| ptePs⟩ := by
    decide +kernel
  obtain ⟨s, hs, ⟨σ', b⟩, hr, rfl, hwalk, hnext⟩ := hend
  rw [run_singleton] at hr
  refine ⟨s, σ', hs, hr, fun hfilled => ?_, hwalk, hnext⟩
  obtain ⟨bits, hfound, -⟩ := hfilled.walk 0 le_rfl (by decide) 0
  rw [add_zero, hwalk] at hfound
  cases hfound

end Jos.PmapModel
