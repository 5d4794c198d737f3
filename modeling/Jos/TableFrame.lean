import Jos.PhysQuiet
import Jos.TableModel

/-!
What the page tables have to do with the trees of the spaces: nothing. The calls that change tables
take pages from the physical memory and give them back, and leave the trees alone.
-/

namespace Jos.PmapModel

open CArray

/-- Only tables, and pages of the physical memory, are changed. -/
structure Mem.TablesOnly (σ σ' : Mem) : Prop where
  phys : σ.phys.Quiet σ'.phys
  root : σ'.root = σ.root
  live : σ'.live = σ.live
  pml4 : σ'.pml4 = σ.pml4

variable {σ σ' σ₁ : Mem} {l i n dst pt i0 i1 f addr cls space : ℕ} {base : Pte} {r : Mem × Bool}
  {below : ℕ → Mem → Except Failure Mem} {fill : ℕ → Pte → Mem → Except Failure (Mem × Bool)} {s : Phys}

namespace Mem.TablesOnly

lemma refl (σ : Mem) : σ.TablesOnly σ := ⟨.refl _, rfl, rfl, rfl⟩

lemma trans (h : σ.TablesOnly σ₁) (h' : σ₁.TablesOnly σ') : σ.TablesOnly σ' :=
  ⟨h.phys.trans h'.phys, h'.root.trans h.root, h'.live.trans h.live, h'.pml4.trans h.pml4⟩

lemma setPte (h : σ.TablesOnly σ') (i : ℕ) (e : Pte) : σ.TablesOnly (σ'.setPte i e) :=
  ⟨h.phys, h.root, h.live, h.pml4⟩

lemma clearTable (h : σ.TablesOnly σ') (f : ℕ) : σ.TablesOnly (σ'.clearTable f) := ⟨h.phys, h.root, h.live, h.pml4⟩

lemma withPhys (h : σ.TablesOnly σ') (hs : σ'.phys.Quiet s) : σ.TablesOnly { σ' with phys := s } :=
  ⟨h.phys.trans hs, h.root, h.live, h.pml4⟩

end Mem.TablesOnly

open Mem

lemma refTable_only (σ : Mem) (f : ℕ) : σ.TablesOnly (σ.refTable f) := by
  unfold refTable
  split
  · exact .refl _
  · exact (TablesOnly.refl σ).withPhys (quiet_pageRef _ _)

lemma unrefTable_only (h : σ.unrefTable f = .ok σ') : σ.TablesOnly σ' := by
  unfold unrefTable at h
  split at h
  · cases h
    exact .refl _
  · obtain ⟨s, hs, h⟩ := bind_eq_ok.mp h
    cases h
    exact (TablesOnly.refl σ).withPhys (pageUnref_quiet hs)

lemma allocPt_only (h : allocPt dst σ = .ok r) : σ.TablesOnly r.1 := by
  unfold allocPt at h
  split at h
  swap
  · cases h
    exact .refl _
  obtain ⟨⟨s, page⟩, hs, h⟩ := bind_eq_ok.mp h
  have hquiet := (allocPage_ends true σ.phys 0).ok hs
  cases page with
  | none =>
    cases h
    exact (TablesOnly.refl σ).withPhys hquiet
  | some p =>
    obtain ⟨n, -, h⟩ := bind_eq_ok.mp h
    replace h := then_ok h
    cases h
    exact (((TablesOnly.refl σ).withPhys (hquiet.trans (quiet_pageRef p s))).setPte _ _).clearTable _

section

variable (hbelow : ∀ pt σ σ', below pt σ = .ok σ' → σ.TablesOnly σ')
include hbelow

lemma removeEntry_only (h : removeEntry below l i σ = .ok σ') : σ.TablesOnly σ' := by
  unfold removeEntry at h
  split at h
  · cases h
    exact .refl _
  obtain ⟨σ₁, h₁, h⟩ := bind_eq_ok.mp (then_ok h)
  cases h
  refine TablesOnly.setPte ?_ _ _
  split at h₁
  · obtain ⟨σ₀, h₀, h₁⟩ := bind_eq_ok.mp h₁
    exact (hbelow _ _ _ h₀).trans (unrefTable_only h₁)
  · cases h₁
    exact .refl _

lemma removeEntries_only (h : removeEntries below l n i σ = .ok σ') : σ.TablesOnly σ' := by
  induction n generalizing i σ with
  | zero =>
    cases h
    exact .refl _
  | succ n ih =>
    obtain ⟨σ₁, h₁, h⟩ := bind_eq_ok.mp h
    exact (removeEntry_only hbelow h₁).trans (ih h)

end

lemma removePt_only (h : removePt l pt i0 i1 σ = .ok σ') : σ.TablesOnly σ' := by
  induction l generalizing pt i0 i1 σ σ' with
  | zero =>
    refine removeEntries_only (fun _ σ _ h => ?_) h
    cases h
    exact .refl _
  | succ l ih => exact removeEntries_only (fun _ _ _ h => ih h) h

lemma fillEntries_only (hfill : ∀ i base σ r, fill i base σ = .ok r → σ.TablesOnly r.1)
    (h : fillEntries fill l n i base σ = .ok r) : σ.TablesOnly r.1 := by
  induction n generalizing i base σ with
  | zero =>
    cases h
    exact .refl _
  | succ n ih =>
    obtain ⟨r₁, h₁, h⟩ := bind_eq_ok.mp h
    split at h
    · exact (hfill _ _ _ _ h₁).trans (ih h)
    · cases h
      exact hfill _ _ _ _ h₁

lemma fillEntry_only (h : fillEntry l i base σ = .ok r) : σ.TablesOnly r.1 := by
  replace h := then_ok h
  cases h
  exact (TablesOnly.refl σ).setPte i base

lemma allocFillPt_only (h : allocFillPt l dst base i0 i1 σ = .ok r) : σ.TablesOnly r.1 := by
  induction l generalizing dst base i0 i1 σ r with
  | zero =>
    replace h := then_ok h
    exact fillEntries_only (fun _ _ _ _ h => fillEntry_only h) h
  | succ l ih =>
    replace h := then_ok h
    split at h
    · refine fillEntries_only (fun i base σ r h => ?_) h
      obtain ⟨r₁, h₁, h⟩ := bind_eq_ok.mp h
      split at h
      · exact (allocPt_only h₁).trans (ih h)
      · cases h
        exact allocPt_only h₁
    · exact fillEntries_only (fun _ _ _ _ h => fillEntry_only h) h

lemma splitEntry_only (h : splitEntry l i σ = .ok r) : σ.TablesOnly r.1 := by
  obtain ⟨r₁, h₁, h⟩ := bind_eq_ok.mp h
  split at h
  · exact (allocPt_only h₁).trans (allocFillPt_only h)
  · cases h
    exact allocPt_only h₁

lemma foldl_only {α : Type} {g : Mem → α → Mem} (hg : ∀ (σ : Mem) a, σ.TablesOnly (g σ a)) (as : List α) (σ : Mem) :
    σ.TablesOnly (as.foldl g σ) := by
  induction as generalizing σ with
  | nil => exact .refl _
  | cons a as ih => exact (hg σ a).trans (ih (g σ a))

lemma refTables_only (space : ℕ) (σ : Mem) : σ.TablesOnly (refTables space σ) := by
  unfold refTables
  refine foldl_only ?_ _ σ
  intro σ i
  dsimp only
  split
  · exact refTable_only σ _
  · exact .refl _

lemma copySlots_only (dst src : ℕ) (σ : Mem) : σ.TablesOnly (copySlots dst src σ) := ⟨.refl _, rfl, rfl, rfl⟩

lemma propagateOnePml4_only (dst src : ℕ) (σ : Mem) : σ.TablesOnly (propagateOnePml4 dst src σ) :=
  ((refTables_only src σ).trans (refTables_only dst _)).trans (copySlots_only dst src _)

lemma propagatePml4_only (space : ℕ) (σ : Mem) : σ.TablesOnly (propagatePml4 space σ) := by
  unfold propagatePml4
  split
  · exact foldl_only (fun σ dst => propagateOnePml4_only dst space σ) _ σ
  · exact .refl _

lemma unmapTables_only (h : unmapTables addr cls l pt σ = .ok σ') : σ.TablesOnly σ' := by
  induction l generalizing pt σ with
  | zero => exact removePt_only h
  | succ l ih =>
    rw [unmapTables] at h
    split at h
    · exact removePt_only h
    dsimp only at h
    split at h
    · cases h
      exact .refl _
    obtain ⟨σ₁, h₁, h⟩ := bind_eq_ok.mp h
    refine TablesOnly.trans ?_ (ih h)
    split at h₁
    · obtain ⟨r, hr, h₁⟩ := bind_eq_ok.mp h₁
      replace h₁ := then_ok h₁
      cases h₁
      exact splitEntry_only hr
    · cases h₁
      exact .refl _

lemma mapTables_only (h : mapTables base addr cls l pt σ = .ok r) : σ.TablesOnly r.1 := by
  induction l generalizing pt σ with
  | zero => exact allocFillPt_only h
  | succ l ih =>
    rw [mapTables] at h
    split at h
    · exact allocFillPt_only h
    obtain ⟨r₁, h₁, h⟩ := bind_eq_ok.mp h
    have hnext : σ.TablesOnly r₁.1 := by
      split at h₁
      · exact allocPt_only h₁
      split at h₁
      · exact splitEntry_only h₁
      · cases h₁
        exact .refl _
    split at h
    · exact hnext.trans (ih h)
    · cases h
      exact hnext

lemma mapEntries_only (h : mapEntries space addr cls base σ = .ok r) : σ.TablesOnly r.1 := by
  unfold mapEntries at h
  dsimp only at h
  split at h
  · obtain ⟨r₁, h₁, h⟩ := bind_eq_ok.mp h
    cases h
    dsimp only
    split
    · exact (allocFillPt_only h₁).trans (propagatePml4_only space _)
    · exact allocFillPt_only h₁
  obtain ⟨r₁, h₁, h⟩ := bind_eq_ok.mp h
  have hfirst : σ.TablesOnly r₁.1 := by
    split at h₁
    · obtain ⟨r₀, h₀, h₁⟩ := bind_eq_ok.mp h₁
      cases h₁
      dsimp only
      split
      · exact (allocPt_only h₀).trans (propagatePml4_only space _)
      · exact allocPt_only h₀
    · cases h₁
      exact .refl _
  split at h
  · replace h := then_ok h
    exact hfirst.trans (mapTables_only h)
  · cases h
    exact hfirst

lemma unrefTables_only {is : List ℕ} (h : unrefTables is σ = .ok σ') : σ.TablesOnly σ' := by
  induction is generalizing σ with
  | nil =>
    cases h
    exact .refl _
  | cons i is ih =>
    obtain ⟨σ₁, h₁, h⟩ := bind_eq_ok.mp h
    refine TablesOnly.trans ?_ (ih h)
    split at h₁
    · exact unrefTable_only h₁
    · cases h₁
      exact .refl _

end Jos.PmapModel
