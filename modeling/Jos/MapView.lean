import Jos.TableFrame
import Jos.TreeView

/-!
What `map_page` and `unmap_page` do to the address spaces, as far as the trees say what is mapped.
-/

namespace Jos.PmapModel

open CArray Jos.Dyadic Function

variable {s s' : Phys} {v : MapRef} {phy page p : Path} {right : Bool} {k cls addr va nclass space : ℕ}
  {mode : LookupMode} {t root : VTree} {st : VState} {w : List Bool} {flags : UInt32} {σ σ' σ₁ : Mem}
  {type : PageState}

lemma Phys.Placed.unlink (h : s.Placed) (v : MapRef) : (s.unlink v).Placed := h

lemma Phys.Placed.link (h : s.Placed) (p : Path) (v : MapRef) : (s.link p v).Placed := h

lemma ensureFreeDesc_placed {count : ℕ} (h : ensureFreeDesc count s = .ok s') (hp : s.Placed) : s'.Placed :=
  ((ensureFreeDesc_ends count s).ok h).placed hp

lemma allocDescriptor_placed (h : allocDescriptor ensureFreeDesc s = .ok s') (hp : s.Placed) : s'.Placed :=
  ((allocDescriptor_ends ensureFreeDesc_ends s).ok h).placed hp

lemma pageUnref_placed (h : pageUnref p s = .ok s') (hp : s.Placed) : s'.Placed := (pageUnref_quiet h).placed hp

lemma pageRef_placed (hp : s.Placed) (p : Path) : (pageRef p s).Placed := (quiet_pageRef p s).placed hp

lemma pageLookup_placed {r : Phys × Path} (h : pageLookup ensureFreeDesc type s p addr cls = .ok r)
    (hp : s.Placed) : r.1.Placed :=
  ((pageLookup_ends ensureFreeDesc_ends s p addr cls).ok h).placed hp

lemma allocVirtualChild_placed (h : allocVirtualChild v phy right s = .ok s') (hp : s.Placed) : s'.Placed := by
  obtain ⟨s₁, h₁, h⟩ := bind_eq_ok.mp (then_ok h)
  cases h
  exact (pageRef_placed (allocDescriptor_placed h₁ hp) _).link _ _

lemma splitMapping_placed (h : splitMapping v nclass st phy s = .ok s') (hp : s.Placed) : s'.Placed := by
  obtain ⟨n, -, h⟩ := bind_eq_ok.mp h
  obtain ⟨r, hr, h⟩ := bind_eq_ok.mp (then_ok (then_ok h))
  obtain ⟨s₁, h₁, h⟩ := bind_eq_ok.mp (then_ok h)
  obtain ⟨s₂, h₂, h⟩ := bind_eq_ok.mp h
  have hp₂ := allocVirtualChild_placed h₂ (allocVirtualChild_placed h₁ (pageLookup_placed hr hp))
  exact pageUnref_placed h (hp₂.unlink v)

variable {y : Phys × VTree × List Bool} {x : Phys × VTree}

lemma expand_placed (h : expand v nclass cls right t s = .ok x) (hp : s.Placed) : x.1.Placed := by
  cases t with
  | null => cases h
  | node st phy l r =>
    obtain ⟨s₁, h₁, h⟩ := bind_eq_ok.mp h
    have hp₁ := ensureFreeDesc_placed h₁ hp
    cases phy with
    | some p =>
      obtain ⟨s₂, h₂, h⟩ := bind_eq_ok.mp h
      cases h
      exact splitMapping_placed h₂ hp₁
    | none =>
      obtain ⟨s₂, h₂, h⟩ := bind_eq_ok.mp (then_ok h)
      cases h
      exact allocDescriptor_placed h₂ hp₁

lemma lookupVirtual_placed (h : lookupVirtual mode addr cls k v t s = .ok y) (hp : s.Placed) : y.1.Placed := by
  induction k generalizing v t s y with
  | zero =>
    cases h
    exact hp
  | succ k ih =>
    rw [lookupVirtual] at h
    split at h
    · cases h
      exact hp
    · obtain ⟨x, hx, h⟩ := bind_eq_ok.mp h
      obtain ⟨z, hz, h⟩ := bind_eq_ok.mp h
      cases h
      refine ih (y := z) hz ?_
      split at hx
      · exact expand_placed hx hp
      · cases hx
        exact hp

lemma unmapPageRemove_placed (h : unmapPageRemove space w t s = .ok s') (hp : s.Placed) : s'.Placed := by
  induction t generalizing w s s' with
  | null =>
    cases h
    exact hp
  | node st phy l r ihl ihr =>
    obtain ⟨s₁, h₁, h⟩ := bind_eq_ok.mp h
    cases h
    refine Phys.Placed.unlink (s := s₁) ?_ (space, w)
    cases phy with
    | some p =>
      replace h₁ := then_ok (then_ok h₁)
      exact pageUnref_placed h₁ hp
    | none =>
      obtain ⟨s₂, h₂, h₁⟩ := bind_eq_ok.mp (then_ok h₁)
      exact ihr h₁ (ihl h₂ hp)

lemma lookupVirtual_null (h : lookupVirtual mode addr cls k v .null s = .ok y) : k = 0 := by
  cases k with
  | zero => rfl
  | succ k =>
    rw [lookupVirtual] at h
    rw [if_neg (fun hn => hn.2)] at h
    obtain ⟨x, hx, -⟩ := bind_eq_ok.mp h
    rw [VTree.child, if_pos rfl] at hx
    cases hx

lemma pageLookupVirtual_view (h : pageLookupVirtual mode space addr cls root s = .ok y) (hok : root.Ok 0) :
    y.2.1.Ok 0 ∧ ∀ va, translation y.2.1 va = translation root va := by
  have htree : y.2 = lookupTree mode addr cls (maxClass - cls) root := lookupVirtual_tree h
  rw [htree]
  by_cases hcls : cls ≤ maxClass
  swap
  -- there is nothing above the root
  · rw [Nat.sub_eq_zero_of_le (not_le.mp hcls).le]
    exact ⟨hok, fun _ => rfl⟩
  by_cases hroot : root = .null
  · rw [hroot] at h ⊢
    rw [lookupVirtual_null h]
    exact ⟨VTree.ok_null 0, fun _ => rfl⟩
  · refine ⟨(lookupTree_ok hok hroot).1, fun va => ?_⟩
    have hview := translate_lookupTree va mode addr hok hroot (show 0 + (cls + (maxClass - cls)) = maxClass by omega)
    rwa [show cls + (maxClass - cls) = maxClass by omega] at hview

lemma samePage_whole (addr va : ℕ) : SamePage maxClass addr va := rfl

lemma unmapTree_view (h : unmapTree space addr cls root s = .ok x) (hok : root.Ok 0) (hcls : cls ≤ maxClass) :
    x.2.Ok 0 ∧ ∀ va, translation x.2 va = if SamePage cls addr va then none else translation root va := by
  rw [unmapTree_tree h]
  by_cases hroot : root = .null
  · obtain ⟨y, hy, -⟩ := bind_eq_ok.mp h
    rw [hroot] at hy ⊢
    have hzero := lookupVirtual_null hy
    obtain rfl : cls = maxClass := by omega
    exact ⟨VTree.ok_fresh 0, fun va => (VTree.translate_fresh va maxClass).trans (if_pos (samePage_whole addr va)).symm⟩
  · exact ⟨(good_unmapped addr cls ⟨hok, hroot⟩).1, fun va => translation_unmapped addr va hok hroot hcls⟩

def storedProt (flags : UInt32) : UInt32 := flags &&& ~~~nodeTypeMask &&& ~~~protCombine

lemma mapTree_view {x x' : Phys × VTree} (hu : unmapTree space addr cls root s = .ok x)
    (h : mapTree space addr cls page flags x.2 s' = .ok x') (hok : root.Ok 0)
    (hlen : cls + page.length = maxClass) :
    x'.2.Ok 0 ∧ ∀ va, translation x'.2 va = if SamePage cls addr va then
      some (start maxClass page + va / 2 ^ classBase % 2 ^ cls, storedProt flags) else translation root va := by
  rw [unmapTree_tree hu] at h
  by_cases hroot : root = .null
  · obtain ⟨y, hy, -⟩ := bind_eq_ok.mp hu
    rw [hroot] at hy h
    have hzero := lookupVirtual_null hy
    obtain rfl : cls = maxClass := by omega
    obtain ⟨z, hz, h⟩ := bind_eq_ok.mp h
    cases hz
    cases h
    refine ⟨VTree.ok_mapping (by omega) (mappingState_isMapping flags), fun va => ?_⟩
    rw [if_pos (samePage_whole addr va)]
    exact VTree.translate_mapping va maxClass _ page _ _
  · rw [mapTree_tree hok hroot h]
    exact ⟨(good_mapped addr flags ⟨hok, hroot⟩ hlen).1, fun va =>
      translation_mapped addr va page flags hok hroot (by omega)⟩

structure Mem.Formed (σ : Mem) : Prop where
  placed : σ.phys.Placed
  trees : ∀ space, (σ.root space).Ok 0

def Mem.view (σ : Mem) (space va : ℕ) : Option (ℕ × UInt32) := translation (σ.root space) va

namespace Mem

lemma Formed.tablesOnly (hσ : σ.Formed) (h : σ.TablesOnly σ') : σ'.Formed :=
  ⟨h.phys.placed hσ.placed, fun space => by rw [h.root]; exact hσ.trees space⟩

lemma TablesOnly.view (h : σ.TablesOnly σ') : σ'.view = σ.view := by
  unfold Mem.view
  rw [h.root]

lemma Formed.withPhys (hσ : σ.Formed) (hs : s.Placed) : Formed { σ with phys := s } := ⟨hs, hσ.trees⟩

lemma Formed.setRoot (hσ : σ.Formed) (ht : t.Ok 0) (space : ℕ) : (σ.setRoot space t).Formed where
  placed := hσ.placed
  trees := fun u => by
    unfold Mem.setRoot
    dsimp only
    by_cases hu : u = space
    · rw [hu, update_self]
      exact ht
    · rw [update_of_ne hu]
      exact hσ.trees u

lemma view_setRoot (σ : Mem) (space : ℕ) (t : VTree) (u va : ℕ) :
    (σ.setRoot space t).view u va = if u = space then translation t va else σ.view u va := by
  unfold Mem.view Mem.setRoot
  dsimp only
  split
  · next hu => rw [hu, update_self]
  · next hu => rw [update_of_ne hu]

end Mem

lemma looked_view (hσ : σ.Formed) (h : pageLookupVirtual mode space addr cls (σ.root space) σ.phys = .ok y) :
    (σ.looked space y).Formed ∧ (σ.looked space y).view = σ.view := by
  obtain ⟨hok, hview⟩ := pageLookupVirtual_view h (hσ.trees space)
  refine ⟨(hσ.withPhys (lookupVirtual_placed h hσ.placed)).setRoot hok space, ?_⟩
  funext u va
  refine (Mem.view_setRoot _ space _ u va).trans ?_
  split
  · next hu => rw [hu]; exact hview va
  · rfl

lemma unmapPage_inv (h : unmapPage space addr cls σ = .ok σ') :
    addr % classSize cls = 0 ∧ ∃ x, unmapTree space addr cls (σ.root space) σ.phys = .ok x ∧
      (({ σ with phys := x.1 } : Mem).setRoot space x.2).TablesOnly σ' := by
  obtain ⟨_, halign, h⟩ := bind_eq_ok.mp h
  obtain ⟨x, hx, h⟩ := bind_eq_ok.mp h
  refine ⟨assert_eq_ok.mp halign, x, hx, ?_⟩
  dsimp only at h
  split at h
  · obtain ⟨σ₁, h₁, h⟩ := bind_eq_ok.mp h
    cases h
    split
    · exact (removePt_only h₁).trans (propagatePml4_only space _)
    · exact removePt_only h₁
  split at h
  · cases h
    exact .refl _
  · exact unmapTables_only h

lemma unmapTree_placed (h : unmapTree space addr cls root s = .ok x) (hp : s.Placed) : x.1.Placed := by
  obtain ⟨y, hy, h⟩ := bind_eq_ok.mp h
  obtain ⟨s₁, h₁, h⟩ := bind_eq_ok.mp h
  have hp₁ := unmapPageRemove_placed h₁ (lookupVirtual_placed hy hp)
  split at h
  · obtain ⟨s₂, h₂, h⟩ := bind_eq_ok.mp h
    cases h
    exact allocDescriptor_placed h₂ hp₁
  · cases h
    exact hp₁

lemma mapTree_placed (h : mapTree space addr cls page flags root s = .ok x) (hp : s.Placed) : x.1.Placed := by
  obtain ⟨y, hy, h⟩ := bind_eq_ok.mp h
  cases h
  exact (lookupVirtual_placed hy hp).link _ _

lemma replaced_view {y : ℕ → Option (ℕ × UInt32)} {P : ℕ → Prop} [DecidablePred P]
    (hσ : σ.Formed) (hplaced : x.1.Placed)
    (hview : x.2.Ok 0 ∧ ∀ va, translation x.2 va = if P va then y va else σ.view space va)
    (h : (({ σ with phys := x.1 } : Mem).setRoot space x.2).TablesOnly σ') :
    σ'.Formed ∧ ∀ u va, σ'.view u va = if u = space ∧ P va then y va else σ.view u va := by
  have hformed := (hσ.withPhys hplaced).setRoot hview.1 space
  refine ⟨hformed.tablesOnly h, fun u va => ?_⟩
  rw [h.view, Mem.view_setRoot]
  by_cases hu : u = space
  · rw [if_pos hu, hview.2, hu]
    simp only [true_and]
  · rw [if_neg hu, if_neg fun hc => hu hc.1]
    rfl

/-- **`unmap_page`**: the page is unmapped in the space, and nothing else. -/
theorem unmapPage_view (hσ : σ.Formed) (h : unmapPage space addr cls σ = .ok σ') (hcls : cls ≤ maxClass) :
    σ'.Formed ∧ ∀ u va, σ'.view u va = if u = space ∧ SamePage cls addr va then none else σ.view u va := by
  obtain ⟨-, x, hx, htables⟩ := unmapPage_inv h
  exact replaced_view hσ (unmapTree_placed hx hσ.placed) (unmapTree_view hx (hσ.trees space) hcls) htables

/-- **`map_page`**: the page is mapped in the space, and nothing else; with `ALLOC_WEAK` there is no
metadata. -/
theorem mapPage_view {r : Mem × Res} (hσ : σ.Formed) (h : mapPage space addr page flags σ = .ok r) :
    ∃ n, σ.phys.node page = some n ∧ addr % classSize n.cls = 0 ∧ r.1.Formed ∧
      ∀ u va, r.1.view u va = if u = space ∧ ¬Sets flags allocWeak ∧ SamePage n.cls addr va then
        some (start maxClass page + va / 2 ^ classBase % 2 ^ n.cls, storedProt flags) else σ.view u va := by
  obtain ⟨n, hn, h⟩ := bind_eq_ok.mp (then_ok h)
  obtain ⟨_, halign, h⟩ := bind_eq_ok.mp h
  obtain ⟨τ, hτ, h⟩ := bind_eq_ok.mp h
  obtain ⟨bits, -, h⟩ := bind_eq_ok.mp h
  obtain ⟨r₁, h₁, h⟩ := bind_eq_ok.mp (then_ok h)
  cases h
  have hnode := Phys.deref_eq_ok.mp hn
  have hlen := hσ.placed page n hnode
  have htables := mapEntries_only h₁
  refine ⟨n, hnode, assert_eq_ok.mp halign, ?_⟩
  unfold mapNode at hτ
  split at hτ
  · next hweak =>
    cases hτ
    refine ⟨hσ.tablesOnly htables, fun u va => ?_⟩
    rw [htables.view, if_neg fun hc => hc.2.1 hweak]
  next hweak =>
  obtain ⟨σ₁, hσ₁, hτ⟩ := bind_eq_ok.mp hτ
  obtain ⟨x, hx, hτ⟩ := bind_eq_ok.mp hτ
  cases hτ
  obtain ⟨-, x₁, hx₁, ht₁⟩ := unmapPage_inv hσ₁
  have hroot : σ₁.root space = x₁.2 := by
    rw [ht₁.root]
    exact update_self ..
  have href : Mem.Formed { σ with phys := pageRef page σ.phys } := hσ.withPhys (pageRef_placed hσ.placed page)
  obtain ⟨hf₁, hview₁⟩ := unmapPage_view href hσ₁ (by omega)
  rw [hroot] at hx
  obtain ⟨hok, hview⟩ := mapTree_view hx₁ hx (hσ.trees space) hlen
  have hnew : ∀ va, translation x.2 va = if SamePage n.cls addr va then
      some (start maxClass page + va / 2 ^ classBase % 2 ^ n.cls, storedProt flags)
      else σ₁.view space va := fun va => by
    rw [hview va, hview₁]
    by_cases hc : SamePage n.cls addr va
    · rw [if_pos hc, if_pos hc]
    · rw [if_neg hc, if_neg hc, if_neg fun hc' => hc hc'.2]
      rfl
  obtain ⟨hf, hall⟩ := replaced_view hf₁ (mapTree_placed hx hf₁.placed) ⟨hok, hnew⟩ htables
  refine ⟨hf, fun u va => ?_⟩
  rw [hall, hview₁]
  by_cases hc : u = space ∧ SamePage n.cls addr va
  · rw [if_pos hc, if_pos ⟨hc.1, hweak, hc.2⟩]
  · rw [if_neg hc, if_neg hc, if_neg fun hc' => hc ⟨hc'.1, hc'.2.2⟩]
    rfl

end Jos.PmapModel
