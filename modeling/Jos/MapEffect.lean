import Jos.MapModel
import Jos.MapView

/-!
What the calls above `map_page` do to the address spaces: which pages of which spaces they may
change, and what they may store there.
-/

namespace Jos.PmapModel

open CArray Jos.Dyadic Outcome Function

abbrev Change := ℕ → ℕ → Option (ℕ × UInt32) → Prop

structure Mem.Effect (Q : Change) (σ σ' : Mem) : Prop where
  formed : σ'.Formed
  views : ∀ u va, σ'.view u va = σ.view u va ∨ Q u va (σ'.view u va)

def Stores (S : UInt32 → Prop) (x : Option (ℕ × UInt32)) : Prop := ∀ f prot, x = some (f, prot) → S prot

lemma stores_none (S : UInt32 → Prop) : Stores S none := nofun

def Exit.Leaves (P : Mem → Prop) : Exit → Prop
  | .gone σ => P σ
  | _ => True

/-- Whatever the call returns, it changes addresses only as they may be changed. -/
def Acts (Q : Change) (σ : Mem) (m : Except Exit (Mem × Res)) : Prop :=
  Ends m (fun r => σ.Effect Q r.1) (Exit.Leaves (σ.Effect Q))

variable {Q : Change} {σ σ' σ₁ : Mem} {m : Except Exit (Mem × Res)} {s : Phys} {page phy p : Path}
  {space addr va cls : ℕ} {flags prot : UInt32} {r : Mem × Res} {C : Setting}

lemma check_ends {P : Mem → Prop} (site : MapSite) (c : Prop) [Decidable c] :
    Ends (check site c) (fun _ => c) (Exit.Leaves P) := by
  unfold check
  split
  · next hc => exact hc
  · trivial

lemma lift_ends {α : Type} {P : Mem → Prop} (m : Except Failure α) :
    Ends (lift m) (fun a => m = .ok a) (Exit.Leaves P) := by
  cases m with
  | ok a => exact rfl
  | error f => trivial

lemma check_eq_ok {site : MapSite} {P : Prop} [Decidable P] {u : Unit} : check site P = .ok u ↔ P := by
  unfold check
  split
  · next h => exact iff_of_true rfl h
  · next h => exact iff_of_false nofun h

lemma lift_eq_ok {α : Type} {m : Except Failure α} {a : α} : lift m = .ok a ↔ m = .ok a := by
  cases m with
  | ok b => exact Iff.intro (fun h => by cases h; rfl) fun h => by cases h; rfl
  | error e => exact iff_of_false nofun nofun

namespace Mem.Effect

lemma refl (hσ : σ.Formed) : σ.Effect Q σ := ⟨hσ, fun _ _ => .inl rfl⟩

lemma trans (h : σ.Effect Q σ₁) (h' : σ₁.Effect Q σ') : σ.Effect Q σ' := by
  refine ⟨h'.formed, fun u va => ?_⟩
  rcases h'.views u va with heq | hq
  · rw [heq]
    exact h.views u va
  · exact .inr hq

lemma mono {Q' : Change} (h : σ.Effect Q σ') (hQ : ∀ u va x, Q u va x → Q' u va x) : σ.Effect Q' σ' :=
  ⟨h.formed, fun u va => (h.views u va).imp_right (hQ u va _)⟩

lemma of_view (hσ : σ'.Formed) (h : σ'.view = σ.view) : σ.Effect Q σ' := ⟨hσ, fun u va => .inl (by rw [h])⟩

lemma withPhys (hσ : σ.Formed) (hs : s.Placed) : σ.Effect Q { σ with phys := s } := of_view (hσ.withPhys hs) rfl

end Mem.Effect

namespace Acts

lemma ret (h : σ.Effect Q r.1) : Acts Q σ (.ok r) := h

lemma effect (hm : Acts Q σ m) (hr : m = .ok r) : σ.Effect Q r.1 := by
  rw [hr] at hm
  exact hm

lemma leaves {e : Exit} (hm : Acts Q σ m) (he : m = .error e) : e.Leaves (σ.Effect Q) := by
  rw [he] at hm
  exact hm

lemma mono {Q' : Change} (h : Acts Q σ m) (hQ : ∀ u va x, Q u va x → Q' u va x) : Acts Q' σ m := by
  refine ends_of (fun r hr => (h.effect hr).mono hQ) fun e he => ?_
  have hleaves := h.leaves he
  cases e with
  | gone σ' => exact Mem.Effect.mono hleaves hQ
  | _ => trivial

lemma after (h : σ.Effect Q σ₁) (hm : Acts Q σ₁ m) : Acts Q σ m := by
  refine ends_of (fun r hr => h.trans (hm.effect hr)) fun e he => ?_
  have hleaves := hm.leaves he
  cases e with
  | gone σ' => exact h.trans hleaves
  | _ => trivial

lemma bind {f : Mem × Res → Except Exit (Mem × Res)} (hm : Acts Q σ m)
    (hf : ∀ r, m = .ok r → σ.Effect Q r.1 → Acts Q r.1 (f r)) : Acts Q σ (m >>= f) := by
  cases hr : m with
  | error e => exact hm.leaves hr
  | ok r =>
    have heffect := hm.effect hr
    exact after heffect (hf r hr heffect)

lemma bind_ends {α : Type} {x : Except Exit (Mem × α)} {P : Mem × α → Prop}
    {f : Mem × α → Except Exit (Mem × Res)}
    (hx : Ends x (fun a => σ.Effect Q a.1 ∧ P a) (Exit.Leaves (σ.Effect Q)))
    (hf : ∀ a, σ.Effect Q a.1 → P a → Acts Q a.1 (f a)) : Acts Q σ (x >>= f) :=
  Ends.bind hx fun a ha => (hf a ha.1 ha.2).after ha.1

lemma ite {c : Prop} [Decidable c] {m' : Except Exit (Mem × Res)} (h : c → Acts Q σ m)
    (h' : ¬c → Acts Q σ m') : Acts Q σ (if c then m else m') := Ends.ite h h'

lemma check {site : MapSite} {P : Prop} [Decidable P] {f : Unit → Except Exit (Mem × Res)}
    (h : P → Acts Q σ (f ())) : Acts Q σ (PmapModel.check site P >>= f) :=
  (check_ends site P).bind fun _ => h

lemma lift {α : Type} {m : Except Failure α} {f : α → Except Exit (Mem × Res)}
    (h : ∀ a, m = .ok a → Acts Q σ (f a)) : Acts Q σ (PmapModel.lift m >>= f) :=
  (lift_ends m).bind h

lemma lift_last {m : Except Failure (Mem × Res)} (h : ∀ r, m = .ok r → σ.Effect Q r.1) :
    Acts Q σ (PmapModel.lift m) :=
  (lift_ends m).imp h

end Acts

lemma unmapPage_effect (hσ : σ.Formed) (h : unmapPage space addr cls σ = .ok σ') (hcls : cls ≤ maxClass)
    (hQ : addr % classSize cls = 0 → ∀ va, SamePage cls addr va → Q space va none) : σ.Effect Q σ' := by
  obtain ⟨hf, hview⟩ := unmapPage_view hσ h hcls
  have halign := (unmapPage_inv h).1
  refine ⟨hf, fun u va => ?_⟩
  rw [hview]
  split
  · next hc =>
    rw [hc.1]
    exact .inr (hQ halign va hc.2)
  · exact .inl rfl

lemma mapPage_effect (hσ : σ.Formed) (h : mapPage space addr page flags σ = .ok r)
    (hQ : ∀ n, σ.phys.node page = some n → addr % classSize n.cls = 0 → ∀ va x, SamePage n.cls addr va →
      Stores (· = storedProt flags) x → Q space va x) : σ.Effect Q r.1 := by
  obtain ⟨n, hn, halign, hf, hview⟩ := mapPage_view hσ h
  refine ⟨hf, fun u va => ?_⟩
  rw [hview]
  split
  · next hc =>
    rw [hc.1]
    refine .inr (hQ n hn halign va _ hc.2.2 ?_)
    intro f prot hx
    cases hx
    rfl
  · exact .inl rfl

lemma lookupLoop_length {ensure : Ensure} {type : PageState} {k : ℕ} {y : Phys × Path}
    (h : lookupLoop ensure type addr cls k s p = .ok y) : y.2.length = p.length + k := by
  induction k generalizing s p with
  | zero =>
    cases h
    rfl
  | succ k ih =>
    obtain ⟨z, hz, h⟩ := bind_eq_ok.mp h
    have hstep : ∃ b, z.2 = b :: p := by
      obtain ⟨n, -, hz⟩ := bind_eq_ok.mp hz
      obtain ⟨s₁, -, hz⟩ := bind_eq_ok.mp hz
      obtain ⟨n₁, -, hz⟩ := bind_eq_ok.mp hz
      obtain ⟨s₂, -, hz⟩ := bind_eq_ok.mp hz
      obtain ⟨s₃, -, hz⟩ := bind_eq_ok.mp hz
      obtain ⟨s₄, -, hz⟩ := bind_eq_ok.mp hz
      replace hz := then_ok hz
      cases hz
      exact ⟨_, rfl⟩
    obtain ⟨b, hb⟩ := hstep
    rw [ih h, hb, List.length_cons]
    omega

lemma pageLookup_length {ensure : Ensure} {type : PageState} {y : Phys × Path}
    (h : pageLookup ensure type s p addr cls = .ok y) :
    ∃ n, s.node p = some n ∧ y.2.length = p.length + (n.cls - cls) := by
  obtain ⟨n, hn, h⟩ := bind_eq_ok.mp h
  obtain ⟨z, hz, h⟩ := bind_eq_ok.mp (then_ok h)
  obtain ⟨s₁, -, h⟩ := bind_eq_ok.mp h
  obtain ⟨n₁, -, h⟩ := bind_eq_ok.mp h
  replace h := then_ok h
  cases h
  have hlen := lookupLoop_length hz
  exact ⟨n, Phys.deref_eq_ok.mp hn, hlen⟩

lemma allocPage_length {bootmem : Bool} {s' : Phys} (hs : s.Placed)
    (h : allocPage bootmem s cls = .ok (s', some p)) : s'.Placed ∧ maxClass ≤ p.length + cls := by
  refine ⟨((allocPage_ends bootmem s cls).ok h).placed hs, ?_⟩
  obtain ⟨found, -, h⟩ := bind_eq_ok.mp h
  cases found with
  | none => cases h
  | some peer =>
    obtain ⟨n, hn, h⟩ := bind_eq_ok.mp h
    obtain ⟨y, hy, h⟩ := bind_eq_ok.mp h
    obtain ⟨new, -, h⟩ := bind_eq_ok.mp h
    obtain ⟨s₁, -, h⟩ := bind_eq_ok.mp (then_ok h)
    replace h := then_ok h
    cases h
    obtain ⟨m, hm, hlen⟩ := pageLookup_length hy
    have hplace := hs peer m hm
    omega

/-- **`alloc_composite_page`** maps pages inside the one at the address. -/
lemma acts_allocCompositePage (hσ : σ.Formed) (hcls : cls ≤ maxClass)
    (hQ : addr % classSize cls = 0 → ∀ va x, SamePage cls addr va → Stores (· = storedProt flags) x → Q space va x) :
    Acts Q σ (allocCompositePage space flags cls addr σ) := by
  -- the page that is found is mapped at the address, whatever its class
  have hmap : ∀ {cls addr : ℕ} {σ : Mem} {s : Phys} {p : Path}, σ.Formed → cls ≤ maxClass →
      (∀ va x, SamePage cls addr va → Stores (· = storedProt flags) x → Q space va x) →
      allocPage false σ.phys cls = .ok (s, some p) →
      Acts Q σ (lift (mapPage space addr p flags { σ with phys := s })) := by
    intro cls addr σ s p hσ hcls hQ hs
    obtain ⟨hplaced, hlen⟩ := allocPage_length hσ.placed hs
    refine Acts.after (.withPhys hσ hplaced) (.lift_last fun r hr => ?_)
    refine mapPage_effect (hσ.withPhys hplaced) hr fun n hn _ va x hva hx => hQ va x (hva.mono ?_ hcls) hx
    have hplace := hplaced p n hn
    omega
  induction cls generalizing addr σ with
  | zero =>
    refine .check fun halign => .lift fun y hy => ?_
    obtain ⟨s, page⟩ := y
    cases page with
    | none => exact .withPhys hσ (((allocPage_ends _ _ _).ok hy).placed hσ.placed)
    | some p => exact hmap hσ hcls (hQ halign) hy
  | succ cls ih =>
    refine .check fun halign => .lift fun y hy => ?_
    obtain ⟨s, page⟩ := y
    cases page with
    | some p => exact hmap hσ hcls (hQ halign) hy
    | none =>
      have hplaced := ((allocPage_ends _ _ _).ok hy).placed hσ.placed
      refine Acts.after (.withPhys hσ hplaced) ?_
      have hleft : ∀ va x, SamePage cls addr va → Stores (· = storedProt flags) x → Q space va x :=
        fun va x hva => hQ halign va x (hva.mono (Nat.le_succ cls) hcls)
      refine (ih (hσ.withPhys hplaced) (by omega) fun _ => hleft).bind fun r _ hr => .ite (fun _ => .ret (.refl hr.formed)) ?_
      intro _
      have hright : ∀ va x, SamePage cls (addr + classSize cls) va → Stores (· = storedProt flags) x →
          Q space va x := fun va x hva => hQ halign va x (hva.half halign hcls)
      refine (ih hr.formed (by omega) fun _ => hright).bind fun r' _ hr' => .ite (fun _ => ?_) fun _ => .ret (.refl hr'.formed)
      refine .lift fun σ'' hσ'' => ?_
      exact unmapPage_effect hr'.formed hσ'' (by omega) fun _ va hva => hleft va none hva (stores_none _)

/-- What `force_alloc_page` stores in the place of a lazy mapping. -/
def Unshared (prot prot' : UInt32) : Prop :=
  prot' = storedProt ((mappingNode ||| prot) &&& ~~~protLazy) ∨
    prot' = storedProt (prot &&& protAll &&& ~~~protLazy)

lemma acts_unshare (hσ : σ.Formed)
    (hQ : ∀ n, σ.phys.node phy = some n → ∀ va' x, SamePage n.cls va va' → Stores (Unshared prot) x →
      Q space va' x) : Acts Q σ (unshare space va phy prot σ) := by
  refine .lift fun n hn => ?_
  have hnode := Phys.deref_eq_ok.mp hn
  have hlen := hσ.placed phy n hnode
  have hblock : ∀ va' x, SamePage n.cls (va - va % classSize n.cls) va' → Stores (Unshared prot) x →
      Q space va' x := fun va' x hva => hQ n hnode va' x (hva.trans (samePage_floor (by omega)).symm)
  refine .ite (fun _ => .lift_last fun r hr => ?_) fun _ => ?_
  · refine mapPage_effect hσ hr fun m hm _ va' x hva hx => ?_
    obtain rfl : n = m := Option.some.inj (hnode.symm.trans hm)
    exact hblock va' x hva fun f p hp => .inl (hx f p hp)
  · have hplaced := pageRef_placed hσ.placed phy
    refine Acts.after (.withPhys hσ hplaced) ?_
    refine Acts.bind (acts_allocCompositePage (hσ.withPhys hplaced) (by omega) ?_) fun r _ hr => ?_
    · exact fun _ va' x hva hx => hblock va' x hva fun f p hp => .inr (hx f p hp)
    · exact .lift fun s hs => .ret (.withPhys hr.formed (pageUnref_placed hs hr.formed.placed))

lemma releaseAddressSpace_effect (hσ : σ.Formed) (h : releaseAddressSpace space σ = .ok σ')
    (hQ : ∀ va, Q space va none) : σ.Effect Q σ' := by
  obtain ⟨σ₁, h₁, h⟩ := bind_eq_ok.mp h
  obtain ⟨σ₂, h₂, h⟩ := bind_eq_ok.mp h
  obtain ⟨σ₃, h₃, h⟩ := bind_eq_ok.mp h
  cases h
  have ht₁ := unrefTables_only h₁
  have ht₃ := unrefTable_only h₃
  have hf₁ := hσ.tablesOnly ht₁
  have he₂ := unmapPage_effect (Q := Q) hf₁ h₂ le_rfl fun _ va _ => hQ va
  have hf₃ := he₂.formed.tablesOnly ht₃
  have he₃ : σ.Effect Q σ₃ := (Mem.Effect.of_view hf₁ ht₁.view).trans (he₂.trans (.of_view hf₃ ht₃.view))
  refine he₃.trans ⟨?_, fun u va => ?_⟩
  · exact ⟨hf₃.placed, (hf₃.setRoot (VTree.ok_null 0) space).trees⟩
  · refine (em (u = space)).symm.imp (fun hu => ?_) fun hu => ?_
    · exact (Mem.view_setRoot σ₃ space .null u va).trans (if_neg hu)
    · have hnone : (σ₃.setRoot space .null).view u va = none :=
        (Mem.view_setRoot σ₃ space .null u va).trans ((if_pos hu).trans (VTree.translate_null va maxClass))
      rw [hu] at hnone ⊢
      exact hnone.symm ▸ hQ va

lemma acts_outOfMemory (hσ : r.1.Formed) (hfree : space ≠ kspace → ∀ va, Q space va none) :
    Acts Q r.1 (outOfMemory C space r) := by
  refine .ite (fun _ => .ite (fun _ => trivial) fun hspace => .lift fun σ' hσ' => ?_) fun _ => .ret (.refl hσ)
  have heffect := releaseAddressSpace_effect hσ hσ' (hfree hspace)
  exact .ite (fun _ => heffect) fun _ => .ret heffect

/-- **`force_alloc_page`** changes at most the lazy mapping that holds the address. -/
lemma acts_forceAllocPage {maxclass : ℕ} (hσ : σ.Formed) (hQ : ∀ c prot, c ≤ maxClass →
      (∀ va', SamePage c va va' → ∃ f, σ.view (forcedSpace space va) va' = some (f, prot)) → Sets prot protLazy →
      ∀ va' x, SamePage c va va' → Stores (Unshared prot) x → Q (forcedSpace space va) va' x)
    (hfree : forcedSpace space va ≠ kspace → ∀ va', Q (forcedSpace space va) va' none) :
    Acts Q σ (forceAllocPage C space va maxclass σ) := by
  refine .lift fun x hx => ?_
  generalize forcedSpace space va = target at hQ hfree hx ⊢
  obtain ⟨hf, hview⟩ := looked_view hσ hx
  refine Acts.after (.of_view hf hview) ?_
  rw [← hview] at hQ
  generalize σ.looked target x = τ at hf hQ ⊢
  refine .lift fun y hy => Acts.bind ?_ fun r _ hr => acts_outOfMemory hr.formed hfree
  have hroot : τ.root target ≠ .null := fun hn => by
    rw [hn] at hy
    cases lookupVirtual_null hy
  obtain ⟨w, hw, hpre, hsub, -⟩ := lookupTree_preserve va 0 (k := maxClass - 0) hroot
  have hway : y.2.2 = w := by
    rw [show y.2 = lookupTree .preserve va 0 (maxClass - 0) (τ.root target) from lookupVirtual_tree hy, hw]
  rw [hway]
  have hend := wayTo_of_isPrefix hpre
  cases hnode : (τ.root target).sub w with
  | null => exact absurd hnode hsub
  | node st phy l r =>
    have hok := (hf.trees target).sub w
    rw [hnode] at hok
    cases st with
    | intermediate => exact .ret (.refl hf)
    | mapping prot =>
      refine .ite (fun _ => .ret (.refl hf)) fun hlazy => ?_
      cases phy with
      | none => trivial
      | some phy =>
        -- the class of the page is the one of the node
        obtain ⟨-, hphy, -⟩ := hok.2.1 phy rfl
        refine acts_unshare hf fun n hn va' x hva hx => ?_
        have hplace := hf.placed phy n hn
        have hblock : wayTo va n.cls (maxClass - n.cls) = w := by
          rw [show maxClass - n.cls = w.length by omega, show n.cls = 0 + (maxClass - 0 - w.length) by omega]
          exact hend.symm
        rw [← hblock] at hnode
        have hmapped : ∀ va'', SamePage n.cls va va'' → ∃ f, τ.view target va'' = some (f, prot) :=
          fun va'' hva'' => ⟨_, translation_of_mapping (hf.trees target) (by omega) hnode hva''⟩
        exact hQ n.cls prot (by omega) hmapped (not_not.mp hlazy) va' x hva hx

lemma newRoot_effect {τ : Mem} (hσ : σ.Formed) (hs : τ.phys.Placed)
    (hroot : τ.root = Function.update σ.root space (.fresh .intermediate)) (hQ : ∀ va, Q space va none) :
    σ.Effect Q τ := by
  refine ⟨⟨hs, fun u => ?_⟩, fun u va => ?_⟩
  · rw [hroot]
    by_cases hu : u = space
    · rw [hu, update_self]
      exact VTree.ok_fresh 0
    · rw [update_of_ne hu]
      exact hσ.trees u
  · unfold Mem.view
    rw [hroot]
    by_cases hu : u = space
    · rw [hu, update_self, translation, VTree.translate_fresh]
      exact .inr (hQ va)
    · rw [update_of_ne hu]
      exact .inl rfl

lemma initKspace_effect (hσ : σ.Formed) (h : initKspace σ = .ok σ') (hQ : ∀ va, Q kspace va none) :
    σ.Effect Q σ' := by
  obtain ⟨⟨s, page⟩, hs, h⟩ := bind_eq_ok.mp h
  have hplaced := ((allocPage_ends true σ.phys 0).ok hs).placed hσ.placed
  cases page with
  | none => cases h
  | some p =>
    obtain ⟨n, -, h⟩ := bind_eq_ok.mp h
    obtain ⟨s₁, h₁, h⟩ := bind_eq_ok.mp h
    cases h
    exact newRoot_effect hσ (allocDescriptor_placed h₁ (pageRef_placed hplaced p)) rfl hQ

lemma Mem.Effect.enlist (h : σ.Effect Q σ') (space : ℕ) : σ.Effect Q (σ'.enlist space) :=
  ⟨⟨h.formed.placed, h.formed.trees⟩, h.views⟩

lemma initAddressSpace_effect (hσ : σ.Formed) (h : initAddressSpace space σ = .ok σ') (hQ : ∀ va, Q space va none) :
    σ.Effect Q σ' := by
  obtain ⟨⟨s, page⟩, hs, h⟩ := bind_eq_ok.mp h
  have hplaced := ((allocPage_ends true σ.phys 0).ok hs).placed hσ.placed
  obtain ⟨x, hx, h⟩ := bind_eq_ok.mp h
  obtain ⟨s₁, h₁, h⟩ := bind_eq_ok.mp h
  have hx' : x.1.phys.Placed ∧ x.1.root = σ.root := by
    cases page with
    | none =>
      cases hx
      exact ⟨hplaced, rfl⟩
    | some p =>
      obtain ⟨n, -, hx⟩ := bind_eq_ok.mp hx
      replace hx := then_ok hx
      cases hx
      exact ⟨pageRef_placed hplaced p, rfl⟩
  have hs₁ := allocDescriptor_placed h₁ hx'.1
  obtain rfl := Except.ok.inj h
  have htables := propagateOnePml4_only space kspace (x.1.newSpace space x.2 s₁)
  refine Mem.Effect.enlist (newRoot_effect hσ (htables.phys.placed hs₁) ?_ hQ) space
  rw [htables.root, ← hx'.2]
  rfl

end Jos.PmapModel
