import Jos.MapEffect

/-!
The calls that map and unmap regions, for any bounds on what they may work on: the pages of the
destination at some places, and those of the source at some places.
-/

namespace Jos.PmapModel

open Jos.Dyadic Outcome Nat

/-- Pages of the destination at the places with `D`, and of the source at those with `S`, may be changed,
and keep `I`. -/
structure Scope (Q : Change) (I : Mem → Prop) (C : Setting) (dspace sspace : ℕ) (D S : ℕ → ℕ → Prop) : Prop where
  formed : ∀ {σ}, I σ → σ.Formed
  kept : ∀ {σ σ'}, I σ → σ.Effect Q σ' → I σ'
  dst : ∀ {addr cls va} x, D addr cls → addr % classSize cls = 0 → SamePage cls addr va → Q dspace va x
  dst_half : ∀ {addr cls}, D addr (cls + 1) → D addr cls ∧ D (addr + classSize cls) cls
  src : ∀ {addr cls va} x, S addr cls → addr % classSize cls = 0 → SamePage cls addr va → Q sspace va x
  src_half : ∀ {addr cls}, S addr (cls + 1) → S addr cls ∧ S (addr + classSize cls) cls
  force : ∀ {σ addr cls}, I σ → S addr cls → Acts Q σ (forceAllocPage C sspace addr maxClass σ)

variable {Q : Change} {I : Mem → Prop} {C : Setting} {dspace sspace : ℕ} {D S : ℕ → ℕ → Prop}
  {σ σ' σ₁ : Mem} {space dst src addr va cls fin : ℕ} {phy page : Path}
  {oldflags flags prot : UInt32} {w : List Bool}

lemma mapPage_within {r : Mem × Res} (hσ : σ.Formed) (h : mapPage space addr page flags σ = .ok r)
    (hlen : cls + page.length = maxClass)
    (hQ : addr % classSize cls = 0 → ∀ va x, SamePage cls addr va → Q space va x) : σ.Effect Q r.1 := by
  refine mapPage_effect hσ h fun n hn halign va x hva _ => ?_
  have hplace := hσ.placed page n hn
  obtain rfl : n.cls = cls := by omega
  exact hQ halign va x hva

variable {source : Option ℕ} {size : ℕ} {W : ℕ → Prop}

section Scope

variable (hQ : Scope Q I C dspace sspace D S)
include hQ

lemma ownPage_ends (hσ : I σ) (hsrc : S src cls) : Ends (ownPage C dspace dst sspace src phy oldflags flags σ)
      (fun x => σ.Effect Q x.1 ∧ ∀ page, x.2 = .ok page → page.length = phy.length)
      (Exit.Leaves (σ.Effect Q)) := by
  have hformed := hQ.formed hσ
  refine .ite (fun _ => ?_) fun _ => ⟨.refl hformed, fun page hp => by cases hp; rfl⟩
  refine (lift_ends _).bind fun n hn => (Ends.also (hQ.force hσ hsrc) fun r hr => hr).bind fun r hr => ?_
  obtain ⟨heffect, hr⟩ := hr
  refine .ite (fun _ => ⟨heffect, nofun⟩) fun _ => (lift_ends _).bind fun y _ => ?_
  refine (check_ends .doMapPage _).bind fun _ hlen => ?_
  have hplace := hformed.placed phy n (Phys.deref_eq_ok.mp hn)
  have hok := (heffect.formed.trees sspace).sub y.2.2
  split
  · next st page l t hnode =>
    rw [hnode] at hok
    obtain ⟨-, hpage, -⟩ := hok.2.1 page rfl
    exact ⟨heffect, fun page' hp => by cases hp; omega⟩
  · trivial

lemma acts_doMapPage (hσ : I σ) (hlen : cls + phy.length = maxClass) (hdst : D dst cls) (hsrc : S src cls) :
    Acts Q σ (doMapPage C dspace dst sspace src phy oldflags flags σ) := by
  refine .check fun _ => .check fun _ => .ite (fun _ => .ret (.refl (hQ.formed hσ))) fun _ => ?_
  refine Acts.bind_ends (ownPage_ends hQ hσ hsrc) fun x heffect hpage => ?_
  split
  · exact .ret (.refl heffect.formed)
  · next page hx =>
    have hlen' := hpage page hx
    have hplaced := pageRef_placed heffect.formed.placed page
    refine Acts.after (.withPhys heffect.formed hplaced) (Acts.bind (.lift_last fun r hr => ?_) fun r _ hr => ?_)
    · exact mapPage_within (heffect.formed.withPhys hplaced) hr (by omega) fun halign _ x => hQ.dst x hdst halign
    refine Acts.bind (.ite (fun _ => .lift_last fun r' hr' => ?_) fun _ => .ret (.refl hr.formed)) fun r' _ hr' => ?_
    · exact mapPage_within hr.formed hr' (by omega) fun halign _ x => hQ.src x hsrc halign
    · exact .lift fun s hs' => .ret (.withPhys hr'.formed (pageUnref_placed hs' hr'.formed.placed))

lemma acts_passNode {below : Except Exit (Mem × Res)} (hσ : I σ) (hlen : cls + w.length = maxClass)
    (hdst : D dst cls) (hsrc : S src cls) (hbelow : Acts Q σ below) :
    Acts Q σ (passNode C dspace dst sspace src flags ((σ.root sspace).sub w) σ below) := by
  have hformed := hQ.formed hσ
  have hok := (hformed.trees sspace).sub w
  cases hnode : (σ.root sspace).sub w with
  | null => exact .ret (.refl hformed)
  | node st phy l r =>
    rw [hnode] at hok
    cases phy with
    | none => exact .check fun _ => hbelow
    | some phy =>
      obtain ⟨-, hphy, -⟩ := hok.2.1 phy rfl
      cases st with
      | intermediate => trivial
      | mapping prot => exact acts_doMapPage hQ hσ (by omega) hdst hsrc

lemma acts_doMapSubtree (hσ : I σ) (hlen : cls + w.length = maxClass) (hdst : D dst cls) (hsrc : S src cls) :
    Acts Q σ (doMapSubtree C dspace sspace flags cls w dst src σ) := by
  induction cls generalizing w dst src σ with
  | zero => exact acts_passNode hQ hσ hlen hdst hsrc (.ret (.refl (hQ.formed hσ)))
  | succ cls ih =>
    refine acts_passNode hQ hσ hlen hdst hsrc ?_
    obtain ⟨hdst₁, hdst₂⟩ := hQ.dst_half hdst
    obtain ⟨hsrc₁, hsrc₂⟩ := hQ.src_half hsrc
    have hway : ∀ b, cls + (w ++ [b]).length = maxClass := fun b => by
      rw [List.length_append, List.length_singleton]
      omega
    refine Acts.bind (ih hσ (hway false) hdst₁ hsrc₁) fun r _ hr => ?_
    refine .ite (fun _ => .ret (.refl hr.formed)) fun _ => ?_
    exact ih (hQ.kept hσ hr) (hway true) hdst₂ hsrc₂

lemma Scope.dst_part {j i : ℕ} (hdst : D addr (cls + j)) (hi : i < 2 ^ j) : D (addr + i * classSize cls) cls := by
  induction j generalizing addr i with
  | zero =>
    obtain rfl : i = 0 := by omega
    rwa [zero_mul]
  | succ j ih =>
    have hhalves : D addr (cls + j) ∧ D (addr + classSize (cls + j)) (cls + j) := hQ.dst_half hdst
    obtain ⟨hleft, hright⟩ := hhalves
    rcases lt_or_ge i (2 ^ j) with hlt | hge
    · exact ih hleft hlt
    · have hpart := ih hright (i := i - 2 ^ j) (by rw [pow_succ] at hi; omega)
      rwa [classSize_add, Nat.add_assoc, Nat.mul_comm (classSize cls), ← Nat.add_mul, Nat.add_sub_cancel' hge] at hpart

lemma acts_mapFiller {n : ℕ} (hσ : I σ) (hlen : cls + page.length = maxClass)
    (hdst : ∀ i < n, D (dst + i * classSize cls) cls) :
    Acts Q σ (mapFiller dspace fin page flags (classSize cls) n dst σ) := by
  have hformed := hQ.formed hσ
  induction n generalizing dst σ with
  | zero => exact .ret (.refl hformed)
  | succ n ih =>
    refine .ite (fun _ => Acts.bind (.lift_last fun r hr => ?_) fun r _ hr => ?_) fun _ => .ret (.refl hformed)
    · refine mapPage_within hformed hr hlen fun halign _ x => hQ.dst x ?_ halign
      have hfirst := hdst 0 (succ_pos n)
      rwa [zero_mul] at hfirst
    · refine .ite (fun _ => .ret (.refl hr.formed)) fun _ => ih (hQ.kept hσ hr) (fun i hi => ?_) hr.formed
      have hnext := hdst (i + 1) (succ_lt_succ hi)
      rwa [succ_mul, add_comm (i * _), ← add_assoc] at hnext

omit hQ in
lemma classSize_inj {c c' : ℕ} (h : classSize c = classSize c') : c = c' := by
  have := Nat.pow_right_injective (le_refl 2) h
  omega

lemma acts_allocRegionPage (hσ : I σ) (hcls : cls ≤ maxClass) (hdst : D dst cls) :
    Acts Q σ (allocRegionPage C dspace dst cls flags σ) := by
  have hformed := hQ.formed hσ
  refine .ite (fun _ => ?_) fun _ => .lift fun n hn => .lift fun y hy => .lift fun m hm => .check fun hsize => ?_
  · exact acts_allocCompositePage hformed hcls fun halign _ x hva _ => hQ.dst x hdst halign hva
  · have hplaced := pageLookup_placed hy hformed.placed
    have hplace := hplaced y.2 m (Phys.deref_eq_ok.mp hm)
    have hmin := classSize_inj hsize
    have heffect : σ.Effect Q { σ with phys := y.1 } := .withPhys hformed hplaced
    refine Acts.after heffect (acts_mapFiller hQ (hQ.kept hσ heffect) (by omega) fun i hi => ?_)
    refine hQ.dst_part ?_ hi
    rwa [show min cls maxAllocationClass + (cls - min cls maxAllocationClass) = cls by omega]

lemma acts_copyNode {node : VTree} (hσ : I σ) (hlen : cls + w.length = maxClass) (hdst : D dst cls)
    (hsrc : S src cls) : Acts Q σ (copyNode C dspace dst sspace src cls flags w node σ) := by
  have hformed := hQ.formed hσ
  have hsubtree : Acts Q σ (doMapSubtree C dspace sspace flags cls w dst src σ) :=
    acts_doMapSubtree hQ hσ hlen hdst hsrc
  cases node with
  | null => trivial
  | node st phy l r =>
    cases phy with
    | none => exact hsubtree
    | some phy =>
      refine .lift fun n hn => .ite (fun hlarge => .lift fun y hy => ?_) fun _ => hsubtree
      -- a part of the page, of the class that is looked up
      obtain ⟨m, hm, hpart⟩ := pageLookup_length hy
      obtain rfl : n = m := Option.some.inj ((Phys.deref_eq_ok.mp hn).symm.trans hm)
      have hplace := hformed.placed phy n hm
      have heffect : σ.Effect Q { σ with phys := y.1 } := .withPhys hformed (pageLookup_placed hy hformed.placed)
      exact Acts.after heffect (acts_doMapPage hQ (hQ.kept hσ heffect) (by omega) hdst hsrc)

lemma acts_copyRegionPage (hσ : I σ) (hcls : cls ≤ maxClass) (hdst : D dst cls) (hsrc : S src cls) :
    Acts Q σ (copyRegionPage C dspace dst sspace src cls flags σ) := by
  refine .lift fun x hx => ?_
  obtain ⟨hf, hview⟩ := looked_view (hQ.formed hσ) hx
  have heffect : σ.Effect Q (σ.looked sspace x) := .of_view hf hview
  have hway : x.2.2 = wayTo src cls (maxClass - cls) := by
    rw [show x.2 = _ from pageLookupVirtual_alloc hx]
  refine Acts.after heffect (acts_copyNode hQ (hQ.kept hσ heffect) ?_ hdst hsrc)
  rw [hway, length_wayTo]
  omega

lemma acts_doMapRegionOnePage (hσ : I σ) (hcls : cls ≤ maxClass) (hdst : D dst cls)
    (hs : ∀ u, source = some u → u = sspace ∧ S src cls) :
    Acts Q σ (doMapRegionOnePage C dspace dst source src cls flags σ) := by
  refine .check fun _ => .ite (fun _ => acts_allocRegionPage hQ hσ hcls hdst) fun _ => ?_
  cases source with
  | none => trivial
  | some u =>
    obtain ⟨rfl, hsrc⟩ := hs u rfl
    exact acts_copyRegionPage hQ hσ hcls hdst hsrc

end Scope

def Left {α : Type} (mem : α → Mem) (m : Except Exit α) (σ' : Mem) : Prop :=
  (∃ a, m = .ok a ∧ mem a = σ') ∨ m = .error (.gone σ')

lemma Acts.left {m : Except Exit (Mem × Res)} (h : Acts Q σ m) (hm : Left Prod.fst m σ') : σ.Effect Q σ' := by
  rcases hm with ⟨r, hr, rfl⟩ | hgone
  · exact h.effect hr
  · exact h.leaves hgone

section Sealed

-- sizes are compared, and not computed
seal classSize

section Walk

variable {op : ℕ → ℕ → Mem → Except Exit (Mem × Res)} {k fuel : ℕ} {W : ℕ → Prop}

structure Walk.Within (Q : Change) (W : ℕ → Prop) (σ : Mem) (w : Walk) : Prop where
  effect : σ.Effect Q w.mem
  place : W w.dst

lemma Walk.Within.after {w : Walk} (h : σ.Effect Q σ₁) (hw : w.Within Q W σ₁) : w.Within Q W σ :=
  ⟨h.trans hw.effect, hw.place⟩

lemma ends_after {P : Walk → Prop} {m : Except Exit Walk} (h : σ.Effect Q σ₁)
    (hm : Ends m (fun w => w.Within Q W σ₁ ∧ P w) (Exit.Leaves (σ₁.Effect Q))) :
    Ends m (fun w => w.Within Q W σ ∧ P w) (Exit.Leaves (σ.Effect Q)) := by
  refine ends_of (fun w hw => ⟨.after h (hm.ok hw).1, (hm.ok hw).2⟩) fun e he => ?_
  have hleaves := hm.error he
  cases e with
  | gone σ' => exact h.trans hleaves
  | _ => trivial

/-- From the places with `W` on, pages that end before `fin` are at places with `D`, and the walk
goes on behind them. -/
def Paves (W : ℕ → Prop) (D : ℕ → ℕ → Prop) (fin : ℕ) : Prop :=
  ∀ cls dst, cls ≤ maxClass → W dst → pageEnd dst cls ≤ fin → D dst cls ∧ W (pageEnd dst cls)

variable (hI : ∀ {σ}, I σ → σ.Formed) (hkept : ∀ {σ σ'}, I σ → σ.Effect Q σ' → I σ') (hW : Paves W D fin)
  (hop : ∀ cls dst σ, I σ → D dst cls → cls ≤ maxClass → Acts Q σ (op cls dst σ))
include hI hkept hW hop

lemma walkUp_ends (hσ : I σ) (hdst : W dst) (hcls : cls + k ≤ maxClass) :
    Ends (walkUp op fin k cls dst σ) (fun w => w.Within Q W σ ∧ w.cls ≤ maxClass) (Exit.Leaves (σ.Effect Q)) := by
  induction k generalizing cls dst σ with
  | zero => exact ⟨⟨.refl (hI hσ), hdst⟩, hcls⟩
  | succ k ih =>
    have hcls' : cls ≤ maxClass := by omega
    rw [walkUp]
    split
    swap
    · exact ⟨⟨.refl (hI hσ), hdst⟩, hcls'⟩
    next hfits =>
    obtain ⟨hplace, hnext⟩ := hW cls dst hcls' hdst hfits
    split
    swap
    · exact ih hσ hdst (by omega)
    refine Ends.bind (hop cls dst σ hσ hplace hcls') fun r hr => ?_
    split
    · exact ⟨⟨hr, hdst⟩, hcls'⟩
    · exact ends_after hr (ih (hkept hσ hr) hnext (by omega))

lemma walkAlong_ends (hσ : I σ) (hdst : W dst) (hcls : cls ≤ maxClass) :
    Ends (walkAlong op fin cls fuel dst σ) (fun w => w.Within Q W σ ∧ True) (Exit.Leaves (σ.Effect Q)) := by
  induction fuel generalizing dst σ with
  | zero => trivial
  | succ fuel ih =>
    rw [walkAlong]
    split
    swap
    · exact ⟨⟨.refl (hI hσ), hdst⟩, trivial⟩
    next hfits =>
    obtain ⟨hplace, hnext⟩ := hW cls dst hcls hdst hfits
    refine Ends.bind (hop cls dst σ hσ hplace hcls) fun r hr => ?_
    split
    · exact ⟨⟨hr, hdst⟩, trivial⟩
    · exact ends_after hr (ih (hkept hσ hr) hnext)

omit hkept in
lemma walkOnce_ends (hσ : I σ) (hdst : W dst) (hcls : cls ≤ maxClass) :
    Ends (walkOnce op fin cls dst σ) (fun w => w.Within Q W σ ∧ True) (Exit.Leaves (σ.Effect Q)) := by
  rw [walkOnce]
  split
  swap
  · exact ⟨⟨.refl (hI hσ), hdst⟩, trivial⟩
  next hfits =>
  obtain ⟨hplace, hnext⟩ := hW cls dst hcls hdst hfits
  refine Ends.bind (hop cls dst σ hσ hplace hcls) fun r hr => ?_
  exact ⟨⟨hr, hnext⟩, trivial⟩

omit hW hop in
lemma acts_walkDown {along : ℕ → ℕ → Mem → Except Exit Walk} (halong : ∀ cls dst σ, I σ → W dst → cls ≤ maxClass →
      Ends (along cls dst σ) (fun w => w.Within Q W σ ∧ True) (Exit.Leaves (σ.Effect Q)))
    (hσ : I σ) (hdst : W dst) (hk : k ≤ maxClass + 1) : Acts Q σ (walkDown fin along k dst σ) := by
  induction k generalizing dst σ with
  | zero => exact .ret (.refl (hI hσ))
  | succ k ih =>
    refine .ite (fun _ => ?_) fun _ => .ret (.refl (hI hσ))
    refine Ends.bind (halong k dst σ hσ hdst (by omega)) fun w hw => .ite (fun _ => hw.1.effect) fun _ => ?_
    exact Acts.after hw.1.effect (ih (hkept hσ hw.1.effect) hw.1.place (by omega))

lemma walks_ends (hσ : I σ) (hdst : W dst) (hk : 0 + k ≤ maxClass) : Ends (walkUp op fin k 0 dst σ >>= fun w =>
        walkDown fin (walkOnce op fin) (w.cls + 1) w.dst w.mem >>= fun r => .ok r.1)
      (fun σ' => σ.Effect Q σ') (Exit.Leaves (σ.Effect Q)) := by
  refine Ends.bind (walkUp_ends hI hkept hW hop hσ hdst hk) fun w hw => ?_
  have hdown : Acts Q w.mem (walkDown fin (walkOnce op fin) (w.cls + 1) w.dst w.mem) :=
    acts_walkDown hI hkept (fun cls dst σ hσ hdst hcls => walkOnce_ends hI hW hop hσ hdst hcls)
      (hkept hσ hw.1.effect) hw.1.place (succ_le_succ hw.2)
  exact Ends.bind (Acts.after hw.1.effect hdown) fun r hr => hr

lemma walks_left (hσ : I σ) (hdst : W dst) (hk : 0 + k ≤ maxClass) (h : Left id (walkUp op fin k 0 dst σ >>= fun w =>
        walkDown fin (walkOnce op fin) (w.cls + 1) w.dst w.mem >>= fun r => .ok r.1) σ') :
    σ.Effect Q σ' := by
  have hends := walks_ends hI hkept hW hop hσ hdst hk
  rcases h with ⟨a, ha, rfl⟩ | hgone
  · exact hends.ok ha
  · exact hends.error hgone

end Walk

lemma commonClass_le (a b k cls : ℕ) : commonClass a b k cls ≤ cls + k := by
  induction k generalizing cls with
  | zero => exact le_rfl
  | succ k ih =>
    rw [commonClass]
    split
    · omega
    · have := ih (cls + 1)
      omega

def sourceAt (dst src at' : ℕ) : ℕ := (at' + (src + 2 ^ 64 - dst)) % 2 ^ 64

/-- **`map_region`** works on the pages that its walk comes to. -/
lemma acts_mapRegion (hQ : Scope Q I C dspace sspace D S)
    (hσ : I σ) (hW : Paves W D ((dst + size) % 2 ^ 64)) (hdst : W dst)
    (hs : ∀ u, source = some u → u = sspace ∧ ∀ cls at', D at' cls → S (sourceAt dst src at') cls) :
    Acts Q σ (mapRegion C dspace dst source src size flags σ) := by
  have hself : Acts Q σ (.ok (σ, .inval)) := .ret (.refl (hQ.formed hσ))
  refine .ite (fun _ => hself) fun _ => .ite (fun _ => hself) fun _ => .ite (fun _ => hself) fun _ => .check fun _ => ?_
  have hop : ∀ cls at' σ, I σ → D at' cls → cls ≤ maxClass →
      Acts Q σ (doMapRegionOnePage C dspace at' source ((at' + (src + 2 ^ 64 - dst)) % 2 ^ 64) cls flags σ) :=
    fun cls at' σ hσ hat hcls => acts_doMapRegionOnePage hQ hσ hcls hat fun u hu =>
      ⟨(hs u hu).1, (hs u hu).2 cls at' hat⟩
  have hclass : 0 + addrCommonClass src dst ≤ maxClass := by
    have hle := commonClass_le src dst maxClass 0
    unfold addrCommonClass
    omega
  refine Ends.bind (walkUp_ends hQ.formed hQ.kept hW hop hσ hdst hclass) fun w hw => .ite (fun _ => hw.1.effect) fun _ => ?_
  refine Acts.after hw.1.effect (acts_walkDown hQ.formed hQ.kept ?_ (hQ.kept hσ hw.1.effect) hw.1.place (by omega))
  exact fun cls dst σ hσ hdst hcls => walkAlong_ends hQ.formed hQ.kept hW hop hσ hdst hcls

end Sealed

/-- **`unmap_region`**, too. -/
lemma unmapRegion_left (hI : ∀ {σ}, I σ → σ.Formed) (hkept : ∀ {σ σ'}, I σ → σ.Effect Q σ' → I σ') (hσ : I σ)
    (hW : Paves W D (roundUp ((dst + size) % 2 ^ 64))) (hdst : W (roundDown dst))
    (hD : ∀ {addr cls va}, D addr cls → addr % classSize cls = 0 → SamePage cls addr va → Q dspace va none)
    (h : Left id (unmapRegion dspace dst size σ) σ') : σ.Effect Q σ' := by
  have hop : ∀ cls at' σ, I σ → D at' cls → cls ≤ maxClass → Acts Q σ (unmapOne dspace cls at' σ) := by
    intro cls at' σ hσ hat hcls
    exact .lift fun σ' hσ' => .ret (unmapPage_effect (hI hσ) hσ' hcls fun halign va => hD hat halign)
  exact walks_left hI hkept hW hop hσ hdst (zero_add maxClass).le h

/-- Addresses of the destination at the places with `D`, and any of the source and of the kernel -/
def InSpaces (D : ℕ → ℕ → Prop) (dspace sspace : ℕ) : Change := fun u va _ =>
  u = dspace ∧ (∃ addr cls, D addr cls ∧ addr % classSize cls = 0 ∧ SamePage cls addr va) ∨
    u = sspace ∨ u = kspace

lemma acts_forceAllocPage_space {maxclass : ℕ} (hσ : σ.Formed) :
    Acts (fun u _ _ => u = space ∨ u = kspace) σ (forceAllocPage C space va maxclass σ) := by
  have hspace : forcedSpace space va = space ∨ forcedSpace space va = kspace := by
    unfold forcedSpace
    split
    · exact .inr rfl
    · exact .inl rfl
  exact acts_forceAllocPage hσ (fun _ _ _ _ _ _ _ _ _ => hspace) fun _ _ => hspace

lemma scope_inSpaces (C : Setting) (dspace sspace : ℕ)
    (hhalf : ∀ {addr cls}, D addr (cls + 1) → D addr cls ∧ D (addr + classSize cls) cls) :
    Scope (InSpaces D dspace sspace) Mem.Formed C dspace sspace D fun _ _ => True where
  formed := fun hσ => hσ
  kept := fun _ h => h.formed
  dst := fun {addr cls _} _ hD halign hva => .inl ⟨rfl, addr, cls, hD, halign, hva⟩
  dst_half := hhalf
  src := fun _ _ _ _ => .inr (.inl rfl)
  src_half := fun _ => ⟨trivial, trivial⟩
  force := fun hσ _ => (acts_forceAllocPage_space hσ).mono fun _ _ _ hu => .inr hu

lemma acts_mapRegion_inSpaces (hσ : σ.Formed)
    (hhalf : ∀ {addr cls}, D addr (cls + 1) → D addr cls ∧ D (addr + classSize cls) cls)
    (hW : Paves W D ((dst + size) % 2 ^ 64)) (hdst : W dst) (hs : ∀ u, source = some u → u = sspace) :
    Acts (InSpaces D dspace sspace) σ (mapRegion C dspace dst source src size flags σ) :=
  acts_mapRegion (scope_inSpaces C dspace sspace hhalf) hσ hW hdst fun u hu => ⟨hs u hu, fun _ _ _ => trivial⟩

lemma acts_mapRegion_anywhere (hσ : σ.Formed) (hs : ∀ u, source = some u → u = sspace) :
    Acts (fun u _ _ => u = dspace ∨ u = sspace ∨ u = kspace) σ (mapRegion C dspace dst source src size flags σ) := by
  have hacts : Acts (InSpaces (fun _ _ => True) dspace sspace) σ (mapRegion C dspace dst source src size flags σ) :=
    acts_mapRegion_inSpaces (W := fun _ => True) hσ (fun _ => ⟨trivial, trivial⟩)
      (fun _ _ _ _ _ => ⟨trivial, trivial⟩) trivial hs
  exact hacts.mono fun _ _ _ h => h.imp_left And.left

lemma unmapRegion_anywhere (hσ : σ.Formed) (h : Left id (unmapRegion dspace dst size σ) σ') :
    σ.Effect (fun u _ _ => u = dspace) σ' :=
  unmapRegion_left (W := fun _ => True) (D := fun _ _ => True) (fun hσ => hσ) (fun _ h => h.formed) hσ
    (fun _ _ _ _ _ => ⟨trivial, trivial⟩) trivial (fun _ _ _ => rfl) h

end Jos.PmapModel
