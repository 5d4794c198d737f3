import Jos.VirtModel
import Jos.PhysLookup

/-!
The tree of the mappings of a space, for itself: what the look-up makes of the tree does not depend
on the physical memory.
-/

namespace Jos.PmapModel

open CArray Jos.Dyadic List

namespace VTree

variable {t u : VTree} {b c right : Bool} {w w' x : List Bool} {st : VState} {o : Option Path}
  {l r : VTree} {p : Path} {d : ℕ}

def phy : VTree → Option Path
  | .null => none
  | .node _ phy _ _ => phy

def Reaches : VTree → List Bool → Prop
  | _, [] => True
  | t, b :: w => t ≠ .null ∧ (t.child b).Reaches w

@[simp] lemma sub_nil (t : VTree) : t.sub [] = t := rfl
@[simp] lemma sub_cons (t : VTree) (b : Bool) (w : List Bool) : t.sub (b :: w) = (t.child b).sub w := rfl
@[simp] lemma put_nil (t u : VTree) : t.put u [] = u := rfl
@[simp] lemma put_cons (t u : VTree) (b : Bool) (w : List Bool) :
    t.put u (b :: w) = t.setChild b ((t.child b).put u w) := rfl

@[simp] lemma null_sub (w : List Bool) : null.sub w = null := by
  induction w with
  | nil => rfl
  | cons b w ih => exact ih

lemma sub_append (t : VTree) (w w' : List Bool) : t.sub (w ++ w') = (t.sub w).sub w' := by
  induction w generalizing t with
  | nil => rfl
  | cons b w ih => exact ih (t.child b)

lemma child_setChild (h : t ≠ .null) (b : Bool) (u : VTree) : (t.setChild b u).child b = u := by
  cases t with
  | null => exact absurd rfl h
  | node st o l r => cases b <;> rfl

lemma child_setChild_ne (h : c ≠ b) (t u : VTree) : (t.setChild b u).child c = t.child c := by
  cases t with
  | null => rfl
  | node st o l r =>
    cases b <;> cases c
    · exact absurd rfl h
    · rfl
    · rfl
    · exact absurd rfl h

@[simp] lemma phy_setChild (t : VTree) (b : Bool) (u : VTree) : (t.setChild b u).phy = t.phy := by
  cases t with
  | null => rfl
  | node st o l r => cases b <;> rfl

lemma setChild_ne_null (h : t ≠ .null) (b : Bool) (u : VTree) : t.setChild b u ≠ .null := by
  cases t with
  | null => exact absurd rfl h
  | node st o l r => cases b <;> exact nofun

lemma setChild_child (t : VTree) (b : Bool) : t.setChild b (t.child b) = t := by
  cases t with
  | null => rfl
  | node st o l r => cases b <;> rfl

lemma setChild_setChild (t : VTree) (b : Bool) (u u' : VTree) : (t.setChild b u).setChild b u' = t.setChild b u' := by
  cases t with
  | null => rfl
  | node st o l r => cases b <;> rfl

lemma ne_null_of_child (h : t.child b ≠ .null) : t ≠ .null := by
  rintro rfl
  exact h rfl

lemma reaches_of_sub (h : t.sub w ≠ .null) : t.Reaches w := by
  induction w generalizing t with
  | nil => trivial
  | cons b w ih =>
    refine ⟨?_, ih h⟩
    rintro rfl
    exact h (null_sub w)

lemma sub_put (h : t.Reaches w) (u : VTree) (x : List Bool) : (t.put u w).sub (w ++ x) = u.sub x := by
  induction w generalizing t with
  | nil => rfl
  | cons b w ih =>
    rw [put_cons, cons_append, sub_cons, child_setChild h.1]
    exact ih h.2

lemma put_put (t u u' : VTree) (w : List Bool) (h : t.Reaches w) : (t.put u w).put u' w = t.put u' w := by
  induction w generalizing t with
  | nil => rfl
  | cons b w ih =>
    rw [put_cons, put_cons, put_cons, child_setChild h.1, setChild_setChild, ih _ h.2]

/-- A mapping is of the size of its page and has no children; `d` is the depth of the node. -/
def Ok : ℕ → VTree → Prop
  | _, .null => True
  | d, .node st phy l r => (phy = none → st = .intermediate) ∧
    (∀ p, phy = some p → st.IsMapping ∧ p.length = d ∧ l = .null ∧ r = .null) ∧
    l.Ok (d + 1) ∧ r.Ok (d + 1)

lemma ok_null (d : ℕ) : null.Ok d := trivial

lemma node_ne_null {phy : Option Path} {l r : VTree} : node st phy l r ≠ .null := VTree.noConfusion

lemma fresh_ne_null : fresh st ≠ .null := node_ne_null

lemma ok_fresh (d : ℕ) : (fresh .intermediate).Ok d := ⟨fun _ => rfl, nofun, trivial, trivial⟩

lemma ok_mapping (h : p.length = d) (hst : st.IsMapping) : (node st (some p) .null .null).Ok d :=
  ⟨nofun, fun _ hq => ⟨hst, Option.some.inj hq ▸ h, rfl, rfl⟩, trivial, trivial⟩

lemma Ok.child (h : t.Ok d) (b : Bool) : (t.child b).Ok (d + 1) := by
  cases t with
  | null => trivial
  | node st o l r =>
    cases b
    · exact h.2.2.1
    · exact h.2.2.2

lemma Ok.phy_of_child (h : t.Ok d) (hb : t.child b ≠ .null) : t.phy = none := by
  cases t with
  | null => rfl
  | node st o l r =>
    cases o with
    | none => rfl
    | some p =>
      obtain ⟨-, -, rfl, rfl⟩ := h.2.1 p rfl
      cases b <;> exact absurd rfl hb

lemma Ok.setChild (h : t.Ok d) (hphy : t.phy = none) (hu : u.Ok (d + 1)) (b : Bool) : (t.setChild b u).Ok d := by
  cases t with
  | null => trivial
  | node st o l r =>
    subst hphy
    cases b
    · exact ⟨h.1, nofun, hu, h.2.2.2⟩
    · exact ⟨h.1, nofun, h.2.2.1, hu⟩

lemma Ok.sub (h : t.Ok d) (w : List Bool) : (t.sub w).Ok (d + w.length) := by
  induction w generalizing t d with
  | nil => exact h
  | cons b w ih =>
    rw [length_cons, Nat.add_comm w.length, ← Nat.add_assoc]
    exact ih (h.child b)

lemma Ok.put (h : t.Ok d) (hw : t.sub w ≠ .null) (hu : u.Ok (d + w.length)) : (t.put u w).Ok d := by
  induction w generalizing t d with
  | nil => exact hu
  | cons b w ih =>
    have hchild : t.child b ≠ .null := by
      intro hnull
      rw [sub_cons, hnull, null_sub] at hw
      exact hw rfl
    refine h.setChild (h.phy_of_child hchild) (ih (h.child b) hw ?_) b
    rwa [length_cons, Nat.add_comm w.length, ← Nat.add_assoc] at hu

def grow (right : Bool) : VTree → VTree
  | .null => .null
  | .node st (some p) _ _ => .node .intermediate none (.node st (some (false :: p)) .null .null)
      (.node st (some (true :: p)) .null .null)
  | .node st none l r => (node st none l r).setChild right (.fresh .intermediate)

lemma Ok.grow (h : t.Ok d) (right : Bool) : (t.grow right).Ok d := by
  cases t with
  | null => trivial
  | node st o l r =>
    cases o with
    | none => exact Ok.setChild h rfl (ok_fresh _) right
    | some p =>
      obtain ⟨hst, hlen, -, -⟩ := h.2.1 p rfl
      have hhalf : ∀ b, (node st (some (b :: p)) .null .null).Ok (d + 1) := fun b =>
        ok_mapping (by rw [length_cons, hlen]) hst
      exact ⟨fun _ => rfl, nofun, hhalf false, hhalf true⟩

lemma child_grow (h : t ≠ .null) (right : Bool) : (t.grow right).child right ≠ .null := by
  cases t with
  | null => exact absurd rfl h
  | node st o l r =>
    cases o with
    | none =>
      rw [grow, child_setChild h]
      exact nofun
    | some p => cases right <;> exact nofun

def withChild (right : Bool) (t : VTree) : VTree := if t.child right = .null then t.grow right else t

lemma Ok.withChild (h : t.Ok d) (right : Bool) : (t.withChild right).Ok d := by
  unfold VTree.withChild
  split
  · exact h.grow right
  · exact h

lemma child_withChild (h : t ≠ .null) (right : Bool) : (t.withChild right).child right ≠ .null := by
  unfold withChild
  split
  · exact child_grow h right
  · next hchild => exact hchild

end VTree

/-- What the loop of `page_lookup_virtual` makes of the tree below a node, and the way to the node
that is found. -/
def lookupTree (mode : LookupMode) (addr cls : ℕ) : ℕ → VTree → VTree × List Bool
  | 0, t => (t, [])
  | k + 1, t =>
    let right := addr.testBit (cls + k + classBase)
    if t.child right = .null ∧ mode.stops t then (t, [])
    else
      let y := lookupTree mode addr cls k ((t.withChild right).child right)
      ((t.withChild right).setChild right y.1, right :: y.2)

variable {mode : LookupMode} {addr cls nclass k d : ℕ} {v : MapRef} {t : VTree} {s : Phys}
  {y : Phys × VTree × List Bool} {right : Bool}

lemma expand_tree {x : Phys × VTree} (h : expand v nclass cls right t s = .ok x) : x.2 = t.grow right := by
  cases t with
  | null => cases h
  | node st o l r =>
    obtain ⟨s₁, -, h⟩ := bind_eq_ok.mp h
    cases o with
    | none =>
      obtain ⟨s₂, -, h⟩ := bind_eq_ok.mp (then_ok h)
      cases h
      rfl
    | some p =>
      obtain ⟨s₂, -, h⟩ := bind_eq_ok.mp h
      cases h
      rfl

theorem lookupVirtual_tree (h : lookupVirtual mode addr cls k v t s = .ok y) :
    y.2 = lookupTree mode addr cls k t := by
  induction k generalizing v t s y with
  | zero =>
    cases h
    rfl
  | succ k ih =>
    rw [lookupVirtual] at h
    rw [lookupTree]
    split at h
    · next hstop =>
      cases h
      rw [if_pos hstop]
    next hgo =>
    rw [if_neg hgo]
    obtain ⟨x, hx, h⟩ := bind_eq_ok.mp h
    obtain ⟨y', hy', h⟩ := bind_eq_ok.mp h
    cases h
    have hx2 : x.2 = t.withChild (addr.testBit (cls + k + classBase)) := by
      unfold VTree.withChild
      split at hx
      · next hchild => rw [if_pos hchild, expand_tree hx]
      · next hchild =>
        cases hx
        rw [if_neg hchild]
    rw [← hx2, ← ih hy']

lemma lookupTree_ok (h : t.Ok d) (ht : t ≠ .null) : (lookupTree mode addr cls k t).1.Ok d ∧
      (lookupTree mode addr cls k t).1.sub (lookupTree mode addr cls k t).2 ≠ .null := by
  induction k generalizing t d with
  | zero => exact ⟨h, ht⟩
  | succ k ih =>
    rw [lookupTree]
    set right := addr.testBit (cls + k + classBase)
    split
    · exact ⟨h, ht⟩
    have hok := h.withChild right
    have hchild := VTree.child_withChild ht right
    obtain ⟨hy, hsub⟩ := ih (hok.child right) hchild
    refine ⟨hok.setChild (hok.phy_of_child hchild) hy right, ?_⟩
    rw [VTree.sub_cons, VTree.child_setChild (VTree.ne_null_of_child hchild)]
    exact hsub

def wayTo (addr cls : ℕ) : ℕ → List Bool
  | 0 => []
  | k + 1 => addr.testBit (cls + k + classBase) :: wayTo addr cls k

@[simp] lemma length_wayTo (addr cls k : ℕ) : (wayTo addr cls k).length = k := by
  induction k with
  | zero => rfl
  | succ k ih => rw [wayTo, length_cons, ih]

lemma not_stops_alloc (t : VTree) : ¬LookupMode.alloc.stops t := by
  cases t with
  | null => exact id
  | node st o l r => exact nofun

lemma lookupTree_alloc (addr cls k : ℕ) (t : VTree) : (lookupTree .alloc addr cls k t).2 = wayTo addr cls k := by
  induction k generalizing t with
  | zero => rfl
  | succ k ih =>
    rw [lookupTree]
    dsimp only
    rw [if_neg fun h => not_stops_alloc t h.2, wayTo, ih]

lemma lookupTree_preserve (addr cls : ℕ) (ht : t ≠ .null) :
    ∃ w, (lookupTree .preserve addr cls k t).2 = w ∧ w <+: wayTo addr cls k ∧ t.sub w ≠ .null ∧
      (w = wayTo addr cls k ∨ ∃ b x, wayTo addr cls k = w ++ b :: x ∧ (t.sub w).child b = .null) := by
  induction k generalizing t with
  | zero => exact ⟨[], rfl, nil_prefix, ht, .inl rfl⟩
  | succ k ih =>
    rw [lookupTree, wayTo]
    dsimp only
    set right := addr.testBit (cls + k + classBase)
    by_cases hchild : t.child right = .null
    · have hstop : LookupMode.preserve.stops t := by
        cases t with
        | null => exact absurd rfl ht
        | node st o l r => exact .inl rfl
      rw [if_pos ⟨hchild, hstop⟩]
      exact ⟨[], rfl, nil_prefix, ht, .inr ⟨right, _, rfl, hchild⟩⟩
    · rw [if_neg fun h => hchild h.1, VTree.withChild, if_neg hchild]
      obtain ⟨w, hw, hpre, hsub, hend⟩ := ih hchild
      refine ⟨right :: w, by rw [hw], cons_prefix_cons.mpr ⟨rfl, hpre⟩, hsub, ?_⟩
      rcases hend with rfl | ⟨b, x, hx, hnull⟩
      · exact .inl rfl
      · exact .inr ⟨b, x, by rw [hx, cons_append], hnull⟩

lemma lookupTree_preserve_mapping {addr cls k d : ℕ} {w : List Bool} {p : Path} (h : t.Ok d)
    (hpre : w <+: wayTo addr cls k) (hw : (t.sub w).phy = some p) :
    (lookupTree .preserve addr cls k t).2 = w := by
  have ht : t ≠ .null := by
    rintro rfl
    rw [VTree.null_sub] at hw
    cases hw
  obtain ⟨w', hw', hpre', hsub, hend⟩ := lookupTree_preserve addr cls (k := k) ht
  rw [hw']
  rcases prefix_or_prefix_of_prefix hpre' hpre with ⟨x, rfl⟩ | ⟨x, rfl⟩
  · cases x with
    | nil => exact (append_nil w').symm
    | cons c x =>
      exfalso
      rcases hend with rfl | ⟨b, y, hy, hnull⟩
      · have := hpre.length_le
        rw [length_append, length_cons] at this
        omega
      · rw [hy, prefix_append_right_inj, cons_prefix_cons] at hpre
        rw [VTree.sub_append, hpre.1, VTree.sub_cons, hnull, VTree.null_sub] at hw
        cases hw
  · cases x with
    | nil => exact append_nil w
    | cons c x =>
      rw [VTree.sub_append, VTree.sub_cons] at hsub
      have hchild : (t.sub w).child c ≠ .null := fun hn => hsub (by rw [hn, VTree.null_sub])
      rw [(h.sub w).phy_of_child hchild] at hw
      cases hw

lemma lookupVirtual_preserve (addr cls : ℕ) {v : MapRef} (s : Phys) (ht : t ≠ .null) :
    lookupVirtual .preserve addr cls k v t s = .ok (s, t, (lookupTree .preserve addr cls k t).2) := by
  induction k generalizing v t with
  | zero => rfl
  | succ k ih =>
    rw [lookupVirtual, lookupTree]
    set right := addr.testBit (cls + k + classBase)
    by_cases hchild : t.child right = .null
    · have hstop : LookupMode.preserve.stops t := by
        cases t with
        | null => exact absurd rfl ht
        | node st o l r => exact .inl rfl
      rw [if_pos ⟨hchild, hstop⟩, if_pos ⟨hchild, hstop⟩]
    · have hgo : ¬(t.child right = .null ∧ LookupMode.preserve.stops t) := fun h => hchild h.1
      rw [if_neg hgo, if_neg hgo, if_neg hchild, VTree.withChild, if_neg hchild]
      simp only [ok_bind, ih hchild, VTree.setChild_child]

variable {b : Bool}

def opened (addr cls : ℕ) (root : VTree) : VTree := (lookupTree .alloc addr cls (maxClass - cls) root).1

/-- What `unmap_page` makes of the tree. -/
def unmapped (addr cls : ℕ) (root : VTree) : VTree :=
  if wayTo addr cls (maxClass - cls) = [] then .fresh .intermediate
  else (opened addr cls root).put .null (wayTo addr cls (maxClass - cls))

/-- What `map_page` makes of the tree. -/
def mapped (addr cls : ℕ) (page : Path) (flags : UInt32) (root : VTree) : VTree :=
  (opened addr cls root).put (.node (mappingState flags) (some page) .null .null)
    (wayTo addr cls (maxClass - cls))

lemma mappingState_isMapping (flags : UInt32) : (mappingState flags).IsMapping := nofun

lemma lookupTree_alloc_succ (addr cls k : ℕ) (t : VTree) : (lookupTree .alloc addr cls (k + 1) t).1 =
      (t.withChild (addr.testBit (cls + k + classBase))).setChild (addr.testBit (cls + k + classBase))
        (lookupTree .alloc addr cls k ((t.withChild (addr.testBit (cls + k + classBase))).child
          (addr.testBit (cls + k + classBase)))).1 := by
  rw [lookupTree]
  rw [if_neg fun h => not_stops_alloc t h.2]

lemma VTree.grow_of_phy (h : t.phy = none) (b : Bool) : t.grow b = t.setChild b (.fresh .intermediate) := by
  cases t with
  | null => rfl
  | node st phy l r =>
    obtain rfl : phy = none := h
    rfl

lemma lookupTree_ne_null (h : t.Ok d) (ht : t ≠ .null) : (lookupTree mode addr cls k t).1 ≠ .null := by
  intro hnull
  apply (lookupTree_ok h ht).2
  rw [hnull, VTree.null_sub]

lemma lookupTree_put_null (h : t.Ok d) (ht : t ≠ .null) : (lookupTree .alloc addr cls (k + 1)
      ((lookupTree .alloc addr cls (k + 1) t).1.put .null (wayTo addr cls (k + 1)))).1 =
    (lookupTree .alloc addr cls (k + 1) t).1.put (.fresh .intermediate) (wayTo addr cls (k + 1)) := by
  induction k generalizing t d with
  | zero =>
    rw [lookupTree_alloc_succ, lookupTree_alloc_succ]
    set right := addr.testBit (cls + 0 + classBase)
    have hok := h.withChild right
    have hchild := VTree.child_withChild ht right
    have hne := VTree.ne_null_of_child hchild
    set t' := t.withChild right
    have hway : wayTo addr cls 1 = [right] := rfl
    simp only [hway, lookupTree, VTree.put_cons, VTree.put_nil, VTree.setChild_setChild]
    have hnull : (t'.setChild right .null).child right = .null := VTree.child_setChild hne right _
    have hphy : (t'.setChild right .null).phy = none := by
      rw [VTree.phy_setChild]
      exact hok.phy_of_child hchild
    rw [VTree.withChild, if_pos hnull, VTree.grow_of_phy hphy]
    simp only [VTree.setChild_setChild, VTree.child_setChild hne]
  | succ k ih =>
    rw [lookupTree_alloc_succ addr cls (k + 1) t, lookupTree_alloc_succ]
    set right := addr.testBit (cls + (k + 1) + classBase)
    have hok := h.withChild right
    have hchild := VTree.child_withChild ht right
    have hne := VTree.ne_null_of_child hchild
    set t' := t.withChild right
    have hway : wayTo addr cls (k + 1 + 1) = right :: wayTo addr cls (k + 1) := rfl
    set y := (lookupTree .alloc addr cls (k + 1) (t'.child right)).1 with hy
    have hyne : y ≠ .null := lookupTree_ne_null (hok.child right) hchild
    have hput : y.put .null (wayTo addr cls (k + 1)) ≠ .null := VTree.setChild_ne_null hyne _ _
    simp only [hway, VTree.put_cons, VTree.setChild_setChild, VTree.child_setChild hne]
    rw [VTree.withChild, if_neg (by rwa [VTree.child_setChild hne]), VTree.setChild_setChild,
      VTree.child_setChild hne, hy, ih (hok.child right) hchild]

lemma pageLookupVirtual_alloc {space : ℕ} {root : VTree}
    (h : pageLookupVirtual .alloc space addr cls root s = .ok y) :
    y.2 = (opened addr cls root, wayTo addr cls (maxClass - cls)) := by
  have htree := lookupVirtual_tree h
  rw [htree, ← lookupTree_alloc addr cls (maxClass - cls) root]
  rfl

variable {root : VTree} {space : ℕ} {x : Phys × VTree} {page : Path} {flags : UInt32}

lemma unmapTree_tree (h : unmapTree space addr cls root s = .ok x) : x.2 = unmapped addr cls root := by
  obtain ⟨y, hy, h⟩ := bind_eq_ok.mp h
  obtain ⟨s₁, -, h⟩ := bind_eq_ok.mp h
  rw [pageLookupVirtual_alloc hy] at h
  unfold unmapped
  split at h
  · next hnil =>
    obtain ⟨s₂, -, h⟩ := bind_eq_ok.mp h
    cases h
    rw [if_pos hnil]
  · next hway =>
    cases h
    rw [if_neg hway]

section

variable (h : root.Ok 0) (hroot : root ≠ .null)
include h hroot

lemma opened_unmapped : opened addr cls (unmapped addr cls root) =
      (opened addr cls root).put (.fresh .intermediate) (wayTo addr cls (maxClass - cls)) := by
  unfold unmapped opened
  cases maxClass - cls with
  | zero => rfl
  | succ k =>
    exact lookupTree_put_null h hroot

lemma reaches_opened : (opened addr cls root).Reaches (wayTo addr cls (maxClass - cls)) := by
  rw [← lookupTree_alloc addr cls _ root]
  exact VTree.reaches_of_sub (lookupTree_ok h hroot).2

lemma mapTree_tree (hm : mapTree space addr cls page flags (unmapped addr cls root) s = .ok x) :
    x.2 = mapped addr cls page flags root := by
  obtain ⟨y, hy, hm⟩ := bind_eq_ok.mp hm
  rw [pageLookupVirtual_alloc hy] at hm
  cases hm
  have hway : (opened addr cls root).Reaches (wayTo addr cls (maxClass - cls)) := reaches_opened h hroot
  have hsub := VTree.sub_put hway (.fresh .intermediate) []
  rw [append_nil] at hsub
  rw [opened_unmapped h hroot, hsub, VTree.put_put _ _ _ _ hway]
  rfl

end

end Jos.PmapModel
