import Jos.VirtTree

/-!
What an address is mapped to by the tree of its space, and how unmapping and mapping a page changes
that: at the addresses of the page, and nowhere else.
-/

namespace Jos.PmapModel

open Jos.Dyadic List Nat

namespace VTree

/-- The page of 4 KB, by its number, and the protection for an address, below a node of the class `k` -/
def translate (va : ℕ) : ℕ → VTree → Option (ℕ × UInt32)
  | _, .null => none
  | k, .node (.mapping prot) (some p) _ _ => some (start maxClass p + va / 2 ^ classBase % 2 ^ k, prot)
  | _, .node .intermediate (some _) _ _ => none
  | 0, .node _ none _ _ => none
  | k + 1, .node _ none l r => if va.testBit (k + classBase) then translate va k r else translate va k l

variable {t u : VTree} {va addr cls k d : ℕ} {b right : Bool} {w : List Bool} {mode : LookupMode}
  {page : Path} {flags : UInt32}

@[simp] lemma translate_null (va k : ℕ) : translate va k .null = none := by
  cases k <;> rfl

@[simp] lemma translate_fresh (va k : ℕ) : translate va k (fresh .intermediate) = none := by
  cases k with
  | zero => rfl
  | succ k =>
    rw [fresh, translate]
    split <;> exact translate_null va k

lemma translate_mapping (va k : ℕ) (prot : UInt32) (p : Path) (l r : VTree) :
    translate va k (.node (.mapping prot) (some p) l r) =
      some (start maxClass p + va / 2 ^ classBase % 2 ^ k, prot) := by
  cases k <;> rfl

lemma translate_child (ht : t.phy = none) : translate va (k + 1) t =
    translate va k (t.child (va.testBit (k + classBase))) := by
  cases t with
  | null => rw [translate_null, child, translate_null]
  | node st phy l r =>
    obtain rfl : phy = none := ht
    cases st <;>
    · rw [translate, child]
      split <;> rfl

lemma half_add_mod {p : Path} (hlen : p.length + (k + 1) = maxClass) (x : ℕ) :
    start maxClass (x.testBit k :: p) + x % 2 ^ k = start maxClass p + x % 2 ^ (k + 1) := by
  have hmod : x % 2 ^ (k + 1) = x % 2 ^ k + 2 ^ k * (x.testBit k).toNat := by
    rw [pow_succ, mod_mul, toNat_testBit]
  rw [start, show maxClass - (p.length + 1) = k by omega, hmod]
  cases x.testBit k
  · simp
  · simp only [if_true, Bool.toNat_true, mul_one]
    omega

lemma translate_grow (h : t.Ok d) (hd : d + (k + 1) = maxClass) (hnull : t.child b = .null) :
    translate va (k + 1) (t.grow b) = translate va (k + 1) t := by
  cases t with
  | null => rfl
  | node st phy l r =>
    cases phy with
    | none =>
      have hphy : (node st none l r).phy = none := rfl
      rw [grow_of_phy hphy, translate_child (by rw [phy_setChild]; exact hphy), translate_child hphy]
      by_cases hb : va.testBit (k + classBase) = b
      · have ht : node st none l r ≠ .null := node_ne_null
        rw [hb, child_setChild ht, hnull, translate_fresh, translate_null]
      · rw [child_setChild_ne hb]
    | some p =>
      obtain ⟨-, hmap, -⟩ := h
      obtain ⟨hst, hlen, -⟩ := hmap p rfl
      cases st with
      | intermediate => exact absurd rfl hst
      | mapping prot =>
        have hbit : (va / 2 ^ classBase).testBit k = va.testBit (k + classBase) := testBit_div_two_pow va k
        have hhalf := half_add_mod (p := p) (k := k) (by omega) (va / 2 ^ classBase)
        rw [hbit] at hhalf
        rw [translate_mapping, ← hhalf, grow, translate_child rfl]
        cases va.testBit (k + classBase) <;> simp [child, translate_mapping]

lemma translate_withChild (h : t.Ok d) (hd : d + (k + 1) = maxClass) :
    translate va (k + 1) (t.withChild b) = translate va (k + 1) t := by
  unfold withChild
  split
  · next hnull => exact translate_grow h hd hnull
  · rfl

lemma translate_setChild (ht : t ≠ .null) (hphy : t.phy = none) : translate va (k + 1) (t.setChild b u) =
    if va.testBit (k + classBase) = b then translate va k u else translate va (k + 1) t := by
  rw [translate_child (by rw [phy_setChild]; exact hphy)]
  split
  · next hb => rw [hb, child_setChild ht]
  · next hb => rw [child_setChild_ne hb, translate_child hphy]

end VTree

open VTree

variable {t u root : VTree} {va addr cls k d : ℕ} {w : List Bool} {mode : LookupMode} {page : Path}
  {flags : UInt32}

/-- **Looking up a node** changes no translation, whatever is split. -/
lemma translate_lookupTree (va : ℕ) (mode : LookupMode) (addr : ℕ) (h : t.Ok d) (ht : t ≠ .null) (hd : d + (cls + k) = maxClass) :
    translate va (cls + k) (lookupTree mode addr cls k t).1 = translate va (cls + k) t := by
  induction k generalizing t d with
  | zero => rfl
  | succ k ih =>
    rw [lookupTree]
    set right := addr.testBit (cls + k + classBase)
    split
    · rfl
    have hok := h.withChild right
    have hchild := child_withChild ht right
    rw [← add_assoc, translate_setChild (ne_null_of_child hchild) (hok.phy_of_child hchild)]
    have hwith : translate va (cls + k + 1) (t.withChild right) = translate va (cls + k + 1) t :=
      translate_withChild h (by omega)
    split
    · next hb =>
      have hwhole : translate va (cls + k + 1) (t.withChild right) =
          translate va (cls + k) ((t.withChild right).child right) := by
        rw [translate_child (hok.phy_of_child hchild), hb]
      rw [ih (hok.child right) hchild (by omega), ← hwhole, hwith]
    · exact hwith

/-- **A part of the tree is replaced**: only the addresses that lead there see it. -/
lemma translate_put (va : ℕ) (u : VTree) (h : t.Ok d) (hsub : t.sub (wayTo addr cls k) ≠ .null) :
    translate va (cls + k) (t.put u (wayTo addr cls k)) =
      if wayTo va cls k = wayTo addr cls k then translate va cls u else translate va (cls + k) t := by
  induction k generalizing t d with
  | zero => rfl
  | succ k ih =>
    rw [wayTo, sub_cons] at hsub
    set right := addr.testBit (cls + k + classBase)
    have hchild : t.child right ≠ .null := fun hn => hsub (by rw [hn, null_sub])
    have hphy := h.phy_of_child hchild
    rw [wayTo, wayTo, put_cons, ← add_assoc, translate_setChild (ne_null_of_child hchild) hphy,
      ih (h.child right) hsub]
    by_cases hb : va.testBit (cls + k + classBase) = right
    · rw [if_pos hb, hb]
      by_cases hw : wayTo va cls k = wayTo addr cls k
      · rw [if_pos hw, if_pos (by rw [hw])]
      · rw [if_neg hw, if_neg (fun hc => hw (cons_eq_cons.mp hc).2), translate_child hphy, hb]
    · rw [if_neg hb, if_neg (fun hc => hb (cons_eq_cons.mp hc).1)]

def translation (root : VTree) (va : ℕ) : Option (ℕ × UInt32) := translate va maxClass root

def SamePage (cls addr va : ℕ) : Prop := wayTo va cls (maxClass - cls) = wayTo addr cls (maxClass - cls)
  deriving Decidable

lemma translation_opened (addr va : ℕ) (h : root.Ok 0) (hroot : root ≠ .null) (hcls : cls ≤ maxClass) :
    translation (opened addr cls root) va = translation root va := by
  have hlook := translate_lookupTree va .alloc addr h hroot (show 0 + (cls + (maxClass - cls)) = maxClass by omega)
  rwa [show cls + (maxClass - cls) = maxClass by omega] at hlook

lemma opened_sub_ne_null (addr cls : ℕ) (h : root.Ok 0) (hroot : root ≠ .null) :
    (opened addr cls root).sub (wayTo addr cls (maxClass - cls)) ≠ .null := by
  rw [← lookupTree_alloc addr cls _ root]
  exact (lookupTree_ok h hroot).2

lemma translation_put (h : root.Ok 0) (hroot : root ≠ .null) (hcls : cls ≤ maxClass) :
    translation ((opened addr cls root).put u (wayTo addr cls (maxClass - cls))) va =
      if SamePage cls addr va then translate va cls u else translation root va := by
  have hput := translate_put va u (lookupTree_ok h hroot).1 (opened_sub_ne_null addr cls h hroot)
  rw [show cls + (maxClass - cls) = maxClass by omega] at hput
  rw [← translation_opened addr va h hroot hcls]
  exact hput

/-- **The page is unmapped**, and nothing else. -/
theorem translation_unmapped (addr va : ℕ) (h : root.Ok 0) (hroot : root ≠ .null) (hcls : cls ≤ maxClass) :
    translation (unmapped addr cls root) va = if SamePage cls addr va then none else translation root va := by
  unfold unmapped
  split
  · next hnil =>
    -- the page is the whole of the space
    have hzero : maxClass - cls = 0 := by
      have hlen := length_wayTo addr cls (maxClass - cls)
      rwa [hnil, length_nil, eq_comm] at hlen
    rw [if_pos (by rw [SamePage, hzero]; rfl)]
    exact translate_fresh va maxClass
  · rw [translation_put h hroot hcls, translate_null]

/-- **The page is mapped**, and nothing else. -/
theorem translation_mapped (addr va : ℕ) (page : Path) (flags : UInt32) (h : root.Ok 0) (hroot : root ≠ .null)
    (hcls : cls ≤ maxClass) :
    translation (mapped addr cls page flags root) va =
      if SamePage cls addr va then
        some (start maxClass page + va / 2 ^ classBase % 2 ^ cls, flags &&& ~~~nodeTypeMask &&& ~~~protCombine)
      else translation root va := by
  unfold mapped
  rw [translation_put h hroot hcls, mappingState, translate_mapping]

variable {c : ℕ}

def treeSize : ℕ := 2 ^ (maxClass + classBase)

lemma wayTo_eq_iff : wayTo va cls k = wayTo addr cls k ↔
    ∀ j < k, va.testBit (cls + j + classBase) = addr.testBit (cls + j + classBase) := by
  induction k with
  | zero => exact ⟨fun _ j hj => absurd hj (not_lt_zero j), fun _ => rfl⟩
  | succ k ih =>
    rw [wayTo, wayTo, cons_eq_cons, ih]
    refine ⟨fun h j hj => ?_, fun h => ⟨h k (lt_succ_self k), fun j hj => h j (by omega)⟩⟩
    rcases Nat.lt_succ_iff_lt_or_eq.mp hj with hj | rfl
    · exact h.2 j hj
    · exact h.1

lemma samePage_iff (hcls : cls ≤ maxClass) :
    SamePage cls addr va ↔ va % treeSize / classSize cls = addr % treeSize / classSize cls := by
  have hbit : ∀ x i : ℕ, (x % treeSize / classSize cls).testBit i =
      (decide (cls + i + classBase < maxClass + classBase) && x.testBit (cls + i + classBase)) := fun x i => by
    rw [treeSize, classSize, testBit_div_two_pow, testBit_mod_two_pow,
      show i + (cls + classBase) = cls + i + classBase by omega]
  unfold SamePage
  rw [wayTo_eq_iff]
  refine ⟨fun h => eq_of_testBit_eq fun i => ?_, fun h j hj => ?_⟩
  · rw [hbit, hbit]
    by_cases hi : i < maxClass - cls
    · rw [h i hi]
    · rw [decide_eq_false (by omega), Bool.false_and, Bool.false_and]
  · have hj' := congrArg (testBit · j) h
    simp only [hbit] at hj'
    rwa [decide_eq_true (by omega), Bool.true_and, Bool.true_and] at hj'

lemma classSize_add (c k : ℕ) : classSize (c + k) = classSize c * 2 ^ k := by
  unfold classSize
  rw [← pow_add]
  congr 1
  omega

lemma classSize_dvd_treeSize (hcls : cls ≤ maxClass) : classSize cls ∣ treeSize := pow_dvd_pow 2 (by omega)

lemma SamePage.mono (h : SamePage c addr va) (hcd : c ≤ d) (hd : d ≤ maxClass) : SamePage d addr va := by
  rw [samePage_iff (by omega)] at h
  obtain ⟨k, rfl⟩ := Nat.exists_eq_add_of_le hcd
  rw [samePage_iff hd, classSize_add, ← Nat.div_div_eq_div_mul, ← Nat.div_div_eq_div_mul, h]

lemma SamePage.half (h : SamePage cls (addr + classSize cls) va) (halign : addr % classSize (cls + 1) = 0)
    (hcls : cls + 1 ≤ maxClass) : SamePage (cls + 1) addr va := by
  refine Eq.trans (h.mono (le_succ cls) hcls) ((samePage_iff hcls).mpr ?_)
  obtain ⟨m, hm⟩ := classSize_dvd_treeSize hcls
  obtain ⟨a, rfl⟩ := dvd_of_mod_eq_zero halign
  have hpos := classSize_pos cls
  have hsize : classSize (cls + 1) = 2 * classSize cls := by rw [classSize_add, pow_one, mul_comm]
  rw [hm, Nat.mod_mul_right_div_self, Nat.mod_mul_right_div_self, Nat.mul_div_cancel_left _ (by omega),
    mul_add_div (by omega), div_eq_of_lt (by omega : classSize cls < classSize (cls + 1)), add_zero]

lemma samePage_floor (hcls : cls ≤ maxClass) : SamePage cls (addr - addr % classSize cls) addr := by
  have hpos := classSize_pos cls
  obtain ⟨m, hm⟩ := classSize_dvd_treeSize hcls
  rw [samePage_iff hcls, hm, mod_mul_right_div_self, mod_mul_right_div_self]
  congr 1
  have hdiv := div_add_mod addr (classSize cls)
  rw [show addr - addr % classSize cls = classSize cls * (addr / classSize cls) by omega,
    Nat.mul_div_cancel_left _ hpos]

def VTree.Good (t : VTree) : Prop := t.Ok 0 ∧ t ≠ .null

lemma good_fresh : (fresh .intermediate).Good := ⟨ok_fresh 0, fresh_ne_null⟩

lemma good_lookupTree (h : root.Good) : (lookupTree mode addr cls k root).1.Good :=
  ⟨(lookupTree_ok h.1 h.2).1, lookupTree_ne_null h.1 h.2⟩

lemma good_put (h : t.Good) (hsub : t.sub w ≠ .null) (hu : u.Ok w.length) (hnull : w = [] → u ≠ .null) :
    (t.put u w).Good := by
  refine ⟨h.1.put hsub (by rwa [zero_add]), ?_⟩
  cases w with
  | nil => exact hnull rfl
  | cons b w => exact setChild_ne_null h.2 b _

lemma good_unmapped (addr cls : ℕ) (h : root.Good) : (unmapped addr cls root).Good := by
  unfold unmapped
  split
  · exact good_fresh
  · next hne => exact good_put (good_lookupTree h) (opened_sub_ne_null addr cls h.1 h.2) (ok_null _) (absurd · hne)

lemma good_mapped (addr : ℕ) (flags : UInt32) (h : root.Good) (hlen : cls + page.length = maxClass) :
    (mapped addr cls page flags root).Good := by
  refine good_put (good_lookupTree h) (opened_sub_ne_null addr cls h.1 h.2) (ok_mapping ?_ (mappingState_isMapping flags))
    fun _ => node_ne_null
  rw [length_wayTo]
  omega

variable {l r : VTree} {p : Path} {prot : UInt32}

lemma wayTo_add (addr cls j k : ℕ) : wayTo addr cls (j + k) = wayTo addr (cls + j) k ++ wayTo addr cls j := by
  induction k with
  | zero => rfl
  | succ k ih => rw [← add_assoc, wayTo, ih, wayTo, cons_append, add_assoc cls j k]

lemma wayTo_of_isPrefix (h : w <+: wayTo addr cls k) : w = wayTo addr (cls + (k - w.length)) w.length := by
  have hlen := h.length_le
  rw [length_wayTo] at hlen
  obtain ⟨x, hx⟩ := h
  have hadd := wayTo_add addr cls (k - w.length) w.length
  rw [Nat.sub_add_cancel hlen, ← hx] at hadd
  exact append_inj_left hadd (length_wayTo _ _ _).symm

lemma translate_sub (h : t.Ok d) (hsub : t.sub (wayTo va cls k) ≠ .null) :
    translate va (cls + k) t = translate va cls (t.sub (wayTo va cls k)) := by
  induction k generalizing t d with
  | zero => rfl
  | succ k ih =>
    rw [wayTo, sub_cons] at hsub ⊢
    have hchild : t.child (va.testBit (cls + k + classBase)) ≠ .null := fun hn => hsub (by rw [hn, null_sub])
    rw [← ih (h.child _) hsub, ← add_assoc, translate_child (h.phy_of_child hchild)]

lemma translation_of_mapping (h : root.Ok 0) (hcls : cls ≤ maxClass)
    (hsub : root.sub (wayTo addr cls (maxClass - cls)) = .node (.mapping prot) (some p) l r)
    (hva : SamePage cls addr va) :
    translation root va = some (start maxClass p + va / 2 ^ classBase % 2 ^ cls, prot) := by
  rw [← hva] at hsub
  have htrans := translate_sub h (by rw [hsub]; exact node_ne_null)
  rw [show cls + (maxClass - cls) = maxClass by omega, hsub, translate_mapping] at htrans
  exact htrans

end Jos.PmapModel
