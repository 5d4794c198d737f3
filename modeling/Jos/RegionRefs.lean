import Jos.RegionCopy

/-!
`region_maxref`: how often the pages of a range are referenced.

The loop looks up the page at an address and goes on by the size of the mapping it finds. Where it
begins in the middle of a mapping, it passes over pages behind that mapping.
-/

namespace Jos.PmapModel

open CArray Jos.Dyadic Runs AttachOrder Nat Option UInt32
open RegionTiles (roundDown_le)

/-- `page->refc + (page->left || page->right)` -/
def Phys.refs (s : Phys) (p : Path) (n : Page) : UInt32 := n.refc + if s.Leaf p then 0 else 1

/-- The loop of `region_maxref`; a loop of more rounds comes back to where it was. -/
def maxrefLoop (space fin : ℕ) (σ : Mem) : ℕ → ℕ → UInt32 → Except Exit UInt32
  | 0, _, _ => .error .diverges
  | rounds + 1, start, res =>
    if start < fin then do
      let y ← lift (pageLookupVirtual .preserve space start 0 (σ.root space) σ.phys)
      match (y.2.1.sub y.2.2).phy with
      | some p => do
        let n ← lift (σ.phys.deref p)
        maxrefLoop space fin σ rounds ((start + classSize n.cls) % 2 ^ 64) (max res (σ.phys.refs p n))
      | none => maxrefLoop space fin σ rounds ((start + classSize 0) % 2 ^ 64) res
    else .ok res

def regionMaxref (space : ℕ) (addr size : UInt64) (σ : Mem) : Except Exit ℤ := do
  let start := roundDown addr.toNat
  let fin := roundUp (addr + size).toNat
  let res ← maxrefLoop space fin σ walkFuel start 0
  .ok res.toInt32.toInt

namespace VTree

def MapsTo (root : VTree) (a : ℕ) (w : List Bool) (p : Path) : Prop :=
  w <+: wayTo a 0 maxClass ∧ (root.sub w).phy = some p

def Points (P : Path → Prop) : VTree → Prop
  | .null => True
  | .node _ phy l r => (∀ p ∈ phy, P p) ∧ l.Points P ∧ r.Points P

instance decidablePoints (P : Path → Prop) [DecidablePred P] : (t : VTree) → Decidable (t.Points P)
  | .null => .isTrue trivial
  | .node _ phy l r =>
    have := decidablePoints P l
    have := decidablePoints P r
    inferInstanceAs (Decidable ((∀ p ∈ phy, P p) ∧ l.Points P ∧ r.Points P))

end VTree

/-- How often the page is referenced that the address is mapped to; one more, if the page has children. -/
def Mem.Refs (σ : Mem) (space a m : ℕ) : Prop :=
  a < treeSize ∧ ∃ w p n, (σ.root space).MapsTo a w p ∧ σ.phys.node p = some n ∧
    m = n.refc.toNat + if σ.phys.Leaf p then 0 else 1

structure MaxOver (R : ℕ → ℕ → Prop) (lo hi m : ℕ) : Prop where
  le : ∀ a, lo ≤ a → a < hi → ∀ k, R a k → k ≤ m
  attained : m = 0 ∨ ∃ a, lo ≤ a ∧ a < hi ∧ R a m

/-- The range begins with a mapping, or ends in the one it begins in. -/
structure Enters (σ : Mem) (space lo hi : ℕ) : Prop where
  fits : hi ≤ treeSize
  /-- the empty range is one between two pages -/
  page : lo = hi → lo % classSize 0 = 0
  first : ∀ w p, (σ.root space).MapsTo lo w p → classSize (maxClass - w.length) ∣ roundDown lo ∨
    hi ≤ (lo / classSize (maxClass - w.length) + 1) * classSize (maxClass - w.length)
  /-- the numbers are those of an `int` -/
  counts : ∀ a, lo ≤ a → a < hi → ∀ m, σ.Refs space a m → m < 2 ^ 31

namespace MaxOver

variable {R : ℕ → ℕ → Prop} {lo mid hi r v : ℕ}

lemma empty (R : ℕ → ℕ → Prop) (lo : ℕ) : MaxOver R lo lo 0 :=
  ⟨fun _ hlo hhi => absurd hhi (not_lt.mpr hlo), .inl rfl⟩

lemma skip (h : MaxOver R lo mid r) (hmid : mid ≤ hi) (hnone : ∀ a, mid ≤ a → a < hi → ∀ k, ¬R a k) :
    MaxOver R lo hi r where
  le a hlo hhi k hk := by
    rcases lt_or_ge a mid with hlt | hge
    · exact h.le a hlo hlt k hk
    · exact absurd hk (hnone a hge hhi k)
  attained := h.attained.imp_right fun ⟨a, hlo, hlt, ha⟩ => ⟨a, hlo, by omega, ha⟩

lemma step (h : MaxOver R lo mid r) (hlo : lo ≤ mid) (hmid : mid < hi)
    (hsame : ∀ a, mid ≤ a → a < hi → ∀ k, R a k ↔ k = v) : MaxOver R lo hi (max r v) where
  le a hloa hhi k hk := by
    rcases lt_or_ge a mid with hlt | hge
    · exact le_max_of_le_left (h.le a hloa hlt k hk)
    · exact le_max_of_le_right ((hsame a hge hhi k).mp hk).le
  attained := by
    rcases le_total r v with hv | hr
    · rw [max_eq_right hv]
      exact .inr ⟨mid, hlo, hmid, (hsame mid le_rfl hmid v).mpr rfl⟩
    · rw [max_eq_left hr]
      exact h.attained.imp_right fun ⟨a, ha, hlt, hk⟩ => ⟨a, ha, by omega, hk⟩

end MaxOver

namespace VTree

variable {root : VTree} {a b : ℕ} {w w' : List Bool} {p p' : Path} {P : Path → Prop}

lemma Points.sub (h : root.Points P) (w : List Bool) : (root.sub w).Points P := by
  induction w generalizing root with
  | nil => exact h
  | cons c w ih =>
    cases root with
    | null => rwa [null_sub]
    | node st phy l r =>
      cases c
      · exact ih h.2.1
      · exact ih h.2.2

lemma Points.page (h : root.Points P) (hp : (root.sub w).phy = some p) : P p := by
  have hsub := h.sub w
  cases hnode : root.sub w with
  | null =>
    rw [hnode] at hp
    cases hp
  | node st phy l r =>
    rw [hnode] at hsub hp
    exact hsub.1 p hp

lemma Points.imp {Q : Path → Prop} (h : root.Points P) (hPQ : ∀ p, P p → Q p) : root.Points Q := by
  induction root with
  | null => trivial
  | node st phy l r ihl ihr => exact ⟨fun p hp => hPQ p (h.1 p hp), ihl h.2.1, ihr h.2.2⟩

lemma MapsTo.length_le (h : root.MapsTo a w p) : w.length ≤ maxClass := by
  have := h.1.length_le
  rwa [length_wayTo] at this

lemma MapsTo.unique (hok : root.Ok 0) (h : root.MapsTo a w p) (h' : root.MapsTo a w' p') : w = w' ∧ p = p' := by
  obtain rfl : w = w' :=
    (lookupTree_preserve_mapping hok h.1 h.2).symm.trans (lookupTree_preserve_mapping hok h'.1 h'.2)
  exact ⟨rfl, some.inj (h.2.symm.trans h'.2)⟩

lemma MapsTo.samePage (h : root.MapsTo a w p) (hs : SamePage (maxClass - w.length) a b) : root.MapsTo b w p := by
  have hlen := h.length_le
  refine ⟨?_, h.2⟩
  have hway := wayTo_of_isPrefix h.1
  rw [zero_add] at hway
  unfold SamePage at hs
  rw [Nat.sub_sub_self hlen] at hs
  have hb := wayTo_add b 0 (maxClass - w.length) w.length
  rw [Nat.sub_add_cancel hlen, Nat.zero_add, hs, ← hway] at hb
  rw [hb]
  exact List.prefix_append w _

lemma MapsTo.same (h : root.MapsTo a w p) (h' : root.MapsTo b w p') : SamePage (maxClass - w.length) a b := by
  have ha := wayTo_of_isPrefix h.1
  have hb := wayTo_of_isPrefix h'.1
  rw [zero_add] at ha hb
  unfold SamePage
  rw [Nat.sub_sub_self h.length_le, ← ha, ← hb]

end VTree

open VTree

variable {σ : Mem} {space fin lo cur rounds : ℕ} {root : VTree} {a b : ℕ} {w w' : List Bool} {p p' : Path}
  {n : Page} {res : UInt32}

lemma samePage_of_lt {cls : ℕ} (hcls : cls ≤ maxClass) (ha : a < treeSize) (hb : b < treeSize) :
    SamePage cls a b ↔ b / classSize cls = a / classSize cls := by
  rw [samePage_iff hcls, mod_eq_of_lt ha, mod_eq_of_lt hb]

lemma first_of_before (ha : a < treeSize) (h : root.MapsTo a w p) (hbefore : 0 < a → ¬root.MapsTo (a - 1) w p) :
    classSize (maxClass - w.length) ∣ a := by
  by_contra hdvd
  have hpos : 0 < a := pos_of_ne_zero fun h0 => hdvd (h0 ▸ dvd_zero _)
  refine hbefore hpos (h.samePage ((samePage_of_lt (sub_le _ _) ha (by omega)).mpr ?_))
  have hsucc := succ_div_of_not_dvd (a := a - 1) (b := classSize (maxClass - w.length))
    (by rwa [Nat.sub_add_cancel hpos])
  rw [Nat.sub_add_cancel hpos] at hsucc
  exact hsucc.symm

/-- **What the look-up finds** is the mapping, if there is one. -/
lemma lookup_mapping (hok : (σ.root space).Ok 0) (h : (σ.root space).MapsTo a w p) :
    pageLookupVirtual .preserve space a 0 (σ.root space) σ.phys = .ok (σ.phys, σ.root space, w) := by
  have hroot : σ.root space ≠ .null := fun hn => by
    have := h.2
    rw [hn, null_sub] at this
    cases this
  have hlook := lookupVirtual_preserve a 0 (k := maxClass - 0) (v := (space, [])) σ.phys hroot
  rw [show maxClass - 0 = maxClass from rfl, lookupTree_preserve_mapping hok h.1 h.2] at hlook
  exact hlook

lemma maxrefLoop_mapping (hok : (σ.root space).Ok 0) (hlt : cur < fin) (h : (σ.root space).MapsTo cur w p)
    (hn : σ.phys.node p = some n) : maxrefLoop space fin σ (rounds + 1) cur res =
      maxrefLoop space fin σ rounds ((cur + classSize n.cls) % 2 ^ 64) (max res (σ.phys.refs p n)) := by
  rw [maxrefLoop, if_pos hlt, lookup_mapping hok h]
  simp only [lift, ok_bind, h.2, Phys.deref, hn]

lemma maxrefLoop_hole (hroot : σ.root space ≠ .null) (hlt : cur < fin)
    (hnone : ∀ w p, ¬(σ.root space).MapsTo cur w p) : maxrefLoop space fin σ (rounds + 1) cur res =
      maxrefLoop space fin σ rounds ((cur + classSize 0) % 2 ^ 64) res := by
  obtain ⟨w, hw, hpre, -⟩ := lookupTree_preserve cur 0 (k := maxClass) hroot
  have hphy : ((σ.root space).sub w).phy = none := by
    cases hp : ((σ.root space).sub w).phy with
    | none => rfl
    | some p => exact absurd ⟨hpre, hp⟩ (hnone w p)
  have hlook := lookupVirtual_preserve cur 0 (k := maxClass - 0) (v := (space, [])) σ.phys hroot
  rw [show maxClass - 0 = maxClass from rfl, hw] at hlook
  rw [maxrefLoop, if_pos hlt, pageLookupVirtual, show maxClass - 0 = maxClass from rfl, hlook]
  simp only [lift, ok_bind, hphy]

lemma refs_iff (hok : (σ.root space).Ok 0) (ha : a < treeSize) (h : (σ.root space).MapsTo a w p)
    (hn : σ.phys.node p = some n) (k : ℕ) :
    σ.Refs space a k ↔ k = n.refc.toNat + if σ.phys.Leaf p then 0 else 1 := by
  refine ⟨fun ⟨_, w', p', n', h', hn', hk⟩ => ?_, fun hk => ⟨ha, w, p, n, h, hn, hk⟩⟩
  obtain ⟨-, rfl⟩ := h.unique hok h'
  rw [hk, some.inj (hn.symm.trans hn')]

lemma mapsTo_congr (hs : SamePage 0 a b) (h : root.MapsTo a w p) : root.MapsTo b w p :=
  h.samePage (hs.mono (zero_le _) (sub_le _ _))

lemma refs_congr {k : ℕ} (hs : SamePage 0 a b) (hb : b < treeSize) (h : σ.Refs space a k) : σ.Refs space b k := by
  obtain ⟨_, w, p, n, hm, hn, hk⟩ := h
  exact ⟨hb, w, p, n, mapsTo_congr hs hm, hn, hk⟩

lemma toNat_refs (h : n.refc.toNat + (if σ.phys.Leaf p then 0 else 1) < 2 ^ 31) :
    (σ.phys.refs p n).toNat = n.refc.toNat + if σ.phys.Leaf p then 0 else 1 := by
  unfold Phys.refs
  split at h
  · rw [if_pos ‹_›, if_pos ‹_›, add_zero, add_zero]
  · rw [if_neg ‹_›, if_neg ‹_›, UInt32.toNat_add]
    exact mod_eq_of_lt (by change n.refc.toNat + 1 < 2 ^ 32; omega)

lemma toNat_max (x y : UInt32) : (max x y).toNat = max x.toNat y.toNat := by
  change (if x ≤ y then y else x).toNat = _
  split
  · next h => exact (max_eq_right (le_iff_toNat_le.mp h)).symm
  · next h => exact (max_eq_left (not_le.mp fun hle => h (le_iff_toNat_le.mpr hle)).le).symm

lemma cls_of_mapsTo (hσ : σ.Formed) (h : (σ.root space).MapsTo a w p) (hn : σ.phys.node p = some n) :
    n.cls = maxClass - w.length := by
  have hplace := hσ.placed p n hn
  have hok := (hσ.trees space).sub w
  have hp := h.2
  cases hnode : (σ.root space).sub w with
  | null =>
    rw [hnode] at hp
    cases hp
  | node st phy l r =>
    rw [hnode] at hok hp
    have hlen := (hok.2.1 p hp).2.1
    omega

lemma end_le_treeSize {cls : ℕ} (hcls : cls ≤ maxClass) (h : classSize cls ∣ a) (ha : a < treeSize) :
    a + classSize cls ≤ treeSize := by
  obtain ⟨q, rfl⟩ := h
  obtain ⟨m, hm⟩ := classSize_dvd_treeSize hcls
  rw [hm] at ha ⊢
  have hq : q < m := lt_of_mul_lt_mul_left ha (zero_le _)
  calc classSize cls * q + classSize cls = classSize cls * (q + 1) := (mul_succ _ _).symm
    _ ≤ classSize cls * m := Nat.mul_le_mul_left _ hq

lemma mod_of_le_treeSize {cls : ℕ} (hcls : cls ≤ maxClass) (ha : a ≤ treeSize) :
    (a + classSize cls) % 2 ^ 64 = a + classSize cls := by
  have hle : classSize cls ≤ treeSize := Nat.pow_le_pow_right (by decide) (by omega)
  have : treeSize = 2 ^ 60 := rfl
  exact mod_eq_of_lt (by omega)

lemma maxrefLoop_done (h : fin ≤ cur) : maxrefLoop space fin σ (rounds + 1) cur res = .ok res := by
  rw [maxrefLoop, if_neg (not_lt.mpr h)]

lemma maxrefLoop_max (hσ : σ.Formed) (hroot : σ.root space ≠ .null)
    (hpoints : (σ.root space).Points fun p => σ.phys.node p ≠ none) (hfin : fin ≤ treeSize)
    (hcounts : ∀ a, lo ≤ a → a < fin → ∀ m, σ.Refs space a m → m < 2 ^ 31) (hlo : lo ≤ cur)
    (hcur : classSize 0 ∣ cur) (hrounds : fin ≤ cur + rounds * classSize 0)
    (hfirst : cur < fin → ∀ w p, (σ.root space).MapsTo cur w p → classSize (maxClass - w.length) ∣ cur)
    (hmax : MaxOver (σ.Refs space) lo (min cur fin) res.toNat) :
    ∃ m, maxrefLoop space fin σ (rounds + 1) cur res = .ok m ∧ MaxOver (σ.Refs space) lo fin m.toNat := by
  have hok := hσ.trees space
  induction rounds generalizing cur res with
  | zero =>
    have hle : fin ≤ cur := by omega
    rw [min_eq_right hle] at hmax
    exact ⟨res, maxrefLoop_done hle, hmax⟩
  | succ rounds ih =>
    by_cases hlt : cur < fin
    swap
    · rw [min_eq_right (not_lt.mp hlt)] at hmax
      exact ⟨res, maxrefLoop_done (not_lt.mp hlt), hmax⟩
    have hcurT : cur < treeSize := by omega
    rw [min_eq_left hlt.le] at hmax
    rw [succ_mul] at hrounds
    by_cases hmap : ∃ w p, (σ.root space).MapsTo cur w p
    · obtain ⟨w, p, h⟩ := hmap
      obtain ⟨n, hn⟩ := ne_none_iff_exists'.mp (hpoints.page h.2)
      have hcls := cls_of_mapsTo hσ h hn
      have hle : n.cls ≤ maxClass := by omega
      have halign : classSize n.cls ∣ cur := hcls ▸ hfirst hlt w p h
      have hend := end_le_treeSize hle halign hcurT
      have hsize := classSize_zero_le n.cls
      have hpos := classSize_pos n.cls
      have hblock : ∀ a, cur ≤ a → a < cur + classSize n.cls → (σ.root space).MapsTo a w p := fun a hge ha => by
        have hs := (samePage_iff_range hle halign hend (by omega : a < treeSize)).mpr ⟨hge, ha⟩
        rw [hcls] at hs
        exact h.samePage hs
      have hv := hcounts cur hlo hlt _ ((refs_iff hok hcurT h hn _).mpr rfl)
      rw [maxrefLoop_mapping hok hlt h hn, mod_of_le_treeSize hle hcurT.le]
      refine ih (by omega) (Nat.dvd_add hcur (classSize_zero_dvd _)) (by omega) (fun hlt' w' p' h' => ?_) ?_
      · refine first_of_before (by omega) h' fun _ hbefore => ?_
        obtain ⟨rfl, -⟩ := (hblock (cur + classSize n.cls - 1) (by omega) (by omega)).unique hok hbefore
        have hs := h.same h'
        rw [← hcls, samePage_iff_range hle halign hend (by omega)] at hs
        omega
      · rw [toNat_max, toNat_refs hv]
        refine hmax.step hlo (by omega) fun a hge ha k => ?_
        exact refs_iff hok (by omega) (hblock a hge (by omega)) hn k
    · push Not at hmap
      have hhole : ∀ a, cur ≤ a → a < cur + classSize 0 → ∀ w p, ¬(σ.root space).MapsTo a w p := by
        intro a hge ha w p h
        have hend := end_le_treeSize (zero_le _) hcur hcurT
        have hs := (samePage_iff_range (zero_le _) hcur hend (by omega : a < treeSize)).mpr ⟨hge, ha⟩
        exact hmap w p (mapsTo_congr hs.symm h)
      have hpos := classSize_pos 0
      rw [maxrefLoop_hole hroot hlt hmap, mod_of_le_treeSize (zero_le _) hcurT.le]
      refine ih (by omega) (Nat.dvd_add hcur (dvd_refl _)) (by omega) (fun hlt' w' p' h' => ?_) ?_
      · exact first_of_before (by omega) h' fun _ => hhole _ (by omega) (by omega) w' p'
      · refine hmax.skip (by omega) fun a hge ha k hk => ?_
        obtain ⟨_, w, p, n, h, -⟩ := hk
        exact hhole a hge (by omega) w p h

lemma rounded_page {hi : ℕ} (hlt : lo < hi) (hhi : hi ≤ treeSize) (hge : roundDown lo ≤ a) (ha : a < roundUp hi) :
    ∃ b, lo ≤ b ∧ b < hi ∧ a < treeSize ∧ SamePage 0 a b := by
  have htree : treeSize = 2 ^ 60 := rfl
  have hsize : classSize 0 = 4096 := rfl
  unfold roundUp roundDown at *
  rw [hsize] at hge ha
  refine ⟨max lo (min a (hi - 1)), le_max_left _ _, by omega, by omega, ?_⟩
  rw [samePage_of_lt (zero_le _) (by omega) (by omega), hsize]
  omega

lemma classSize_dvd_roundDown (a : ℕ) : classSize 0 ∣ roundDown a := dvd_sub_mod a

lemma samePage_roundDown (a : ℕ) : SamePage 0 (roundDown a) a := samePage_floor (zero_le _)

lemma MaxOver.of_rounded {hi m : ℕ} (h : MaxOver (σ.Refs space) (roundDown lo) (roundUp hi) m) (hlt : lo < hi)
    (hhi : hi ≤ treeSize) : MaxOver (σ.Refs space) lo hi m where
  le a hge ha := h.le a ((roundDown_le lo).trans hge) (ha.trans_le (le_roundUp hhi))
  attained := h.attained.imp_right fun ⟨a, hge, ha, hm⟩ => by
    obtain ⟨b, hlo, hb, -, hs⟩ := rounded_page hlt hhi hge ha
    exact ⟨b, hlo, hb, refs_congr hs (by omega) hm⟩

lemma maxrefLoop_range {hi : ℕ} (hσ : σ.Formed) (hroot : σ.root space ≠ .null)
    (hpoints : (σ.root space).Points fun p => σ.phys.node p ≠ none) (h : Enters σ space lo hi) (hlt : lo < hi) :
    ∃ m, maxrefLoop space (roundUp hi) σ walkFuel (roundDown lo) 0 = .ok m ∧
      MaxOver (σ.Refs space) (roundDown lo) (roundUp hi) m.toNat := by
  have hok := hσ.trees space
  have hhi := h.fits
  have hfin : roundUp hi ≤ treeSize := roundUp_le_of_dvd (classSize_dvd_treeSize (zero_le _)) hhi
  have hstart : roundDown lo < roundUp hi := ((roundDown_le lo).trans_lt hlt).trans_le (le_roundUp hhi)
  have hloT : lo < treeSize := by omega
  have hsame : SamePage 0 (roundDown lo) lo := samePage_roundDown lo
  have hcounts : ∀ a, roundDown lo ≤ a → a < roundUp hi → ∀ m, σ.Refs space a m → m < 2 ^ 31 := by
    intro a hge ha m hm
    obtain ⟨b, hlo, hb, -, hs⟩ := rounded_page hlt hhi hge ha
    exact h.counts b hlo hb m (refs_congr hs (by omega) hm)
  have hempty : MaxOver (σ.Refs space) (roundDown lo) (min (roundDown lo) (roundUp hi)) (0 : UInt32).toNat := by
    rw [min_eq_left hstart.le]
    exact .empty _ _
  have hfuel : roundUp hi ≤ roundDown lo + 2 ^ 52 * classSize 0 := by
    have htree : treeSize = 2 ^ 60 := rfl
    have hsize : classSize 0 = 4096 := rfl
    omega
  by_cases hcut : ∃ w p, (σ.root space).MapsTo lo w p ∧ ¬classSize (maxClass - w.length) ∣ roundDown lo
  swap
  · push Not at hcut
    exact maxrefLoop_max hσ hroot hpoints hfin hcounts le_rfl (classSize_dvd_roundDown lo) hfuel
      (fun _ w p hm => hcut w p (mapsTo_congr hsame hm)) hempty
  -- the range ends in the mapping it begins in, and the loop after one round
  obtain ⟨w, p, hm, hndvd⟩ := hcut
  have hend := (h.first w p hm).resolve_left hndvd
  have hm₀ := mapsTo_congr hsame.symm hm
  obtain ⟨n, hn⟩ := ne_none_iff_exists'.mp (hpoints.page hm.2)
  have hcls := cls_of_mapsTo hσ hm hn
  have hle : n.cls ≤ maxClass := by omega
  rw [← hcls] at hend
  have hfloor : lo / classSize n.cls * classSize n.cls ≤ roundDown lo := by
    have hdvd : classSize 0 ∣ lo / classSize n.cls * classSize n.cls := (classSize_zero_dvd _).mul_left _
    have hle' := div_mul_le_self lo (classSize n.cls)
    have hsize : classSize 0 = 4096 := rfl
    rw [hsize] at hdvd
    unfold roundDown
    rw [hsize]
    omega
  have hover : roundUp hi ≤ (lo / classSize n.cls + 1) * classSize n.cls :=
    roundUp_le_of_dvd ((classSize_zero_dvd _).mul_left _) hend
  have hblock : ∀ a, roundDown lo ≤ a → a < roundUp hi → (σ.root space).MapsTo a w p := fun a hge ha => by
    refine hm.samePage ?_
    rw [← hcls, samePage_of_lt hle hloT (by omega), Nat.div_eq_iff (classSize_pos _)]
    rw [succ_mul] at hover
    omega
  have hv := hcounts _ le_rfl hstart _ ((refs_iff hok (by omega) hm₀ hn _).mpr rfl)
  refine ⟨max 0 (σ.phys.refs p n), ?_, ?_⟩
  · rw [show walkFuel = 2 ^ 52 - 1 + 1 + 1 from rfl, maxrefLoop_mapping hok hstart hm₀ hn,
      mod_of_le_treeSize hle (by omega), maxrefLoop_done (by rw [succ_mul] at hover; omega)]
  · rw [toNat_max, toNat_refs hv]
    rw [min_eq_left hstart.le] at hempty
    exact hempty.step le_rfl hstart fun a hge ha k => refs_iff hok (by omega) (hblock a hge ha) hn k

lemma toInt_of_lt {m : UInt32} (h : m.toNat < 2 ^ 31) : m.toInt32.toInt = m.toNat := by
  change m.toBitVec.toInt = _
  rw [BitVec.toInt_eq_toNat_of_lt (by rw [toNat_toBitVec]; omega)]
  rfl

/-- **The largest number of references to a page of the range**, if no mapping is cut off at its
beginning. -/
theorem region_maxref_maximum {addr size : UInt64} (hσ : σ.Formed) (hroot : σ.root space ≠ .null)
    (hpoints : (σ.root space).Points fun p => σ.phys.node p ≠ none)
    (h : Enters σ space addr.toNat (addr.toNat + size.toNat)) :
    ∃ m : ℕ, regionMaxref space addr size σ = .ok m ∧
      MaxOver (σ.Refs space) addr.toNat (addr.toNat + size.toNat) m := by
  have htree : treeSize = 2 ^ 60 := rfl
  have hfits := h.fits
  have hsum : (addr + size).toNat = addr.toNat + size.toNat := by
    rw [UInt64.toNat_add]
    exact mod_eq_of_lt (by omega)
  unfold regionMaxref
  rw [hsum]
  rcases Nat.eq_zero_or_pos size.toNat with hzero | hpos
  · have hpage := h.page (by omega)
    rw [hzero, add_zero] at hfits ⊢
    have hstart : roundDown addr.toNat = addr.toNat := by
      unfold roundDown
      rw [hpage, Nat.sub_zero]
    have hfin : roundUp addr.toNat ≤ addr.toNat := roundUp_le_of_dvd (dvd_of_mod_eq_zero hpage) le_rfl
    rw [hstart, show walkFuel = 2 ^ 52 + 1 from rfl]
    dsimp only
    rw [maxrefLoop_done hfin, ok_bind]
    exact ⟨0, rfl, .empty _ _⟩
  · obtain ⟨m, hm, hmax⟩ := maxrefLoop_range hσ hroot hpoints h (by omega)
    have hmax := hmax.of_rounded (by omega) hfits
    have hint : m.toNat < 2 ^ 31 := by
      rcases hmax.attained with h0 | ⟨a, hge, ha, hr⟩
      · omega
      · exact h.counts a hge ha _ hr
    dsimp only
    rw [hm, ok_bind, toInt_of_lt hint]
    exact ⟨m.toNat, rfl, hmax⟩

def threePages : List MemStep :=
  oneEnv ++ [.mapUser oneEnvSetting Jos.EnvTable.firstSlot 0x2000 0x2000
      (allocZero ||| protShare ||| protR ||| protW ||| protUser),
    .mapUser oneEnvSetting Jos.EnvTable.firstSlot 0x4000 0x1000
      (allocZero ||| protShare ||| protR ||| protW ||| protUser),
    .call oneEnvSetting oneEnvTable (.mapRegion 0 0x4000 0 0x6000 0x1000 (protShare ||| protR ||| protW))]

def maxrefOf (σ : Mem) (_ : ℤ) (x : UInt64 × UInt64) : Except Exit ℤ := regionMaxref 1 x.1 x.2 σ

def Mem.Seldom (σ : Mem) (p : Path) : Prop := ∃ n ∈ σ.phys.node p, n.refc.toNat < 1000
  deriving Decidable

set_option maxRecDepth 100000 in
lemma run_threePages : ∃ σ, run memStep (bootMem 0x100000 true true) threePages = .ok σ ∧
    σ.root 1 ≠ .null ∧ (σ.root 1).Points σ.Seldom ∧
    classSize (maxClass - (lookupTree .preserve 0x2000 0 maxClass (σ.root 1)).2.length) ∣ roundDown 0x2000 ∧
    (∃ m, run (maxrefOf σ) 0 [(0x3000, 0x2000)] = .ok m ∧ m = 1) ∧
    ∃ p ∈ ((σ.root 1).sub (wayTo 0x4000 0 maxClass)).phy, ∃ n ∈ σ.phys.node p, n.refc.toNat = 2 ∧ σ.phys.Leaf p := by
  decide +kernel

lemma threePages_formed (h : run memStep (bootMem 0x100000 true true) threePages = .ok σ) : σ.Formed :=
  (userFormed_of_run (by decide) h).toFormed

theorem region_maxref_maximum_threePages :
    ∃ σ, run memStep (bootMem 0x100000 true true) threePages = .ok σ ∧
      ∃ m : ℕ, regionMaxref 1 0x2000 0x3000 σ = .ok m ∧
        MaxOver (σ.Refs 1) (0x2000 : UInt64).toNat ((0x2000 : UInt64).toNat + (0x3000 : UInt64).toNat) m := by
  obtain ⟨σ, hrun, hroot, hseldom, hfirst, -⟩ := run_threePages
  have hσ := threePages_formed hrun
  refine ⟨σ, hrun, region_maxref_maximum hσ hroot (hseldom.imp fun p ⟨n, hn, _⟩ => ?_)
    ⟨by decide, by decide, fun w p hm => .inl ?_, fun a _ _ m hm => ?_⟩⟩
  · rw [mem_def.mp hn]
    exact some_ne_none n
  · have hm : (σ.root 1).MapsTo 0x2000 w p := hm
    rwa [lookupTree_preserve_mapping (hσ.trees 1) hm.1 hm.2] at hfirst
  · obtain ⟨_, w, p, n, hmap, hn, rfl⟩ := hm
    obtain ⟨n', hn', hlt⟩ := hseldom.page hmap.2
    obtain rfl : n = n' := some.inj (hn.symm.trans hn')
    split <;> omega

/-- The range begins in the middle of the mapping of two pages, and the page behind it, which is
referenced twice, is passed over. -/
theorem maxref_page_passed :
    ∃ σ, run memStep (bootMem 0x100000 true true) threePages = .ok σ ∧ σ.Formed ∧
      regionMaxref 1 0x3000 0x2000 σ = .ok 1 ∧ σ.Refs 1 0x4000 2 ∧
      ¬∃ m : ℕ, regionMaxref 1 0x3000 0x2000 σ = .ok m ∧
        MaxOver (σ.Refs 1) (0x3000 : UInt64).toNat ((0x3000 : UInt64).toNat + (0x2000 : UInt64).toNat) m := by
  obtain ⟨σ, hrun, -, -, -, ⟨m, hm, rfl⟩, p, hp, n, hn, hrefc, hleaf⟩ := run_threePages
  rw [run_singleton] at hm
  have hrefs : σ.Refs 1 0x4000 2 :=
    ⟨by decide, _, p, n, ⟨List.prefix_rfl, hp⟩, hn, by rw [hrefc, if_pos hleaf]⟩
  refine ⟨σ, hrun, threePages_formed hrun, hm, hrefs, fun ⟨k, hk, hmax⟩ => ?_⟩
  have hone : (1 : ℤ) = k := Except.ok.inj (hm.symm.trans hk)
  have := hmax.le 0x4000 (by decide) (by decide) 2 hrefs
  omega

end Jos.PmapModel
