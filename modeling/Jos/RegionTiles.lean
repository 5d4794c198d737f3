import Jos.Tiling
import Jos.AttachOrder
import Jos.MapModel

/-!
The pieces in which regions are mapped, unmapped and attached.

`map_region` and `unmap_region` go up through the classes as far as the start of the region allows
and then down again; `attach_region` looks for the largest piece that fits, again and again.
-/

namespace Jos.RegionTiles

open CArray PmapModel Tiling List Nat
open AttachOrder (Piece growClass_spec growClass_piece classSize_zero_dvd classSize_zero_le aligned_add
  roundDown_aligned roundUp_aligned roundUp_le)

/-- The pieces follow each other from `a` to `b`. -/
def Tiled (a b : ℕ) (ps : List Piece) : Prop := Tiles Piece.addr (fun p => classSize p.cls) a b ps

def Piece.Aligned (p : Piece) : Prop := classSize p.cls ∣ p.addr

def covering (x : ℕ) (ps : List Piece) : ℕ := ps.countP (Holds Piece.addr (fun p => classSize p.cls) x ·)

lemma Tiled.covering {a b : ℕ} {ps : List Piece} (h : Tiled a b ps) (x : ℕ) :
    covering x ps = if a ≤ x ∧ x < b then 1 else 0 := Tiles.countP_holds h x

variable {k cls fuel dst fin L : ℕ} {σ : Mem} {op : ℕ → ℕ → Mem → Except Exit (Mem × Res)}

lemma classSize_double (cls : ℕ) : classSize (cls + 1) = 2 * classSize cls := by
  unfold classSize
  rw [add_right_comm, pow_succ, mul_comm]

lemma classSize_dvd {c d : ℕ} (h : c ≤ d) : classSize c ∣ classSize d := Nat.pow_dvd_pow 2 (Nat.add_le_add_right h _)

lemma dvd_succ_iff (h : classSize cls ∣ dst) : classSize (cls + 1) ∣ dst ↔ dst.testBit (cls + classBase) = false := by
  obtain ⟨q, rfl⟩ := h
  have hdiv : classSize cls * q / 2 ^ (cls + classBase) = q := Nat.mul_div_cancel_left _ (classSize_pos cls)
  rw [testBit_eq_decide_div_mod_eq, hdiv, classSize_double, mul_comm 2, decide_eq_false_iff_not,
    Nat.mul_dvd_mul_iff_left (classSize_pos cls)]
  omega

lemma dvd_succ_add (h : classSize cls ∣ dst) (hbit : dst.testBit (cls + classBase)) :
    classSize (cls + 1) ∣ dst + classSize cls := by
  have hno : ¬classSize (cls + 1) ∣ dst := by simp [dvd_succ_iff h, hbit]
  obtain ⟨q, rfl⟩ := h
  rw [classSize_double, mul_comm 2] at hno ⊢
  rw [Nat.mul_dvd_mul_iff_left (classSize_pos cls)] at hno
  rw [← Nat.mul_succ, Nat.mul_dvd_mul_iff_left (classSize_pos cls)]
  omega

def onPiece (op : ℕ → ℕ → Mem → Except Exit (Mem × Res)) (p : Piece) (σ : Mem) : Except Exit (Mem × Res) :=
  op p.cls p.addr σ

/-- The first loop over a region: it goes through the pieces `ps` and stops at the class `cls'` and the
address `dst'`. No sum wraps. -/
structure Up (op : ℕ → ℕ → Mem → Except Exit (Mem × Res)) (fin k cls dst : ℕ) (ps : List Piece)
    (cls' dst' : ℕ) : Prop where
  tiled : Tiled dst dst' ps
  pieces : ∀ p ∈ ps, Piece.Aligned p ∧ p.cls ≤ cls'
  le : dst' ≤ fin
  place : classSize cls' ∣ dst'
  top : cls' ≤ cls + k
  stop : cls' = cls + k ∨ fin < dst' + classSize cls'
  walk : ∀ σ (next : ℕ → ℕ → Mem → Except Exit (Mem × Res)),
    (walkUp op fin k cls dst σ >>= fun w =>
        if w.res ≠ .ok then .ok (w.mem, w.res) else next w.cls w.dst w.mem) =
      sweep .ok (onPiece op) ps σ >>= fun r => if r.2 ≠ .ok then .ok r else next cls' dst' r.1

lemma Up.skip {ps : List Piece} {cls' dst' : ℕ} (h : Up op fin k (cls + 1) dst ps cls' dst')
    (hfit : pageEnd dst cls ≤ fin) (hbit : dst.testBit (cls + classBase) = false) :
    Up op fin (k + 1) cls dst ps cls' dst' where
  tiled := h.tiled
  pieces := h.pieces
  le := h.le
  place := h.place
  top := by have := h.top; omega
  stop := h.stop.imp_left fun e => by omega
  walk := fun σ next => by rw [walkUp, if_pos hfit, if_neg (by simp [hbit]), h.walk]

lemma Up.take {ps : List Piece} {cls' dst' : ℕ} (hle : cls ≤ cls')
    (h : Up op fin k (cls + 1) (dst + classSize cls) ps cls' dst')
    (hplace : classSize cls ∣ dst) (hend : pageEnd dst cls = dst + classSize cls)
    (hfit : pageEnd dst cls ≤ fin) (hbit : dst.testBit (cls + classBase)) :
    Up op fin (k + 1) cls dst (⟨dst, cls⟩ :: ps) cls' dst' where
  tiled := ⟨rfl, h.tiled⟩
  pieces := fun p hp => by
    rcases mem_cons.mp hp with rfl | hp
    · exact ⟨hplace, hle⟩
    · exact h.pieces p hp
  le := h.le
  place := h.place
  top := by have := h.top; omega
  stop := h.stop.imp_left fun e => by omega
  walk := fun σ next => by
    rw [walkUp, if_pos hfit, if_pos hbit, sweep, bind_assoc, bind_assoc, hend]
    refine congrArg _ (funext fun r => ?_)
    by_cases hr : r.2 ≠ .ok
    · rw [if_pos hr, if_pos hr, ok_bind, ok_bind, if_pos hr, if_pos hr]
    · rw [if_neg hr, if_neg hr]
      exact h.walk r.1 next

/-- **The way up.** -/
theorem exists_up (op : ℕ → ℕ → Mem → Except Exit (Mem × Res)) (k : ℕ) (hwrap : fin + 2 * L < 2 ^ 64) (hL : fin ≤ dst + L) (hcls : classSize cls ≤ 2 * L)
    (hdst : dst ≤ fin) (hplace : classSize cls ∣ dst) :
    ∃ ps cls' dst', cls ≤ cls' ∧ classSize cls' ≤ 2 * L ∧ Up op fin k cls dst ps cls' dst' := by
  induction k generalizing cls dst with
  | zero =>
    refine ⟨[], cls, dst, le_rfl, hcls, rfl, nofun, hdst, hplace, le_rfl, .inl rfl, fun σ next => ?_⟩
    rw [walkUp, sweep, ok_bind, ok_bind]
  | succ k ih =>
    have hend : pageEnd dst cls = dst + classSize cls := mod_eq_of_lt (by omega)
    by_cases hfit : pageEnd dst cls ≤ fin
    · have hnext : classSize (cls + 1) ≤ 2 * L := by
        rw [classSize_double]
        omega
      by_cases hbit : dst.testBit (cls + classBase)
      · obtain ⟨ps, cls', dst', hle, hsmall, h⟩ := ih (show fin ≤ dst + classSize cls + L by omega) hnext
          (by omega) (dvd_succ_add hplace hbit)
        exact ⟨_, cls', dst', by omega, hsmall, h.take (by omega) hplace hend hfit hbit⟩
      · rw [Bool.not_eq_true] at hbit
        obtain ⟨ps, cls', dst', hle, hsmall, h⟩ := ih hL hnext hdst ((dvd_succ_iff hplace).mpr hbit)
        exact ⟨ps, cls', dst', by omega, hsmall, h.skip hfit hbit⟩
    · refine ⟨[], cls, dst, le_rfl, hcls, rfl, nofun, hdst, hplace, le_add_right _ _, .inr (by omega),
        fun σ next => ?_⟩
      rw [walkUp, if_neg hfit, sweep, ok_bind, ok_bind]

/-- The pieces of one class, from `dst` on. -/
structure Along (op : ℕ → ℕ → Mem → Except Exit (Mem × Res)) (along : ℕ → ℕ → Mem → Except Exit Walk)
    (fin cls dst : ℕ) (ps : List Piece) (dst' : ℕ) : Prop where
  tiled : Tiled dst dst' ps
  pieces : ∀ p ∈ ps, Piece.Aligned p ∧ p.cls ≤ cls
  le : dst' ≤ fin
  place : classSize cls ∣ dst'
  stop : fin < dst' + classSize cls
  walk : ∀ σ (next : ℕ → Mem → Except Exit (Mem × Res)),
    (along cls dst σ >>= fun w => if w.res ≠ .ok then .ok (w.mem, w.res) else next w.dst w.mem) =
      sweep .ok (onPiece op) ps σ >>= fun r => if r.2 ≠ .ok then .ok r else next dst' r.1

lemma exists_walkAlong (hwrap : fin + classSize cls < 2 ^ 64) (hdst : dst ≤ fin) (hplace : classSize cls ∣ dst)
    (hfuel : fin < dst + fuel * classSize cls) :
    ∃ ps dst', Along op (fun cls dst σ => walkAlong op fin cls fuel dst σ) fin cls dst ps dst' := by
  induction fuel generalizing dst with
  | zero => omega
  | succ fuel ih =>
    have hend : pageEnd dst cls = dst + classSize cls := mod_eq_of_lt (by omega)
    by_cases hfit : pageEnd dst cls ≤ fin
    · rw [hend] at hfit
      obtain ⟨ps, dst', h⟩ := ih hfit (Nat.dvd_add hplace (dvd_refl _)) (by
        rw [succ_mul] at hfuel
        omega)
      refine ⟨⟨dst, cls⟩ :: ps, dst', ⟨rfl, h.tiled⟩, ?_, h.le, h.place, h.stop, fun σ next => ?_⟩
      · intro p hp
        rcases mem_cons.mp hp with rfl | hp
        · exact ⟨hplace, le_rfl⟩
        · exact h.pieces p hp
      · rw [walkAlong, if_pos (hend ▸ hfit), sweep, bind_assoc, bind_assoc, hend]
        refine congrArg _ (funext fun r => ?_)
        by_cases hr : r.2 ≠ .ok
        · rw [if_pos hr, if_pos hr, ok_bind, ok_bind, if_pos hr, if_pos hr]
        · rw [if_neg hr, if_neg hr]
          exact h.walk r.1 next
    · refine ⟨[], dst, rfl, by simp, hdst, hplace, by omega, fun σ next => ?_⟩
      rw [walkAlong, if_neg hfit, sweep, ok_bind, ok_bind]

lemma exists_walkOnce (hwrap : fin + classSize cls < 2 ^ 64) (hdst : dst ≤ fin) (hplace : classSize cls ∣ dst)
    (hroom : fin < dst + 2 * classSize cls) : ∃ ps dst', Along op (walkOnce op fin) fin cls dst ps dst' := by
  have hend : pageEnd dst cls = dst + classSize cls := mod_eq_of_lt (by omega)
  by_cases hfit : pageEnd dst cls ≤ fin
  · rw [hend] at hfit
    refine ⟨[⟨dst, cls⟩], dst + classSize cls, ⟨rfl, rfl⟩, ?_, hfit, Nat.dvd_add hplace (dvd_refl _), by omega,
      fun σ next => ?_⟩
    · intro p hp
      obtain rfl := mem_singleton.mp hp
      exact ⟨hplace, le_rfl⟩
    · rw [walkOnce, if_pos (hend ▸ hfit), sweep, bind_assoc, bind_assoc, hend]
      refine congrArg _ (funext fun r => ?_)
      by_cases hr : r.2 ≠ .ok
      · rw [if_pos hr, ok_bind, ok_bind, if_pos hr]
      · rw [if_neg hr, ok_bind, if_neg hr, sweep, ok_bind, if_neg (not_not.mpr rfl)]
  · refine ⟨[], dst, rfl, by simp, hdst, hplace, by omega, fun σ next => ?_⟩
    rw [walkOnce, if_neg hfit, sweep, ok_bind, ok_bind]

lemma walkDown_end {along : ℕ → ℕ → Mem → Except Exit Walk} (h : ¬dst < fin) (k : ℕ) (σ : Mem) :
    walkDown fin along k dst σ = .ok (σ, .ok) := by
  cases k with
  | zero => rfl
  | succ k => rw [walkDown, if_neg h]

lemma Along.walkDown {along : ℕ → ℕ → Mem → Except Exit Walk} {ps qs : List Piece} {dst' : ℕ}
    (h : Along op along fin cls dst ps dst') (hlt : dst < fin)
    (hrest : ∀ σ, walkDown fin along cls dst' σ = sweep .ok (onPiece op) qs σ) (σ : Mem) :
    walkDown fin along (cls + 1) dst σ = sweep .ok (onPiece op) (ps ++ qs) σ := by
  rw [PmapModel.walkDown, if_pos hlt, h.walk σ fun dst σ => PmapModel.walkDown fin along cls dst σ, sweep_append]
  refine congrArg _ (funext fun r => ?_)
  rw [hrest]

/-- **The way down**: what is left is used up. `P` is what a class needs beside a place of its own; it
has it once the pieces of the class above no longer fit. -/
theorem exists_down (along : ℕ → ℕ → Mem → Except Exit Walk) {P : ℕ → ℕ → Prop} (hfin : classSize 0 ∣ fin)
    (hP : ∀ cls dst, fin < dst + classSize (cls + 1) → P cls dst)
    (halong : ∀ cls' ≤ cls, ∀ dst, dst ≤ fin → classSize cls' ∣ dst → P cls' dst →
      ∃ ps dst', Along op along fin cls' dst ps dst')
    (hdst : dst ≤ fin) (hplace : classSize cls ∣ dst) (hp : P cls dst) :
    ∃ ps, Tiled dst fin ps ∧ (∀ p ∈ ps, Piece.Aligned p ∧ p.cls ≤ cls) ∧
      ∀ σ, walkDown fin along (cls + 1) dst σ = sweep .ok (onPiece op) ps σ := by
  induction cls generalizing dst with
  | zero =>
    rcases lt_or_ge dst fin with hlt | hge
    swap
    · obtain rfl : dst = fin := by omega
      exact ⟨[], rfl, nofun, walkDown_end (lt_irrefl _) _⟩
    obtain ⟨ps, dst', h⟩ := halong 0 le_rfl dst hdst hplace hp
    have hend : dst' = fin := by
      obtain ⟨a, ha⟩ := h.place
      obtain ⟨b, hb⟩ := hfin
      have h1 := h.le
      have h2 := h.stop
      rw [ha, hb] at h1 h2
      rw [← mul_succ] at h2
      have h3 := le_of_mul_le_mul_left h1 (classSize_pos 0)
      have h4 := lt_of_mul_lt_mul_left h2
      rw [ha, hb, show a = b by omega]
    refine ⟨ps ++ [], ?_, ?_, h.walkDown hlt fun σ => rfl⟩
    · rw [append_nil, ← hend]
      exact h.tiled
    · rw [append_nil]
      exact h.pieces
  | succ cls ih =>
    rcases lt_or_ge dst fin with hlt | hge
    swap
    · obtain rfl : dst = fin := by omega
      exact ⟨[], rfl, nofun, walkDown_end (lt_irrefl _) _⟩
    obtain ⟨ps, dst', h⟩ := halong (cls + 1) le_rfl dst hdst hplace hp
    obtain ⟨qs, htiled, hpieces, hwalk⟩ := ih (fun cls' hle => halong cls' (by omega)) h.le
      ((classSize_dvd (le_succ cls)).trans h.place) (hP cls dst' h.stop)
    refine ⟨ps ++ qs, h.tiled.append htiled, fun p hmem => ?_, h.walkDown hlt hwalk⟩
    rcases mem_append.mp hmem with hmem | hmem
    · exact h.pieces p hmem
    · exact (hpieces p hmem).imp_right fun h => by omega

lemma commonClass_spec (addr1 addr2 k cls : ℕ) : commonClass addr1 addr2 k cls ≤ cls + k ∧
      ∀ j, cls ≤ j → j < commonClass addr1 addr2 k cls → (addr1 ^^^ addr2).testBit (j + classBase) = false := by
  induction k generalizing cls with
  | zero => exact ⟨le_rfl, fun j h1 h2 => absurd h2 (not_lt.mpr h1)⟩
  | succ k ih =>
    rw [commonClass]
    split_ifs with hbit
    · exact ⟨le_add_right _ _, fun j h1 h2 => absurd h2 (not_lt.mpr h1)⟩
    · obtain ⟨hle, hbits⟩ := ih (cls + 1)
      refine ⟨by omega, fun j h1 h2 => ?_⟩
      rcases eq_or_lt_of_le h1 with rfl | h1
      · simpa using hbit
      · exact hbits j h1 h2

lemma modEq_addrCommonClass {src : ℕ} (hs : classSize 0 ∣ src) (hd : classSize 0 ∣ dst) :
    src ≡ dst [MOD classSize (addrCommonClass src dst)] := by
  have hlow : ∀ a, classSize 0 ∣ a → ∀ i < classBase, a.testBit i = false := by
    rintro a ⟨q, rfl⟩ i hi
    rw [classSize, zero_add, testBit_two_pow_mul]
    simp [not_le.mpr hi]
  refine eq_of_testBit_eq fun i => ?_
  unfold classSize
  rw [testBit_mod_two_pow, testBit_mod_two_pow]
  by_cases hi : i < addrCommonClass src dst + classBase
  swap
  · simp [hi]
  rcases lt_or_ge i classBase with hlt | hge
  · rw [hlow src hs i hlt, hlow dst hd i hlt]
  · have hbit := (commonClass_spec src dst maxClass 0).2 (i - classBase) (zero_le _) (by
      rw [← addrCommonClass]; omega)
    rw [Nat.sub_add_cancel hge, Nat.testBit_xor] at hbit
    rw [bne_eq_false_iff_eq.mp hbit]

def sourceOf (dst src x : ℕ) : ℕ := x + src - dst

/-- What `map_region` may pass to `do_map_region_one_page`, from `dst` to `src`. -/
structure Passable (dst src : ℕ) (p : Piece) : Prop where
  target : Piece.Aligned p
  source : classSize p.cls ∣ sourceOf dst src p.addr
  apart : src ≠ dst → classSize p.cls ≤ absDiff p.addr (sourceOf dst src p.addr)

lemma passable_of_aligned {src : ℕ} {p : Piece} (hs : classSize 0 ∣ src) (hd : classSize 0 ∣ dst)
    (hle : dst ≤ p.addr) (hp : Piece.Aligned p) (hcls : p.cls ≤ addrCommonClass src dst) :
    Passable dst src p := by
  have hmod : src ≡ dst [MOD classSize p.cls] := (modEq_addrCommonClass hs hd).of_dvd (classSize_dvd hcls)
  refine ⟨hp, ?_, fun hne => ?_⟩
  · unfold sourceOf
    rw [← modEq_zero_iff_dvd]
    have h1 : p.addr + src ≡ dst [MOD classSize p.cls] := by
      have := (modEq_zero_iff_dvd.mpr hp).add hmod
      rwa [zero_add] at this
    exact (modEq_iff_dvd' (by omega)).mp h1.symm |> modEq_zero_iff_dvd.mpr
  · unfold absDiff sourceOf
    rcases lt_or_ge src dst with hlt | hge
    · have hdvd := (modEq_iff_dvd' hlt.le).mp hmod
      have := le_of_dvd (by omega) hdvd
      split_ifs <;> omega
    · have hdvd := (modEq_iff_dvd' hge).mp hmod.symm
      have := le_of_dvd (by omega) hdvd
      split_ifs <;> omega

/-- The loops of `map_region` do what they do for a list of pieces, one behind the other. -/
lemma mapLoops_tiles (C : Setting) (dspace : ℕ) (sspace : Option ℕ) (flags : UInt32) {dst src size : ℕ}
    (hd : classSize 0 ∣ dst) (hs : classSize 0 ∣ src) (hsize : classSize 0 ∣ size) (hpos : 0 < size)
    (hdwrap : dst + 3 * size < 2 ^ 64) (hswrap : src + 3 * size < 2 ^ 64) :
    ∃ ps, Tiled dst (dst + size) ps ∧ (∀ p ∈ ps, Passable dst src p ∧ p.cls ≤ maxClass) ∧
      ∀ σ, mapLoops C dspace dst sspace src size flags σ =
        sweep .ok (fun p => doMapRegionOnePage C dspace p.addr sspace (sourceOf dst src p.addr) p.cls flags) ps σ := by
  have hfin : (dst + size) % 2 ^ 64 = dst + size := mod_eq_of_lt (by omega)
  have hmin : classSize 0 ≤ size := le_of_dvd hpos hsize
  set op := fun cls at' σ =>
    doMapRegionOnePage C dspace at' sspace ((at' + (src + 2 ^ 64 - dst)) % 2 ^ 64) cls flags σ with hop
  obtain ⟨ps, cls', dst', -, hsmall, hup⟩ := exists_up op (addrCommonClass src dst) (L := size) (show dst + size + 2 * size < 2 ^ 64 by omega) le_rfl (by omega) (le_add_right _ _) hd
  have htop : cls' ≤ addrCommonClass src dst := by
    have := hup.top
    omega
  obtain ⟨qs, htiled, hpieces, hdown⟩ := exists_down
    (fun cls dst' σ => walkAlong op (dst + size) cls walkFuel dst' σ) (P := fun _ _ => True)
    (Nat.dvd_add hd hsize) (fun _ _ _ => trivial) (fun c hc x hx hplace _ => exists_walkAlong (by
      have := le_of_dvd (classSize_pos _) (classSize_dvd hc)
      omega) hx hplace (by
      have := mul_le_mul_left walkFuel (classSize_zero_le c)
      have hfuel : walkFuel * classSize 0 = 2 ^ 64 + 2 ^ 12 := by decide
      omega)) hup.le hup.place trivial
  have htiles : Tiled dst (dst + size) (ps ++ qs) := hup.tiled.append htiled
  have hall : ∀ p ∈ ps ++ qs, Piece.Aligned p ∧ p.cls ≤ addrCommonClass src dst := by
    intro p hp
    rcases mem_append.mp hp with hp | hp
    · exact (hup.pieces p hp).imp_right fun h => h.trans htop
    · exact (hpieces p hp).imp_right fun h => h.trans htop
  refine ⟨ps ++ qs, htiles, fun p hp => ⟨?_, ?_⟩, fun σ => ?_⟩
  · exact passable_of_aligned hs hd (Tiles.bounds htiles hp).1 (hall p hp).1 (hall p hp).2
  · exact (hall p hp).2.trans ((commonClass_spec src dst maxClass 0).1.trans (zero_add maxClass).le)
  · -- the source moves along without a wrap
    have hsrc : ∀ p ∈ ps ++ qs, onPiece op p =
        doMapRegionOnePage C dspace p.addr sspace (sourceOf dst src p.addr) p.cls flags := by
      intro p hp
      obtain ⟨h1, h2⟩ := Tiles.bounds htiles hp
      have hmod : (p.addr + (src + 2 ^ 64 - dst)) % 2 ^ 64 = sourceOf dst src p.addr := by
        unfold sourceOf
        omega
      rw [← hmod]
      rfl
    rw [← sweep_congr hsrc, sweep_append]
    unfold mapLoops
    rw [hfin]
    refine (hup.walk σ fun cls dst' σ => walkDown (dst + size) (walkAlong op (dst + size) · walkFuel) (cls + 1)
      dst' σ).trans ?_
    refine congrArg _ (funext fun r => ?_)
    rw [hdown]

/-- **`map_region` tiles its range.** The loops do what they do for a list of pieces: each of them may
be passed, they follow each other from `dst` to `dst + size`, and every address of the region lies in
one of them. -/
theorem map_region_tiles (C : Setting) (dspace : ℕ) (sspace : Option ℕ) (flags : UInt32) {dst src size : ℕ}
    (hd : classSize 0 ∣ dst) (hs : classSize 0 ∣ src) (hsize : classSize 0 ∣ size) (hpos : 0 < size)
    (hdwrap : dst + 3 * size < 2 ^ 64) (hswrap : src + 3 * size < 2 ^ 64) :
    ∃ ps, Tiled dst (dst + size) ps ∧ (∀ x, covering x ps = if dst ≤ x ∧ x < dst + size then 1 else 0) ∧
      (∀ p ∈ ps, Passable dst src p) ∧
      ∀ σ, mapLoops C dspace dst sspace src size flags σ =
        sweep .ok (fun p => doMapRegionOnePage C dspace p.addr sspace (sourceOf dst src p.addr) p.cls flags) ps σ := by
  obtain ⟨ps, htiled, hpass, hloop⟩ := mapLoops_tiles C dspace sspace flags hd hs hsize hpos hdwrap hswrap
  exact ⟨ps, htiled, htiled.covering, fun p hp => (hpass p hp).1, hloop⟩

theorem map_region_tiles_sample :
    ∃ ps, Tiled 0x1000 (0x1000 + 0x5000) ps ∧
      (∀ x, covering x ps = if 0x1000 ≤ x ∧ x < 0x1000 + 0x5000 then 1 else 0) ∧
      (∀ p ∈ ps, Passable 0x1000 0x9000 p) ∧
      ∀ σ, mapLoops ⟨[], [], none⟩ 1 0x1000 (some 2) 0x9000 0x5000 0 σ =
        sweep .ok (fun p => doMapRegionOnePage ⟨[], [], none⟩ 1 p.addr (some 2) (sourceOf 0x1000 0x9000 p.addr)
          p.cls 0) ps σ :=
  map_region_tiles ⟨[], [], none⟩ 1 (some 2) 0 (show classSize 0 ∣ 0x1000 by decide)
    (show classSize 0 ∣ 0x9000 by decide) (show classSize 0 ∣ 0x5000 by decide) (by decide) (by decide) (by decide)

lemma roundDown_le (a : ℕ) : roundDown a ≤ a := sub_le _ _

lemma le_roundUp {a : ℕ} (h : a < 2 ^ 60) : a ≤ roundUp a := by
  unfold roundUp roundDown classSize classBase
  omega

lemma unmapOne_res {dspace : ℕ} {r : Mem × Res} (h : unmapOne dspace cls dst σ = .ok r) : r.2 = .ok := by
  obtain ⟨σ', -, h⟩ := bind_eq_ok.mp h
  cases h
  rfl

lemma walkUp_res (hop : ∀ {cls dst σ r}, op cls dst σ = .ok r → r.2 = .ok) {w : Walk}
    (h : walkUp op fin k cls dst σ = .ok w) : w.res = .ok := by
  induction k generalizing cls dst σ with
  | zero =>
    cases h
    rfl
  | succ k ih =>
    rw [walkUp] at h
    split_ifs at h
    · obtain ⟨r, hr, h⟩ := bind_eq_ok.mp h
      rw [if_neg (not_not.mpr (hop hr))] at h
      exact ih h
    · exact ih h
    · cases h
      rfl

def unmapPieces (dspace : ℕ) (ps : List Piece) (σ : Mem) : Except Exit Mem :=
  ps.foldlM (fun σ p => lift (unmapPage dspace p.addr p.cls σ)) σ

lemma sweep_unmapOne (dspace : ℕ) (ps : List Piece) (σ : Mem) :
    (sweep .ok (onPiece (unmapOne dspace)) ps σ >>= fun r => .ok r.1) = unmapPieces dspace ps σ := by
  induction ps generalizing σ with
  | nil => rfl
  | cons p ps ih =>
    rw [sweep, unmapPieces, foldlM_cons, bind_assoc, onPiece, unmapOne, bind_assoc]
    refine congrArg _ (funext fun σ' => ?_)
    exact ih σ'

lemma unmapLoops_tiles (dspace : ℕ) (hd : classSize 0 ∣ dst) (hf : classSize 0 ∣ fin) (hle : dst ≤ fin)
    (hfin : fin ≤ classSize maxClass) :
    ∃ ps, Tiled dst fin ps ∧ (∀ p ∈ ps, Piece.Aligned p) ∧
      ∀ σ, unmapLoops dspace dst fin σ = unmapPieces dspace ps σ := by
  have hmax : classSize maxClass = 2 ^ 60 := by decide
  obtain ⟨ps, cls', dst', -, hsmall, hup⟩ := exists_up (unmapOne dspace) maxClass (L := 2 ^ 60)
    (show fin + 2 * 2 ^ 60 < 2 ^ 64 by omega) (show fin ≤ dst + 2 ^ 60 by omega)
    (show classSize 0 ≤ 2 * 2 ^ 60 by decide) hle hd
  have hcls : cls' ≤ maxClass := by
    have := hup.top
    omega
  -- there is no room for two pieces of the class at which the first loop stops
  have hroom : fin < dst' + 2 * classSize cls' := by
    rcases hup.stop with rfl | hlt
    · rw [zero_add]
      omega
    · omega
  obtain ⟨qs, htiled, hpieces, hdown⟩ := exists_down (walkOnce (unmapOne dspace) fin)
    (P := fun cls dst => fin < dst + 2 * classSize cls) hf (fun cls dst h => by rwa [classSize_double] at h)
    (fun c hc x hx hplace hroom => exists_walkOnce (by
      have := le_of_dvd (classSize_pos _) (classSize_dvd (hc.trans hcls))
      omega) hx hplace hroom) hup.le hup.place hroom
  refine ⟨ps ++ qs, hup.tiled.append htiled, fun p hp => ?_, fun σ => ?_⟩
  · rcases mem_append.mp hp with hp | hp
    · exact (hup.pieces p hp).1
    · exact (hpieces p hp).1
  · rw [← sweep_unmapOne, sweep_append, bind_assoc]
    have hwalk := hup.walk σ fun cls dst σ => walkDown fin (walkOnce (unmapOne dspace) fin) (cls + 1) dst σ
    simp only [hdown] at hwalk
    rw [← bind_assoc, ← hwalk, bind_assoc, unmapLoops]
    cases hw : walkUp (unmapOne dspace) fin maxClass 0 dst σ with
    | error e => rfl
    | ok w => rw [ok_bind, ok_bind, if_neg (not_not.mpr (walkUp_res unmapOne_res hw))]

def attachPieces (type : PageState) (ps : List Piece) (s : Phys) : Except Failure Phys :=
  ps.foldlM (fun s p => do
    let r ← pageLookup ensureFreeDesc type s [] p.addr p.cls
    .ok r.1) s

lemma growClass_ok (iter : ℕ) {size t : ℕ} (hsize : size < classSize (t + fuel)) :
    ∃ t', growClass iter size (fuel + 1) t = .ok t' := by
  induction fuel generalizing t with
  | zero =>
    exact ⟨t, by rw [growClass, if_neg fun h => absurd h.2 (not_le.mpr hsize)]⟩
  | succ fuel ih =>
    rw [growClass]
    split_ifs
    · exact ih (by rwa [add_right_comm])
    · exact ⟨t, rfl⟩

lemma attachLoop_tiles {iter t : ℕ} (ht : t ≤ 1) (hi : iter % classSize 0 = 0) (hf : fin % classSize 0 = 0)
    (hfin : fin ≤ classSize maxClass) (hfuel : fin ≤ iter + fuel * classSize 0) :
    ∃ ps, Tiled iter (max iter fin) ps ∧ (∀ p ∈ ps, Piece.Aligned p) ∧
      ∀ type s, attachLoop type fin fuel iter t s = attachPieces type ps s := by
  induction fuel generalizing iter t with
  | zero =>
    exact ⟨[], (max_eq_left hfuel).symm, nofun, fun type s => rfl⟩
  | succ fuel ih =>
    rcases lt_or_ge iter fin with hlt | hge
    swap
    · refine ⟨[], (max_eq_left hge).symm, nofun, fun type s => ?_⟩
      rw [attachLoop, if_neg (not_lt.mpr hge)]
      rfl
    have hbig : fin - iter < classSize (t + (51 - t)) := by
      rw [show t + (51 - t) = 51 by omega]
      have : classSize maxClass < classSize 51 := by decide
      omega
    obtain ⟨t', hgrow⟩ := growClass_ok iter hbig
    rw [show 51 - t + 1 = 52 - t by omega] at hgrow
    obtain ⟨c, rfl, hplace, hfit⟩ := growClass_piece ht hi hf hlt hgrow
    have hmin := classSize_zero_le c
    obtain ⟨ps, htiled, haligned, hloop⟩ := ih (le_refl 1) (aligned_add hi c) (by
      rw [succ_mul] at hfuel
      omega)
    refine ⟨⟨iter, c⟩ :: ps, ⟨rfl, ?_⟩, ?_, fun type s => ?_⟩
    · rw [max_eq_right hfit] at htiled
      rw [max_eq_right hlt.le]
      exact htiled
    · intro p hp
      rcases mem_cons.mp hp with rfl | hp
      · exact dvd_of_mod_eq_zero hplace
      · exact haligned p hp
    · rw [attachLoop, if_pos hlt, hgrow, ok_bind, if_neg (Nat.succ_ne_zero c), Nat.add_sub_cancel, attachPieces,
        foldlM_cons, bind_assoc]
      refine congrArg _ (funext fun r => ?_)
      exact hloop type r.1

/-- **`unmap_region` and `attach_region` tile their ranges**, rounded outwards to pages. -/
theorem regions_tile :
    (∀ dspace dst size, dst < 2 ^ 60 → dst + size < 2 ^ 60 →
      ∃ ps, Tiled (roundDown dst) (roundUp (dst + size)) ps ∧ (∀ p ∈ ps, Piece.Aligned p) ∧
        (∀ x, covering x ps = if roundDown dst ≤ x ∧ x < roundUp (dst + size) then 1 else 0) ∧
        ∀ σ, unmapRegion dspace dst size σ = unmapPieces dspace ps σ) ∧
    ∀ start fin : UInt64, start.toNat < 2 ^ 60 → fin.toNat < 2 ^ 60 →
      ∃ ps, Tiled (roundDown start.toNat) (max (roundDown start.toNat) (roundUp fin.toNat)) ps ∧
        (∀ p ∈ ps, Piece.Aligned p) ∧
        (∀ x, covering x ps = if roundDown start.toNat ≤ x ∧ x < roundUp fin.toNat then 1 else 0) ∧
        ∀ type s, attachRegion start fin type s = attachPieces type ps s := by
  have hup : ∀ a, a < 2 ^ 60 → roundUp a ≤ classSize maxClass := fun a h => roundUp_le h.le
  refine ⟨fun dspace dst size _ hend => ?_, fun start fin hstart hfin => ?_⟩
  · have hle : roundDown dst ≤ roundUp (dst + size) :=
      (roundDown_le dst).trans ((le_add_right _ _).trans (le_roundUp hend))
    obtain ⟨ps, htiled, haligned, hloop⟩ := unmapLoops_tiles dspace
      (dvd_of_mod_eq_zero (roundDown_aligned dst)) (dvd_of_mod_eq_zero (roundUp_aligned (dst + size))) hle
      (hup _ hend)
    refine ⟨ps, htiled, haligned, htiled.covering, fun σ => ?_⟩
    rw [unmapRegion, mod_eq_of_lt (by omega)]
    exact hloop σ
  · have hfuel : roundUp fin.toNat ≤ roundDown start.toNat +
        (roundUp fin.toNat - roundDown start.toNat) / classSize 0 * classSize 0 := by
      have h1 := roundDown_aligned start.toNat
      have h2 := roundUp_aligned fin.toNat
      unfold classSize classBase at h1 h2 ⊢
      omega
    obtain ⟨ps, htiled, haligned, hloop⟩ := attachLoop_tiles (zero_le 1) (roundDown_aligned start.toNat)
      (roundUp_aligned fin.toNat) (hup _ hfin) hfuel
    refine ⟨ps, htiled, haligned, fun x => ?_, fun type s => hloop type s⟩
    exact (htiled.covering x).trans (if_congr (by omega) rfl rfl)

theorem regions_tile_sample :
    ∃ ps, Tiled (roundDown 0x1800) (roundUp (0x1800 + 0x5000)) ps ∧ (∀ p ∈ ps, Piece.Aligned p) ∧
      (∀ x, covering x ps = if roundDown 0x1800 ≤ x ∧ x < roundUp (0x1800 + 0x5000) then 1 else 0) ∧
      ∀ σ, unmapRegion 1 0x1800 0x5000 σ = unmapPieces 1 ps σ :=
  regions_tile.1 1 0x1800 0x5000 (by decide) (by decide)

end Jos.RegionTiles
