import Jos.KernHeap
import Jos.VirtTree

/-!
`user_mem_check`: whether an environment may use a range of its memory.

The pages of the range are looked up one after the other. The loop compares addresses of 64 bits,
and it need not come to an end; a bound on its rounds is given to it.
-/

namespace Jos.UserMem

open KernHeap PmapModel Nat Option

structure EnvTree where
  root : VTree
  ok : root.Ok 0
  ne_null : root ≠ .null

def maxUserReadable : UInt64 := kernHeapStart

/-- The field `state` -/
def stateWord : VState → UInt32
  | .intermediate => 0x200000
  | .mapping prot => prot ||| 0x100000

/-- `PAGE_PROT` -/
def pageProt (perm : UInt32) : UInt32 := perm &&& ~~~nodeTypeMask

/-- `page_lookup_virtual` with `LOOKUP_PRESERVE`: the smallest node there is at the address. -/
def smallestNode (root : VTree) (addr : ℕ) : VTree :=
  root.sub (lookupTree .preserve addr 0 maxClass root).2

def Passes (perm : UInt32) : VTree → Prop
  | .null => False
  | .node st phy _ _ => phy ≠ none ∧ stateWord st &&& pageProt perm = pageProt perm

instance (perm : UInt32) : DecidablePred (Passes perm) := fun t => by
  cases t <;> unfold Passes <;> infer_instance

/-- The loop, with the address where it stops, and whether it is at a page that fails -/
def checkLoop (root : VTree) (perm : UInt32) (fin : UInt64) : ℕ → UInt64 → Option (UInt64 × Bool)
  | 0, _ => none
  | rounds + 1, current =>
    if current < fin then
      if Passes perm (smallestNode root current.toNat) then
        checkLoop root perm fin rounds (current + pageSize)
      else some (current, false)
    else some (current, true)

def eFault : ℤ := 7

/-- What is returned, and what `user_mem_check_addr` is set to, if the loop ends in so many rounds -/
def userMemCheck (rounds : ℕ) (env : EnvTree) (va len : UInt64) (perm : UInt32) :
    Option (ℤ × Option UInt64) := do
  let fin := va + len
  let (current, passed) ← checkLoop env.root perm fin rounds (roundDown va)
  if !passed then some (-eFault, some (max va current))
  else if maxUserReadable < fin then some (-eFault, some (max maxUserReadable current))
  else some (0, none)

def Returns (env : EnvTree) (va len : UInt64) (perm : UInt32) (ret : ℤ) : Prop :=
  ∃ rounds addr, userMemCheck rounds env va len perm = some (ret, addr)

def MappedAt (root : VTree) (a : ℕ) (prot : UInt32) : Prop :=
  ∃ w p l r, w <+: wayTo a 0 maxClass ∧ root.sub w = .node (.mapping prot) (some p) l r

def Usable (env : EnvTree) (perm : UInt32) (a : ℕ) : Prop :=
  a < maxUserReadable.toNat ∧ ∃ prot, MappedAt env.root a prot ∧ pageProt perm &&& prot = pageProt perm

/-- The check answers for the bytes of the range. -/
def Exact (env : EnvTree) (va len : UInt64) (perm : UInt32) : Prop :=
  ((∀ a, va.toNat ≤ a → a < va.toNat + len.toNat → Usable env perm a) ∧ Returns env va len perm 0) ∨
  ((¬∀ a, va.toNat ≤ a → a < va.toNat + len.toNat → Usable env perm a) ∧
    Returns env va len perm (-eFault))

lemma wayTo_congr {a b : ℕ} (h : a / 0x1000 = b / 0x1000) (cls k : ℕ) : wayTo a cls k = wayTo b cls k := by
  induction k with
  | zero => rfl
  | succ k ih =>
    have hbit : a.testBit (cls + k + classBase) = b.testBit (cls + k + classBase) := by
      have hdiv : ∀ c : ℕ, c.testBit (cls + k + classBase) = (c / 2 ^ 12).testBit (cls + k) := fun c => by
        rw [testBit_div_two_pow]
        rfl
      rw [hdiv, hdiv, show (2 : ℕ) ^ 12 = 0x1000 from rfl, h]
    rw [wayTo, wayTo, hbit, ih]

lemma stateWord_and (prot perm : UInt32) : stateWord (.mapping prot) &&& pageProt perm = pageProt perm &&& prot := by
  have htype : pageProt perm &&& 0x100000 = 0 := by
    rw [pageProt, UInt32.and_assoc, show ~~~nodeTypeMask &&& 0x100000 = 0 from by decide, UInt32.and_zero]
  rw [UInt32.and_comm, stateWord, Jos.CArray.and_or_disjoint htype]

lemma passes_iff (env : EnvTree) (perm : UInt32) (a : ℕ) : Passes perm (smallestNode env.root a) ↔
      ∃ prot, MappedAt env.root a prot ∧ pageProt perm &&& prot = pageProt perm := by
  obtain ⟨w, hw, hpre, hsub, -⟩ := lookupTree_preserve a 0 (k := maxClass) env.ne_null
  rw [smallestNode, hw]
  constructor
  · intro h
    have hok := env.ok.sub w
    cases hnode : env.root.sub w with
    | null => exact absurd hnode hsub
    | node st phy l r =>
      rw [hnode] at h hok
      obtain ⟨hphy, hbits⟩ := h
      obtain ⟨p, rfl⟩ := ne_none_iff_exists'.mp hphy
      cases st with
      | intermediate => exact absurd rfl (hok.2.1 p rfl).1
      | mapping prot =>
        rw [stateWord_and] at hbits
        exact ⟨prot, ⟨w, p, l, r, hpre, hnode⟩, hbits⟩
  · rintro ⟨prot, ⟨w', p, l, r, hpre', hnode⟩, hbits⟩
    have hsame : w = w' := hw.symm.trans (lookupTree_preserve_mapping env.ok hpre' (by rw [hnode]; rfl))
    rw [hsame, hnode]
    exact ⟨nofun, (stateWord_and prot perm).trans hbits⟩

lemma smallestNode_congr {a b : ℕ} (env : EnvTree) (perm : UInt32) (h : a / 0x1000 = b / 0x1000) :
    Passes perm (smallestNode env.root a) ↔ Passes perm (smallestNode env.root b) := by
  rw [passes_iff, passes_iff]
  unfold MappedAt
  rw [wayTo_congr h]

def PageOk (env : EnvTree) (perm : UInt32) (a : ℕ) : Prop := Passes perm (smallestNode env.root a)

variable {env : EnvTree} {perm : UInt32} {fin c cur : UInt64} {n : ℕ} {r : UInt64 × Bool}

section

variable (hc : c.toNat % 0x1000 = 0)
include hc

lemma toNat_next (hlt : c < fin) (hfin : fin.toNat ≤ 2 ^ 64 - 0x1000) : (c + pageSize).toNat = c.toNat + 0x1000 := by
  rw [UInt64.lt_iff_toNat_lt] at hlt
  rw [UInt64.toNat_add, toNat_pageSize]
  exact mod_eq_of_lt (by omega)

lemma aligned_next : (c + pageSize).toNat % 0x1000 = 0 := by
  rw [UInt64.toNat_add, toNat_pageSize]
  omega

lemma checkLoop_true (h : checkLoop env.root perm fin n c = some (cur, true)) : fin.toNat ≤ 2 ^ 64 - 0x1000 ∧
      ∀ k, c.toNat + 0x1000 * k < fin.toNat → PageOk env perm (c.toNat + 0x1000 * k) := by
  induction n generalizing c with
  | zero => cases h
  | succ n ih =>
    rw [checkLoop] at h
    split_ifs at h with hlt hpass
    · obtain ⟨hfin, hall⟩ := ih (aligned_next hc) h
      refine ⟨hfin, fun k hk => ?_⟩
      cases k with
      | zero => exact hpass
      | succ k =>
        rw [toNat_next hc hlt hfin] at hall
        rw [mul_succ, add_comm _ 0x1000, ← add_assoc] at hk ⊢
        exact hall k hk
    · cases h
    · have hmax := c.toNat_lt
      rw [UInt64.lt_iff_toNat_lt] at hlt
      exact ⟨by omega, fun k hk => absurd hk (by omega)⟩

lemma checkLoop_false (h : checkLoop env.root perm fin n c = some (cur, false)) :
    (∃ a < 2 ^ 64, ¬PageOk env perm a) ∧ (fin.toNat ≤ 2 ^ 64 - 0x1000 →
      ∃ k, c.toNat + 0x1000 * k < fin.toNat ∧ ¬PageOk env perm (c.toNat + 0x1000 * k)) := by
  induction n generalizing c with
  | zero => cases h
  | succ n ih =>
    rw [checkLoop] at h
    split_ifs at h with hlt hpass
    · obtain ⟨hbad, hfirst⟩ := ih (aligned_next hc) h
      refine ⟨hbad, fun hfin => ?_⟩
      obtain ⟨k, hk, hfail⟩ := hfirst hfin
      rw [toNat_next hc hlt hfin, add_assoc, add_comm 0x1000, ← mul_succ] at hk hfail
      exact ⟨k + 1, hk, hfail⟩
    · exact ⟨⟨c.toNat, c.toNat_lt, hpass⟩, fun _ => ⟨0, UInt64.lt_iff_toNat_lt.mp hlt, hpass⟩⟩
    · cases h

lemma checkLoop_ends (hfin : fin.toNat ≤ 2 ^ 64 - 0x1000) : ∃ n r, checkLoop env.root perm fin n c = some r := by
  -- the distance to the end gets smaller
  induction hd : fin.toNat - c.toNat using Nat.strongRecOn generalizing c with
  | ind d ih =>
    by_cases hlt : c < fin
    · by_cases hpass : Passes perm (smallestNode env.root c.toNat)
      · have hnext := toNat_next hc hlt hfin
        rw [UInt64.lt_iff_toNat_lt] at hlt
        obtain ⟨n, r, hn⟩ := ih _ (by omega) (aligned_next hc) rfl
        refine ⟨n + 1, r, ?_⟩
        rw [checkLoop, if_pos (UInt64.lt_iff_toNat_lt.mpr hlt), if_pos hpass, hn]
      · exact ⟨1, _, by rw [checkLoop, if_pos hlt, if_neg hpass]⟩
    · exact ⟨1, _, by rw [checkLoop, if_neg hlt]⟩

end

lemma checkLoop_stops (d : ℕ) (hbad : ¬PageOk env perm ((c.toNat + 0x1000 * d) % 2 ^ 64)) :
    ∃ n r, checkLoop env.root perm fin n c = some r := by
  induction d generalizing c with
  | zero =>
    rw [mul_zero, add_zero, mod_eq_of_lt c.toNat_lt, PageOk] at hbad
    by_cases hlt : c < fin
    · exact ⟨1, _, by rw [checkLoop, if_pos hlt, if_neg hbad]⟩
    · exact ⟨1, _, by rw [checkLoop, if_neg hlt]⟩
  | succ d ih =>
    have hnext : ((c + pageSize).toNat + 0x1000 * d) % 2 ^ 64 = (c.toNat + 0x1000 * (d + 1)) % 2 ^ 64 := by
      rw [UInt64.toNat_add, toNat_pageSize]
      omega
    by_cases hlt : c < fin
    · by_cases hpass : Passes perm (smallestNode env.root c.toNat)
      · obtain ⟨n, r, hn⟩ := ih (c := c + pageSize) (by rwa [hnext])
        exact ⟨n + 1, r, by rw [checkLoop, if_pos hlt, if_pos hpass, hn]⟩
      · exact ⟨1, _, by rw [checkLoop, if_pos hlt, if_neg hpass]⟩
    · exact ⟨1, _, by rw [checkLoop, if_neg hlt]⟩

variable {va len : UInt64}

lemma aligned_roundDown (a : UInt64) : (roundDown a).toNat % 0x1000 = 0 := by
  rw [toNat_roundDown]
  omega

def LoopEnds (env : EnvTree) (va len : UInt64) (perm : UInt32) (passed : Bool) : Prop :=
  ∃ n cur, checkLoop env.root perm (va + len) n (roundDown va) = some (cur, passed)

lemma returns_iff (ret : ℤ) : Returns env va len perm ret ↔ (LoopEnds env va len perm false ∧ ret = -eFault) ∨
      (LoopEnds env va len perm true ∧ ret = if maxUserReadable < va + len then -eFault else 0) := by
  constructor
  · rintro ⟨n, addr, h⟩
    obtain ⟨⟨cur, passed⟩, hloop, h⟩ := bind_eq_some_iff.mp h
    cases passed with
    | false =>
      cases h
      exact .inl ⟨⟨n, cur, hloop⟩, rfl⟩
    | true =>
      refine .inr ⟨⟨n, cur, hloop⟩, ?_⟩
      split_ifs at h ⊢ <;> cases h <;> rfl
  · rintro (⟨⟨n, cur, hloop⟩, rfl⟩ | ⟨⟨n, cur, hloop⟩, rfl⟩)
    · exact ⟨n, _, bind_eq_some_iff.mpr ⟨_, hloop, rfl⟩⟩
    · by_cases hmax : maxUserReadable < va + len
      · rw [if_pos hmax]
        refine ⟨n, some (max maxUserReadable cur), bind_eq_some_iff.mpr ⟨_, hloop, ?_⟩⟩
        simp [hmax]
      · rw [if_neg hmax]
        refine ⟨n, none, bind_eq_some_iff.mpr ⟨_, hloop, ?_⟩⟩
        simp [hmax]

def PagesOk (env : EnvTree) (va len : UInt64) (perm : UInt32) : Prop :=
  ∀ k, (roundDown va).toNat + 0x1000 * k < (va + len).toNat →
    PageOk env perm ((roundDown va).toNat + 0x1000 * k)

/-- The range does not reach into the last page there is, or there is a page that fails. -/
def Terminates (env : EnvTree) (va len : UInt64) (perm : UInt32) : Prop :=
  (va + len).toNat ≤ 2 ^ 64 - 0x1000 ∨ ∃ a < 2 ^ 64, ¬PageOk env perm a

lemma loopEnds_true_iff : LoopEnds env va len perm true ↔
    (va + len).toNat ≤ 2 ^ 64 - 0x1000 ∧ PagesOk env va len perm := by
  constructor
  · rintro ⟨n, cur, h⟩
    exact checkLoop_true (aligned_roundDown va) h
  · rintro ⟨hfin, hall⟩
    obtain ⟨n, ⟨cur, passed⟩, h⟩ : ∃ n r, checkLoop env.root perm (va + len) n (roundDown va) = some r :=
      checkLoop_ends (aligned_roundDown va) hfin
    cases passed with
    | true => exact ⟨n, cur, h⟩
    | false =>
      obtain ⟨k, hk, hbad⟩ := (checkLoop_false (aligned_roundDown va) h).2 hfin
      exact absurd (hall k hk) hbad

lemma loopEnds_false_iff : LoopEnds env va len perm false ↔
    Terminates env va len perm ∧ ((va + len).toNat ≤ 2 ^ 64 - 0x1000 → ¬PagesOk env va len perm) := by
  constructor
  · rintro ⟨n, cur, h⟩
    obtain ⟨hbad, hfirst⟩ := checkLoop_false (aligned_roundDown va) h
    refine ⟨.inr hbad, fun hfin hall => ?_⟩
    obtain ⟨k, hk, hfail⟩ := hfirst hfin
    exact hfail (hall k hk)
  · rintro ⟨hterm, hfail⟩
    have hends : ∃ n r, checkLoop env.root perm (va + len) n (roundDown va) = some r := by
      rcases hterm with hfin | ⟨a, ha, hbad⟩
      · exact checkLoop_ends (aligned_roundDown va) hfin
      · -- the loop comes to the page of `a`, after the last address if it must
        have hstart := (roundDown va).toNat_lt
        have halign := aligned_roundDown va
        refine checkLoop_stops ((a / 0x1000 * 0x1000 + 2 ^ 64 - (roundDown va).toNat) / 0x1000) ?_
        rwa [PageOk, smallestNode_congr env perm (show _ = a / 0x1000 by omega)]
    obtain ⟨n, ⟨cur, passed⟩, h⟩ := hends
    cases passed with
    | false => exact ⟨n, cur, h⟩
    | true =>
      obtain ⟨hfin, hall⟩ := checkLoop_true (aligned_roundDown va) h
      exact absurd hall (hfail hfin)

lemma toNat_maxUserReadable : maxUserReadable.toNat = 0x801fe00000 := rfl

lemma returns_zero_iff : Returns env va len perm 0 ↔
    (va + len).toNat ≤ maxUserReadable.toNat ∧ PagesOk env va len perm := by
  rw [returns_iff, loopEnds_true_iff]
  constructor
  · rintro (⟨-, h0⟩ | ⟨⟨-, hall⟩, h0⟩)
    · exact absurd h0 (by decide)
    · split_ifs at h0 with hmax
      · exact absurd h0 (by decide)
      · rw [UInt64.lt_iff_toNat_lt, not_lt] at hmax
        exact ⟨hmax, hall⟩
  · rintro ⟨hmax, hall⟩
    have hlow : maxUserReadable.toNat ≤ 2 ^ 64 - 0x1000 := by decide
    refine .inr ⟨⟨hmax.trans hlow, hall⟩, ?_⟩
    rw [if_neg (by rwa [UInt64.lt_iff_toNat_lt, not_lt])]

lemma returns_fault_iff : Returns env va len perm (-eFault) ↔ Terminates env va len perm ∧
      (maxUserReadable.toNat < (va + len).toNat ∨ ¬PagesOk env va len perm) := by
  have hlow : maxUserReadable.toNat ≤ 2 ^ 64 - 0x1000 := by decide
  rw [returns_iff, loopEnds_true_iff, loopEnds_false_iff]
  constructor
  · rintro (⟨⟨hterm, hfail⟩, -⟩ | ⟨⟨hfin, -⟩, hret⟩)
    · refine ⟨hterm, ?_⟩
      by_cases hmax : maxUserReadable.toNat < (va + len).toNat
      · exact .inl hmax
      · exact .inr (hfail ((not_lt.mp hmax).trans hlow))
    · split_ifs at hret with hmax
      · exact ⟨.inl hfin, .inl (UInt64.lt_iff_toNat_lt.mp hmax)⟩
      · exact absurd hret (by decide)
  · rintro ⟨hterm, hend⟩
    by_cases hall : (va + len).toNat ≤ 2 ^ 64 - 0x1000 ∧ PagesOk env va len perm
    · have hmax := hend.resolve_right (not_not.mpr hall.2)
      exact .inr ⟨hall, by rw [if_pos (UInt64.lt_iff_toNat_lt.mpr hmax)]⟩
    · exact .inl ⟨⟨hterm, fun hfin hok => hall ⟨hfin, hok⟩⟩, rfl⟩

lemma usable_iff (a : ℕ) : Usable env perm a ↔ a < maxUserReadable.toNat ∧ PageOk env perm a := by
  rw [Usable, PageOk, passes_iff]

/-- When the check is exact: the loop ends, an empty range ends where the environment may read and starts
with a page or in one that passes, and a range that wraps ends behind what may be read or begins in a page
that fails. -/
def HoldsWhen (env : EnvTree) (va len : UInt64) (perm : UInt32) : Prop :=
  Terminates env va len perm ∧
  (len = 0 → va ≤ maxUserReadable ∧ (va.toNat % 0x1000 = 0 ∨ PageOk env perm va.toNat)) ∧
  (2 ^ 64 ≤ va.toNat + len.toNat → maxUserReadable < va + len ∨
    roundDown va < va + len ∧ ¬PageOk env perm va.toNat)

lemma pageOk_roundDown : PageOk env perm (roundDown va).toNat ↔ PageOk env perm va.toNat := by
  refine smallestNode_congr env perm ?_
  rw [toNat_roundDown]
  omega

lemma pagesOk_first (h : (va + len).toNat ≤ va.toNat) : PagesOk env va len perm ↔
    (roundDown va < va + len → PageOk env perm va.toNat) := by
  have hdown := toNat_roundDown va
  constructor
  · intro hall hlt
    rw [← pageOk_roundDown]
    exact hall 0 (UInt64.lt_iff_toNat_lt.mp hlt)
  · intro hfirst k hk
    have hk0 : k = 0 := by omega
    subst hk0
    rw [mul_zero, add_zero] at hk ⊢
    rw [pageOk_roundDown]
    exact hfirst (UInt64.lt_iff_toNat_lt.mpr hk)

lemma pagesOk_iff_bytes (hlen : 0 < len.toNat) (hwrap : va.toNat + len.toNat < 2 ^ 64) :
    PagesOk env va len perm ↔ ∀ a, va.toNat ≤ a → a < va.toNat + len.toNat → PageOk env perm a := by
  have hdown := toNat_roundDown va
  have hend : (va + len).toNat = va.toNat + len.toNat := by
    exact mod_eq_of_lt hwrap
  constructor
  · intro hall a hle hlt
    have hk := hall ((a - (roundDown va).toNat) / 0x1000) (by omega)
    exact (smallestNode_congr env perm (by omega)).mp hk
  · intro hall k hk
    -- the first byte of the page, or of the range
    have ha := hall (max va.toNat ((roundDown va).toNat + 0x1000 * k)) (by omega) (by omega)
    exact (smallestNode_congr env perm (by omega)).mp ha

lemma exact_of_empty (va : UInt64) : Exact env va 0 perm ↔
    va ≤ maxUserReadable ∧ (va.toNat % 0x1000 = 0 ∨ PageOk env perm va.toNat) := by
  have hdown := toNat_roundDown va
  have hnone : ∀ a, va.toNat ≤ a → a < va.toNat + (0 : UInt64).toNat → Usable env perm a := by
    intro a hle hlt
    rw [UInt64.toNat_zero] at hlt
    omega
  have hexact : Exact env va 0 perm ↔ Returns env va 0 perm 0 := by
    refine ⟨?_, fun h => .inl ⟨hnone, h⟩⟩
    rintro (⟨-, h⟩ | ⟨h, -⟩)
    · exact h
    · exact absurd hnone h
  rw [hexact, returns_zero_iff, pagesOk_first (by rw [UInt64.add_zero]), UInt64.add_zero,
    UInt64.le_iff_toNat_le, UInt64.lt_iff_toNat_lt]
  refine and_congr_right fun _ => ⟨fun h => ?_, fun h hlt => ?_⟩
  · by_cases halign : va.toNat % 0x1000 = 0
    · exact .inl halign
    · exact .inr (h (by omega))
  · exact h.resolve_left (by omega)

lemma exact_of_range (hlen : 0 < len.toNat) (hwrap : va.toNat + len.toNat < 2 ^ 64) :
    Exact env va len perm ↔ Terminates env va len perm := by
  have hmax := toNat_maxUserReadable
  have hend : (va + len).toNat = va.toNat + len.toNat := by
    exact mod_eq_of_lt hwrap
  have hall : (∀ a, va.toNat ≤ a → a < va.toNat + len.toNat → Usable env perm a) ↔ Returns env va len perm 0 := by
    rw [returns_zero_iff, pagesOk_iff_bytes hlen hwrap, hend]
    simp only [usable_iff]
    constructor
    · intro h
      have hlast := (h (va.toNat + len.toNat - 1) (by omega) (by omega)).1
      exact ⟨by omega, fun a hle hlt => (h a hle hlt).2⟩
    · rintro ⟨hle, h⟩ a hva hlt
      exact ⟨by omega, h a hva hlt⟩
  unfold Exact
  rw [hall, returns_fault_iff, returns_zero_iff]
  constructor
  · rintro (⟨⟨hle, -⟩, -⟩ | ⟨-, hterm, -⟩)
    · exact .inl (by omega)
    · exact hterm
  · intro hterm
    by_cases hok : (va + len).toNat ≤ maxUserReadable.toNat ∧ PagesOk env va len perm
    · exact .inl ⟨hok, hok⟩
    · refine .inr ⟨hok, hterm, ?_⟩
      by_cases hle : (va + len).toNat ≤ maxUserReadable.toNat
      · exact .inr fun hp => hok ⟨hle, hp⟩
      · exact .inl (not_le.mp hle)

lemma exact_of_wrap (hwrap : 2 ^ 64 ≤ va.toNat + len.toNat) : Exact env va len perm ↔ Terminates env va len perm ∧
      (maxUserReadable < va + len ∨ roundDown va < va + len ∧ ¬PageOk env perm va.toNat) := by
  have hmax := toNat_maxUserReadable
  have hva := va.toNat_lt
  have hlen := len.toNat_lt
  have hend : (va + len).toNat ≤ va.toNat := by
    rw [UInt64.toNat_add]
    omega
  have hbad : ¬∀ a, va.toNat ≤ a → a < va.toNat + len.toNat → Usable env perm a := by
    intro h
    have := (h (va.toNat + len.toNat - 1) (by omega) (by omega)).1
    omega
  have hexact : Exact env va len perm ↔ Returns env va len perm (-eFault) := by
    refine ⟨?_, fun h => .inr ⟨hbad, h⟩⟩
    rintro (⟨h, -⟩ | ⟨-, h⟩)
    · exact absurd h hbad
    · exact h
  rw [hexact, returns_fault_iff, pagesOk_first hend, Classical.not_imp, ← UInt64.lt_iff_toNat_lt]

/-- **`user_mem_check` is exact** for just these arguments. -/
theorem userMemCheck_exact_iff (env : EnvTree) (va len : UInt64) (perm : UInt32) :
    Exact env va len perm ↔ HoldsWhen env va len perm := by
  have hmax := toNat_maxUserReadable
  rcases lt_or_ge (va.toNat + len.toNat) (2 ^ 64) with hwrap | hwrap
  · rcases eq_or_ne len 0 with rfl | hlen
    · rw [exact_of_empty]
      refine ⟨fun h => ⟨.inl ?_, fun _ => h, fun hge => absurd hge (by omega)⟩, fun h => h.2.1 rfl⟩
      have hle := UInt64.le_iff_toNat_le.mp h.1
      rw [UInt64.add_zero]
      omega
    · have hpos : 0 < len.toNat := pos_of_ne_zero fun h0 => hlen (UInt64.toNat_inj.mp h0)
      rw [exact_of_range hpos hwrap]
      exact ⟨fun h => ⟨h, fun h0 => absurd h0 hlen, fun hge => absurd hge (by omega)⟩, fun h => h.1⟩
  · have hlen : len ≠ 0 := by
      rintro rfl
      have := va.toNat_lt
      rw [UInt64.toNat_zero] at hwrap
      omega
    rw [exact_of_wrap hwrap]
    exact ⟨fun h => ⟨h.1, fun h0 => absurd h0 hlen, fun _ => h.2⟩, fun h => ⟨h.1, h.2.2 hwrap⟩⟩

def emptyEnv : EnvTree := ⟨.fresh .intermediate, VTree.ok_fresh 0, nofun⟩

/-- All but the first page, and then to the end of the addresses: nothing is looked at. -/
theorem userMemCheck_wraps :
    userMemCheck 1 emptyEnv 0x1000 0xfffffffffffff000 0x24 = some (0, none) ∧
      ¬Exact emptyEnv 0x1000 0xfffffffffffff000 0x24 := by
  refine ⟨by decide, fun h => ?_⟩
  rw [exact_of_wrap (by decide)] at h
  rcases h.2 with hend | ⟨hend, -⟩
  all_goals exact absurd hend (by decide)

end Jos.UserMem
