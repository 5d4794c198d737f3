import Jos.CArray
import Jos.EnvTable
import Mathlib.Data.List.FinRange
import Mathlib.Data.Nat.Bitwise
import Mathlib.Data.Nat.ModEq

/-!
What holds of the table of environments in every state: which slots are on the free list, which
ids are in use, and which environment runs.
-/

namespace Jos.EnvTable

open CArray Runs List Function Nat Option

def idCycle : ℕ := 2 ^ 19 - 1

def idAt (s : Slot) (n : ℕ) : EnvId := BitVec.ofNat 32 (0x1000 * (n % idCycle + 1) + s)

lemma toNat_idAt (s : Slot) (n : ℕ) : (idAt s n).toNat = 0x1000 * (n % idCycle + 1) + s := by
  have hn : n % idCycle < 2 ^ 19 - 1 := mod_lt _ (by decide)
  exact mod_eq_of_lt (by omega)

lemma idAt_pos (s : Slot) (n : ℕ) : 0 < (idAt s n).toInt := by
  have hn : n % idCycle < 2 ^ 19 - 1 := mod_lt _ (by decide)
  rw [BitVec.toInt_eq_toNat_of_lt (by rw [toNat_idAt]; omega), toNat_idAt]
  omega

lemma envx_idAt (s : Slot) (n : ℕ) : envx (idAt s n) = s := by
  refine Fin.ext ?_
  have hmask : (0x3ff#32).toNat = 2 ^ 10 - 1 := rfl
  rw [envx, Fin.val_ofNat, BitVec.toNat_and, hmask, and_two_pow_sub_one_eq_mod, toNat_idAt]
  omega

variable {m : Machine} {σ σ' : Table} {s c t : Slot} {id envid : EnvId} {r : Result} {k i : ℕ}

lemma idAt_inj {i j : ℕ} (hij : i < j) (hj : j < i + idCycle) : idAt s i ≠ idAt s j := by
  intro h
  have hnat := congrArg BitVec.toNat h
  rw [toNat_idAt, toNat_idAt] at hnat
  have hmod : i % idCycle = j % idCycle := by omega
  obtain ⟨d, rfl⟩ := Nat.exists_eq_add_of_le hij.le
  have hdvd : d % idCycle = 0 := by
    have hcancel : d ≡ 0 [MOD idCycle] := Nat.ModEq.add_left_cancel' i hmod.symm
    exact hcancel
  rw [mod_eq_of_lt (by omega)] at hdvd
  omega

lemma toNat_and_mask (x : EnvId) : (x &&& ~~~0x3ff#32).toNat = 1024 * (x.toNat / 1024) := by
  have hmask : x &&& ~~~0x3ff#32 = (x >>> 10) <<< 10 := by
    ext i hi
    have hbit : (0x3ff#32)[i] = decide (i < 10) := by
      exact testBit_two_pow_sub_one 10 i
    rw [BitVec.getElem_and, BitVec.getElem_not, hbit, BitVec.getElem_shiftLeft]
    by_cases h : i < 10
    · simp [h]
    · simp [h, BitVec.getLsbD_eq_getElem, hi, show 10 + (i - 10) = i by omega]
  rw [hmask, BitVec.toNat_shiftLeft, BitVec.toNat_ushiftRight, shiftRight_eq_div_pow, shiftLeft_eq]
  omega

lemma toNat_generation (hk : k < 2 ^ 19) (hid : id.toNat / 1024 = 4 * k) :
    ((id + 0x1000#32) &&& ~~~0x3ff#32).toNat = 2 ^ 10 * (4 * (k + 1)) := by
  have hadd : (id + 0x1000#32).toNat = id.toNat + 0x1000 := by
    exact mod_eq_of_lt (by simp; omega)
  rw [toNat_and_mask, hadd]
  omega

lemma toNat_or_slot {x : EnvId} (s : Slot) (hx : x.toNat = 2 ^ 10 * (4 * k)) :
    (x ||| BitVec.ofNat 32 s).toNat = 0x1000 * k + s := by
  have hs := s.isLt
  have hslot : (BitVec.ofNat 32 s).toNat = s := by
    exact mod_eq_of_lt (by omega)
  rw [BitVec.toNat_or, hx, hslot, ← two_pow_add_eq_or_of_lt hs]
  omega

lemma toNat_nextId (s : Slot) (hk : k < idCycle) (hid : id.toNat / 1024 = 4 * k) :
    (nextId id s).toNat = 0x1000 * (k + 1) + s := by
  unfold idCycle at hk
  have hgen := toNat_generation (by omega) hid
  have hpos : ¬((id + 0x1000#32) &&& ~~~0x3ff#32).toInt ≤ 0 := by
    rw [BitVec.toInt_eq_toNat_of_lt (by omega), hgen]
    omega
  rw [nextId, if_neg hpos]
  exact toNat_or_slot s hgen

lemma toNat_nextId_wrap (s : Slot) (hid : id.toNat / 1024 = 4 * idCycle) : (nextId id s).toNat = 0x1000 + s := by
  have hgen := toNat_generation (by decide) hid
  have hneg : ((id + 0x1000#32) &&& ~~~0x3ff#32).toInt ≤ 0 := by
    rw [BitVec.toInt_eq_toNat_cond, if_neg (by rw [hgen]; decide), hgen]
    decide
  rw [nextId, if_pos hneg]
  exact toNat_or_slot s (k := 1) rfl

lemma nextId_zero (s : Slot) : nextId 0 s = idAt s 0 := by
  refine BitVec.eq_of_toNat_eq ?_
  rw [toNat_nextId s (k := 0) (by decide) rfl, toNat_idAt]
  rfl

lemma nextId_idAt (s : Slot) (n : ℕ) : nextId (idAt s n) s = idAt s (n + 1) := by
  have hn : n % idCycle < idCycle := mod_lt _ (by decide)
  have hid : (idAt s n).toNat / 1024 = 4 * (n % idCycle + 1) := by
    rw [toNat_idAt]
    omega
  refine BitVec.eq_of_toNat_eq ?_
  rw [toNat_idAt, add_mod]
  rcases lt_or_ge (n % idCycle + 1) idCycle with hlt | hge
  · rw [toNat_nextId s hlt hid, mod_eq_of_lt (a := 1) (by decide), mod_eq_of_lt hlt]
  · have hlast : n % idCycle + 1 = idCycle := by omega
    rw [toNat_nextId_wrap s (by rw [hid, hlast]), mod_eq_of_lt (a := 1) (by decide), hlast, mod_self]

inductive Chain (σ : Table) : Option Slot → List Slot → Prop
  | nil : Chain σ none []
  | cons {s : Slot} {l : List Slot} : Chain σ (σ.envs s).link l → Chain σ (some s) (s :: l)

lemma Chain.congr {p : Option Slot} {l : List Slot} (h : Chain σ p l)
    (hlink : ∀ s ∈ l, (σ'.envs s).link = (σ.envs s).link) : Chain σ' p l := by
  induction h with
  | nil => exact .nil
  | @cons s l _ ih =>
    refine .cons ?_
    rw [hlink s (by simp)]
    exact ih fun t ht => hlink t (by simp [ht])

lemma envInit_chain (n : ℕ) (hn : n ≤ 1024) :
    Chain envInit (if h : n < 1024 then some ⟨n, h⟩ else none) ((List.finRange 1024).drop n) := by
  -- from the end of the array down
  induction hn using decreasingInduction with
  | self =>
    rw [dif_neg (lt_irrefl _), drop_of_length_le (by rw [length_finRange])]
    exact .nil
  | of_succ k hk ih =>
    have hlen : k < (finRange 1024).length := by rwa [length_finRange]
    rw [dif_pos hk, drop_eq_getElem_cons hlen, getElem_finRange]
    exact .cons ih

def Machine.ids (m : Machine) (s : Slot) : List EnvId := m.handed.filter (envx · = s)

def lastId (s : Slot) : ℕ → EnvId
  | 0 => 0
  | n + 1 => idAt s n

lemma nextId_lastId (s : Slot) (n : ℕ) : nextId (lastId s n) s = idAt s n := by
  cases n with
  | zero => exact nextId_zero s
  | succ n => exact nextId_idAt s n

structure Machine.Inv (m : Machine) : Prop where
  free : ∃ l, Chain m.table m.table.freeList l ∧ l.Nodup ∧
    ∀ s, s ∈ l ↔ (m.table.envs s).status = .free
  /-- every slot goes through its ids in their order -/
  ids : ∀ s, m.ids s = (List.range (m.ids s).length).map (idAt s)
  last : ∀ s, (m.table.envs s).id = lastId s (m.ids s).length
  used : ∀ s, (m.table.envs s).status ≠ .free → m.ids s ≠ []
  running : ∀ s, (m.table.envs s).status = .running → m.table.curenv = some s
  alive : ∀ s, (m.table.envs s).status ≠ .dying

lemma boot_inv : boot.Inv where
  free := by
    refine ⟨finRange 1024, ?_, nodup_finRange 1024, fun s => ?_⟩
    · have hall := envInit_chain 0 (zero_le _)
      rwa [dif_pos (by decide), drop_zero] at hall
    · exact iff_of_true (mem_finRange s) rfl
  ids s := rfl
  last s := rfl
  used s h := absurd rfl h
  running s h := by cases h
  alive s h := by cases h

/-- The table changes, but no slot is taken or freed. -/
structure Table.Calm (σ σ' : Table) : Prop where
  freeList : σ'.freeList = σ.freeList
  id : ∀ s, (σ'.envs s).id = (σ.envs s).id
  link : ∀ s, (σ'.envs s).link = (σ.envs s).link
  free : ∀ s, (σ'.envs s).status = .free ↔ (σ.envs s).status = .free
  running : ∀ s, (σ'.envs s).status = .running → σ'.curenv = some s
  alive : ∀ s, (σ'.envs s).status ≠ .dying

lemma Machine.Inv.calm (h : m.Inv) (hc : m.table.Calm σ) : Machine.Inv { m with table := σ } where
  free := by
    obtain ⟨l, hl, hnd, hmem⟩ := h.free
    refine ⟨l, ?_, hnd, fun s => (hmem s).trans (hc.free s).symm⟩
    rw [hc.freeList]
    exact hl.congr fun s _ => hc.link s
  ids := h.ids
  last s := (hc.id s).trans (h.last s)
  used s hs := h.used s fun hf => hs ((hc.free s).mpr hf)
  running := hc.running
  alive := hc.alive

lemma Table.Calm.trans {σ σ' σ'' : Table} (h : σ.Calm σ') (h' : σ'.Calm σ'') : σ.Calm σ'' where
  freeList := h'.freeList.trans h.freeList
  id s := (h'.id s).trans (h.id s)
  link s := (h'.link s).trans (h.link s)
  free s := (h'.free s).trans (h.free s)
  running := h'.running
  alive := h'.alive

@[simp] lemma Table.modify_same (σ : Table) (s : Slot) (f : Env → Env) :
    (σ.modify s f).envs s = f (σ.envs s) := update_self ..

lemma Table.modify_other (σ : Table) (f : Env → Env) (h : t ≠ s) :
    (σ.modify s f).envs t = σ.envs t := update_of_ne h ..

structure Table.Steady (σ : Table) : Prop where
  running : ∀ s, (σ.envs s).status = .running → σ.curenv = some s
  alive : ∀ s, (σ.envs s).status ≠ .dying
  index : ∀ s, (σ.envs s).status ≠ .free → envx (σ.envs s).id = s

lemma Table.Steady.refl (h : σ.Steady) : σ.Calm σ :=
  ⟨rfl, fun _ => rfl, fun _ => rfl, fun _ => Iff.rfl, h.running, h.alive⟩

lemma Table.Steady.calm (h : σ.Steady) (hc : σ.Calm σ') : σ'.Steady where
  running := hc.running
  alive := hc.alive
  index s hs := by
    rw [hc.id]
    exact h.index s fun hf => hs ((hc.free s).mpr hf)

lemma Machine.Inv.index (h : m.Inv) (hs : (m.table.envs s).status ≠ .free) : ∃ n, (m.table.envs s).id = idAt s n := by
  have hlast := h.last s
  cases hn : (m.ids s).length with
  | zero => exact absurd (length_eq_zero_iff.mp hn) (h.used s hs)
  | succ n =>
    rw [hn] at hlast
    exact ⟨n, hlast⟩

lemma Machine.Inv.steady (h : m.Inv) : m.table.Steady where
  running := h.running
  alive := h.alive
  index s hs := by
    obtain ⟨n, hn⟩ := h.index hs
    rw [hn, envx_idAt]

lemma Table.Steady.modify {f : Env → Env} (h : σ.Steady)
    (hs : (σ.envs s).status ≠ .free) (hid : (f (σ.envs s)).id = (σ.envs s).id)
    (hlink : (f (σ.envs s)).link = (σ.envs s).link)
    (hst : (f (σ.envs s)).status = .runnable ∨ (f (σ.envs s)).status = .notRunnable) :
    σ.Calm (σ.modify s f) := by
  have hother : ∀ t, t ≠ s → (σ.modify s f).envs t = σ.envs t := fun t => σ.modify_other f
  refine ⟨rfl, fun t => ?_, fun t => ?_, fun t => ?_, fun t ht => ?_, fun t ht => ?_⟩ <;>
    rcases eq_or_ne t s with rfl | hne
  · rw [σ.modify_same, hid]
  · rw [hother t hne]
  · rw [σ.modify_same, hlink]
  · rw [hother t hne]
  · rw [σ.modify_same]
    rcases hst with hst | hst <;> simp [hst, hs]
  · rw [hother t hne]
  · rw [σ.modify_same] at ht
    rcases hst with hst | hst <;> rw [hst] at ht <;> cases ht
  · rw [hother t hne] at ht
    exact h.running t ht
  · rw [σ.modify_same] at ht
    rcases hst with hst | hst <;> rw [hst] at ht <;> cases ht
  · rw [hother t hne] at ht
    exact h.alive t ht

lemma Table.Steady.setStatus {status : Status} (h : σ.Steady)
    (hs : (σ.envs s).status ≠ .free) (hst : status = .runnable ∨ status = .notRunnable) :
    σ.Calm (σ.setStatus s status) :=
  h.modify hs rfl rfl hst

/-- When `env_run` has left the current environment, none runs. -/
lemma leave_calm (h : σ.Steady) : σ.Calm (leave σ) ∧ ∀ s, ((leave σ).envs s).status ≠ .running := by
  cases hc : σ.curenv with
  | none =>
    have hleave : leave σ = σ := by simp only [leave, hc]
    rw [hleave]
    refine ⟨h.refl, fun s hs => ?_⟩
    have := h.running s hs
    rw [hc] at this
    cases this
  | some c =>
    have hothers : ∀ s, s ≠ c → (σ.envs s).status ≠ .running := by
      intro s hne hs
      have := h.running s hs
      rw [hc] at this
      exact hne (some.inj this).symm
    cases hst : (σ.envs c).status with
    | running =>
      have hleave : leave σ = σ.modify c ({ · with status := .runnable }) := by
        simp only [leave, hc, hst, Table.setStatus]
      rw [hleave]
      refine ⟨h.modify (by rw [hst]; nofun) rfl rfl (.inl rfl), fun s hs => ?_⟩
      rcases eq_or_ne s c with rfl | hne
      · rw [Table.modify_same] at hs
        cases hs
      · rw [Table.modify_other _ _ hne] at hs
        exact hothers s hne hs
    | dying => exact absurd hst (h.alive c)
    | free | runnable | notRunnable =>
      have hleave : leave σ = σ := by simp only [leave, hc, hst]
      rw [hleave]
      refine ⟨h.refl, fun s hs => ?_⟩
      rcases eq_or_ne s c with rfl | hne
      · rw [hst] at hs
        cases hs
      · exact hothers s hne hs

lemma switchTo_calm (h : σ.Steady) (hnone : ∀ t, (σ.envs t).status ≠ .running) (hs : (σ.envs s).status ≠ .free) :
    σ.Calm (switchTo s σ) := by
  have hsame : (switchTo s σ).envs s = { σ.envs s with
      status := .running, runs := (σ.envs s).runs + 1 } := by simp [switchTo]
  have hother : ∀ t, t ≠ s → (switchTo s σ).envs t = σ.envs t := by
    intro t ht
    simp [switchTo, σ.modify_other _ ht]
  refine ⟨rfl, fun t => ?_, fun t => ?_, fun t => ?_, fun t ht => ?_, fun t ht => ?_⟩ <;>
    rcases eq_or_ne t s with rfl | hne
  · rw [hsame]
  · rw [hother t hne]
  · rw [hsame]
  · rw [hother t hne]
  · rw [hsame]
    exact ⟨nofun, fun hf => absurd hf hs⟩
  · rw [hother t hne]
  · rfl
  · rw [hother t hne] at ht
    exact absurd ht (hnone t)
  · rw [hsame] at ht
    cases ht
  · rw [hother t hne] at ht
    exact h.alive t ht

lemma envRun_calm (h : σ.Steady) (hs : (σ.envs s).status ≠ .free) : σ.Calm (envRun s σ) := by
  have hdying : ¬∃ c ∈ σ.curenv, (σ.envs c).status = .dying ∧ c = s := by
    rintro ⟨c, -, hc, -⟩
    exact h.alive c hc
  obtain ⟨hleave, hnone⟩ := leave_calm h
  rw [envRun, if_neg hdying]
  exact hleave.trans (switchTo_calm (h.calm hleave) hnone (mt (hleave.free s).mp hs))

def Status.Ready (status : Status) : Prop := status = .runnable ∨ status = .running
  deriving Decidable

lemma Status.Ready.live {status : Status} (h : status.Ready) : status ≠ .free := by
  rcases h with rfl | rfl <;> decide

lemma pick_ready (h : pick σ = some s) : (σ.envs s).status.Ready := by
  rcases or_eq_some_iff.mp h with h | ⟨-, h⟩
  · have hst := find?_some h
    rw [decide_eq_true_eq] at hst
    exact .inl hst
  · split_ifs at h with hst
    cases h
    exact .inr hst

lemma pick_live (h : pick σ = some s) : (σ.envs s).status ≠ .free := (pick_ready h).live

lemma pick_none (h : σ.Steady) (hp : pick σ = none) (s : Slot) :
    (σ.envs s).status ≠ .runnable ∧ (σ.envs s).status ≠ .running := by
  obtain ⟨hfind, hcur⟩ := or_eq_none_iff.mp hp
  constructor
  · have hmem : s ∈ finRange 1024 := mem_finRange s
    simpa using find?_eq_none.mp hfind s (by
      rw [← take_append_drop _ (finRange 1024)] at hmem
      exact mem_append.mpr (mem_append.mp hmem).symm)
  · intro hs
    have hindex := h.index s (by rw [hs]; nofun)
    simp only [h.running s hs, hindex, hs, if_true] at hcur
    cases hcur

lemma schedYield_calm (h : σ.Steady) : σ.Calm (schedYield σ) := by
  unfold schedYield schedYieldWith
  cases hp : pick σ with
  | some s => exact envRun_calm h (pick_live hp)
  | none =>
    rw [schedHalt, if_pos (pick_none h hp)]
    exact h.refl

lemma trapReturn_calm (h : σ.Steady) : σ.Calm (trapReturn σ) := by
  unfold trapReturn
  cases hc : σ.curenv with
  | none => exact schedYield_calm h
  | some c =>
    dsimp only
    split_ifs with hs
    · exact envRun_calm h (by rw [hs]; nofun)
    · exact schedYield_calm h

lemma envFree_inv (h : m.Inv) (hs : (m.table.envs s).status ≠ .free) :
    Machine.Inv { m with table := envFree s m.table } := by
  have hsame : (envFree s m.table).envs s =
      { m.table.envs s with status := .free, link := m.table.freeList } := by simp [envFree]
  have hother : ∀ t, t ≠ s → (envFree s m.table).envs t = m.table.envs t := by
    intro t ht
    simp [envFree, m.table.modify_other _ ht]
  refine ⟨?_, h.ids, fun t => ?_, fun t ht => ?_, fun t ht => ?_, fun t ht => ?_⟩
  · obtain ⟨l, hl, hnd, hmem⟩ := h.free
    have hnew : s ∉ l := fun hin => hs ((hmem s).mp hin)
    refine ⟨s :: l, .cons ?_, nodup_cons.mpr ⟨hnew, hnd⟩, fun t => ?_⟩
    · dsimp only
      rw [hsame]
      exact hl.congr fun t ht => by rw [hother t (ne_of_mem_of_not_mem ht hnew)]
    · rcases eq_or_ne t s with rfl | hne
      · simp [hsame]
      · simp [hother t hne, hne, hmem]
  · rcases eq_or_ne t s with rfl | hne
    · rw [hsame]
      exact h.last t
    · rw [hother t hne]
      exact h.last t
  · refine h.used t ?_
    rcases eq_or_ne t s with rfl | hne
    · exact hs
    · rwa [hother t hne] at ht
  · rcases eq_or_ne t s with rfl | hne
    · rw [hsame] at ht
      cases ht
    · rw [hother t hne] at ht
      exact h.running t ht
  · rcases eq_or_ne t s with rfl | hne
    · rw [hsame] at ht
      cases ht
    · rw [hother t hne] at ht
      exact h.alive t ht

lemma envFree_setStatus (s : Slot) (status : Status) (σ : Table) :
    envFree s (σ.setStatus s status) = envFree s σ := by
  simp only [envFree, Table.setStatus, Table.modify, update_self, update_idem]

lemma envDestroy_inv (h : m.Inv) (hs : (m.table.envs s).status ≠ .free) :
    Machine.Inv { m with table := (envDestroy s m.table).1 } := by
  have hfree := envFree_inv h hs
  simp only [envDestroy, envFree_setStatus]
  split_ifs
  · exact hfree.calm (schedYield_calm hfree.steady)
  · exact hfree

lemma ids_handed_same (m : Machine) (σ : Table) (s : Slot) (n : ℕ) :
    Machine.ids ⟨σ, m.handed ++ [idAt s n]⟩ s = m.ids s ++ [idAt s n] := by
  simp [Machine.ids, envx_idAt]

lemma ids_handed_other (m : Machine) (σ : Table) (n : ℕ) (h : t ≠ s) :
    Machine.ids ⟨σ, m.handed ++ [idAt s n]⟩ t = m.ids t := by
  simp [Machine.ids, envx_idAt, h.symm]

lemma envAlloc_inv {parentId : EnvId} {type : EnvType}
    (h : m.Inv) (ha : envAlloc parentId type m.table = .ok (σ, s)) :
    Machine.Inv ⟨σ, m.handed ++ [(σ.envs s).id]⟩ ∧ (σ.envs s).status ≠ .free := by
  unfold envAlloc at ha
  obtain ⟨l, hl, hnd, hmem⟩ := h.free
  cases hf : m.table.freeList with
  | none =>
    rw [hf] at ha
    cases ha
  | some s' =>
    simp only [hf] at ha
    obtain ⟨hσ, rfl⟩ := Prod.mk.inj (Except.ok.inj ha)
    have hsame : σ.envs s' = { m.table.envs s' with
        id := nextId (m.table.envs s').id s', parentId := parentId, type := type
        status := .runnable, runs := 0, ipcRecving := false } := by
      simp [← hσ]
    have hother : ∀ t, t ≠ s' → σ.envs t = m.table.envs t := by
      intro t ht
      simp [← hσ, m.table.modify_other _ ht]
    have hid : (σ.envs s').id = idAt s' (m.ids s').length := by
      rw [hsame, ← nextId_lastId, ← h.last]
    have hfl : σ.freeList = (m.table.envs s').link := by rw [← hσ]
    have hcur : σ.curenv = m.table.curenv := by rw [← hσ]; rfl
    rw [hf] at hl
    cases hl with
    | @cons _ l hl =>
      obtain ⟨hnew, hnd⟩ := nodup_cons.mp hnd
      rw [hid]
      refine ⟨⟨⟨l, ?_, hnd, fun t => ?_⟩, fun t => ?_, fun t => ?_, fun t ht => ?_, fun t ht => ?_,
        fun t ht => ?_⟩, by rw [hsame]; nofun⟩
      · dsimp only
        rw [hfl]
        exact hl.congr fun t ht => by rw [hother t (ne_of_mem_of_not_mem ht hnew)]
      · rcases eq_or_ne t s' with rfl | hne
        · simp [hsame, hnew]
        · rw [hother t hne, ← hmem t]
          simp [hne]
      · rcases eq_or_ne t s' with rfl | hne
        · rw [ids_handed_same, length_append, length_singleton, range_succ, map_append, ← h.ids t]
          rfl
        · rw [ids_handed_other m σ _ hne]
          exact h.ids t
      · rcases eq_or_ne t s' with rfl | hne
        · rw [ids_handed_same, length_append, length_singleton]
          exact hid
        · rw [ids_handed_other m σ _ hne]
          rw [hother t hne]
          exact h.last t
      · rcases eq_or_ne t s' with rfl | hne
        · rw [ids_handed_same]
          exact append_ne_nil_of_right_ne_nil _ (cons_ne_nil _ _)
        · rw [ids_handed_other m σ _ hne]
          rw [hother t hne] at ht
          exact h.used t ht
      · dsimp only at ht ⊢
        rcases eq_or_ne t s' with rfl | hne
        · rw [hsame] at ht
          cases ht
        · rw [hother t hne] at ht
          rw [hcur]
          exact h.running t ht
      · dsimp only at ht
        rcases eq_or_ne t s' with rfl | hne
        · rw [hsame] at ht
          cases ht
        · rw [hother t hne] at ht
          exact h.alive t ht

lemma envid2env_live {check : Bool} (hc : σ.curenv = some c)
    (hlive : (σ.envs c).status ≠ .free) (h : envid2env σ id check = .found (some s)) :
    (σ.envs s).status ≠ .free := by
  simp only [envid2env, hc] at h
  split_ifs at h with h0 hbad hcheck hperm
  · cases h
    exact hlive
  all_goals
    cases h
    exact fun hf => hbad (.inl hf)

def Keeps (m : Machine) (r : Result) : Prop := Machine.Inv { m with table := r.1 }

lemma sysEnvSetStatus_inv {status : ℤ}
    (h : m.Inv) (hc : m.table.curenv = some c) (hlive : (m.table.envs c).status ≠ .free)
    (hr : sysEnvSetStatus envid status m.table = .ok r) : Keeps m r := by
  unfold sysEnvSetStatus at hr
  split at hr
  · cases hr
    exact h
  · rename_i s hs
    have hs := envid2env_live hc hlive hs
    split_ifs at hr <;> cases hr
    · exact h.calm (h.steady.setStatus hs (.inr rfl))
    · exact h.calm (h.steady.setStatus hs (.inl rfl))
    · exact h
  · cases hr

lemma deliver_calm (value perm : UInt32) (maxsz : UInt64) (h : σ.Steady)
    (ht : (σ.envs t).status ≠ .free) : σ.Calm (deliver c t value perm maxsz σ).1 := by
  dsimp only [deliver]
  exact h.modify ht rfl rfl (.inl rfl)

lemma sysIpcTrySend_inv {value : UInt32}
    {srcva size : UInt64} {perm : UInt32} {mapping : Mapping}
    (h : m.Inv) (hc : m.table.curenv = some c) (hlive : (m.table.envs c).status ≠ .free)
    (hr : sysIpcTrySend c envid value srcva size perm mapping m.table = .ok r) : Keeps m r := by
  unfold sysIpcTrySend at hr
  split at hr
  · cases hr
    exact h
  · rename_i t ht
    have ht := envid2env_live hc hlive ht
    have hdeliver : ∀ p z, Keeps m (deliver c t value p z m.table) := fun p z =>
      h.calm (deliver_calm value p z h.steady ht)
    split_ifs at hr
    · cases hr
      exact h
    · cases hr
      exact h
    · cases mapping <;> cases hr
      · exact hdeliver _ _
      · exact h
      · exact envDestroy_inv h hlive
    · cases hr
      exact hdeliver _ _
  · cases hr

lemma sysIpcRecv_inv (dstva maxsize : UInt64) (h : m.Inv)
    (hlive : (m.table.envs c).status ≠ .free) : Keeps m (sysIpcRecv c dstva maxsize m.table) := by
  unfold sysIpcRecv
  split
  · exact h
  split
  · exact h
  split
  · exact h
  · have hc := h.steady.modify (f := fun e =>
      { e with
        ipcRecving := true, status := .notRunnable
        ipcDstva := if dstva < maxUserAddress then dstva else e.ipcDstva
        ipcMaxsz := if dstva < maxUserAddress then maxsize else e.ipcMaxsz }) hlive rfl rfl (.inr rfl)
    exact h.calm (hc.trans (schedYield_calm (h.steady.calm hc)))

lemma sysEnvDestroy_inv (h : m.Inv) (hc : m.table.curenv = some c) (hlive : (m.table.envs c).status ≠ .free)
    (hr : sysEnvDestroy envid m.table = .ok r) : Keeps m r := by
  unfold sysEnvDestroy at hr
  split at hr
  · cases hr
    exact h
  · rename_i s hs
    cases hr
    exact envDestroy_inv h (envid2env_live hc hlive hs)
  · cases hr

lemma sysExofork_inv {stale : Stale}
    {r : Result × List EnvId} (h : m.Inv) (hfree : m.table.freeList.isSome)
    (hr : sysExofork c stale m.table = .ok r) : Machine.Inv ⟨r.1.1, m.handed ++ r.2⟩ := by
  unfold sysExofork at hr
  split at hr
  · rename_i σ s ha
    cases hr
    obtain ⟨hinv, hs⟩ := envAlloc_inv h ha
    have hid : ((σ.setStatus s .notRunnable).envs s).id = (σ.envs s).id := by
      rw [Table.setStatus, Table.modify_same]
    rw [hid]
    exact hinv.calm (hinv.steady.setStatus hs (.inr rfl))
  · rename_i e ha
    obtain ⟨s, hs⟩ := isSome_iff_exists.mp hfree
    simp [envAlloc, hs] at ha

/-- What a step must meet: `sys_exofork` finds a free slot. -/
def Forks (m : Machine) : Step → Prop
  | .syscall (.exofork _) => m.table.freeList.isSome
  | _ => True

instance (m : Machine) : DecidablePred (Forks m) := fun op => by
  unfold Forks
  split <;> infer_instance

lemma syscall_inv {call : Call} {r : Result × List EnvId} (h : m.Inv)
    (hc : m.table.curenv = some c) (hlive : (m.table.envs c).status ≠ .free)
    (hf : Forks m (.syscall call)) (hr : syscall c call m.table = .ok r) :
    Machine.Inv ⟨r.1.1, m.handed ++ r.2⟩ := by
  -- a call that hands out no id
  have hplain : ∀ {x : Except Fault Result}, (∀ y, x = .ok y → Keeps m y) →
      (·, ([] : List EnvId)) <$> x = .ok r → Machine.Inv ⟨r.1.1, m.handed ++ r.2⟩ := by
    intro x hx hr
    cases x with
    | error e => cases hr
    | ok y =>
      cases hr
      rw [append_nil]
      exact hx y rfl
  cases call with
  | exofork stale => exact sysExofork_inv h hf hr
  | envSetStatus envid status => exact hplain (fun y => sysEnvSetStatus_inv h hc hlive) hr
  | ipcTrySend envid value srcva size perm mapping =>
    exact hplain (fun y => sysIpcTrySend_inv h hc hlive) hr
  | ipcRecv dstva maxsize =>
    exact hplain (x := .ok _) (fun y hy => Except.ok.inj hy ▸ sysIpcRecv_inv dstva maxsize h hlive) hr
  | envDestroy envid => exact hplain (fun y => sysEnvDestroy_inv h hc hlive) hr
  | yield =>
    exact hplain (x := .ok (schedYield m.table, none))
      (fun y hy => Except.ok.inj hy ▸ h.calm (schedYield_calm h.steady)) hr

/-- **A step keeps the invariant**, if `sys_exofork` finds a free slot. -/
lemma step_inv (m : Machine) (op : Step) (m' : Machine) (h : m.Inv) (hf : Forks m op)
    (hs : step m op = .ok m') : m'.Inv := by
  -- a call for an environment that is not free
  have hwith : ∀ {s : Slot} {f : Table → Table},
      ((m.table.envs s).status ≠ .free → Machine.Inv { m with table := f m.table }) →
      m.withEnv s f = .ok m' → m'.Inv := by
    intro s f hkeep hs
    unfold Machine.withEnv at hs
    split_ifs at hs with hlive
    cases hs
    exact hkeep hlive
  cases op with
  | envAlloc parentId type =>
    simp only [step] at hs
    split at hs
    · cases hs
      exact h
    · rename_i σ s ha
      cases hs
      exact (envAlloc_inv h ha).1
  | envFree s => exact hwith (envFree_inv h) hs
  | envDestroy s => exact hwith (f := fun σ => (envDestroy s σ).1) (envDestroy_inv h) hs
  | envRun s => exact hwith (fun hlive => h.calm (envRun_calm h.steady hlive)) hs
  | schedYield =>
    cases hs
    exact h.calm (schedYield_calm h.steady)
  | syscall call =>
    simp only [step, Machine.trap] at hs
    split at hs
    · cases hs
    · rename_i c hc
      split_ifs at hs with hrun
      obtain ⟨r, hr, hs⟩ := bind_eq_ok.mp hs
      cases hs
      have hlive : (m.table.envs c).status ≠ .free := by
        rw [not_ne_iff.mp hrun]
        nofun
      have hinv := syscall_inv h hc hlive hf hr
      split_ifs
      · exact hinv.calm (trapReturn_calm hinv.steady)
      · exact hinv

structure Machine.Sound (m : Machine) : Prop where
  freeList : ∃ l, Chain m.table m.table.freeList l ∧ l.Nodup ∧
    ∀ s, s ∈ l ↔ (m.table.envs s).status = .free
  positive : ∀ s, (m.table.envs s).status ≠ .free → 0 < (m.table.envs s).id.toInt
  index : ∀ s, (m.table.envs s).status ≠ .free → envx (m.table.envs s).id = s
  distinct : ∀ s t, (m.table.envs s).status ≠ .free → (m.table.envs t).status ≠ .free →
    (m.table.envs s).id = (m.table.envs t).id → s = t
  running : ∀ s, (m.table.envs s).status = .running → m.table.curenv = some s
  /-- an id is not among the next `2^19 - 2` that its slot hands out -/
  fresh : ∀ s i j, i < j → j ≤ i + (2 ^ 19 - 2) → j < (m.ids s).length → (m.ids s)[i]? ≠ (m.ids s)[j]?
  /-- up to then the id of an environment that is gone is refused -/
  stale : ∀ s i, ∀ id ∈ (m.ids s)[i]?, (i + 1 < (m.ids s).length ∨ (m.table.envs s).status = .free) →
    (m.ids s).length ≤ i + 1 + (2 ^ 19 - 2) → ∀ check, envid2env m.table id check = .badEnv

lemma Machine.Inv.getElem? (h : m.Inv) (hi : i < (m.ids s).length) : (m.ids s)[i]? = some (idAt s i) := by
  rw [h.ids s, getElem?_map, getElem?_range hi]
  rfl

lemma Machine.Inv.stale (h : m.Inv) (hi : i < (m.ids s).length)
    (hgone : i + 1 < (m.ids s).length ∨ (m.table.envs s).status = .free)
    (hnew : (m.ids s).length ≤ i + 1 + (2 ^ 19 - 2)) (check : Bool) :
    envid2env m.table (idAt s i) check = .badEnv := by
  have hne : idAt s i ≠ 0 := by
    intro h0
    have hpos := idAt_pos s i
    rw [h0] at hpos
    exact absurd hpos (by decide)
  have hbad : (m.table.envs s).status = .free ∨ (m.table.envs s).id ≠ idAt s i := by
    rcases hgone with hlater | hfree
    · refine .inr fun hid => ?_
      obtain ⟨n, hn⟩ := Nat.exists_eq_add_of_lt hlater
      rw [h.last, hn] at hid
      exact idAt_inj (by omega) (by unfold idCycle; omega) hid.symm
    · exact .inl hfree
  unfold envid2env
  rw [if_neg hne, envx_idAt]
  exact if_pos hbad

lemma Machine.Inv.sound (h : m.Inv) : m.Sound where
  freeList := h.free
  positive s hs := by
    obtain ⟨n, hn⟩ := h.index hs
    rw [hn]
    exact idAt_pos s n
  index := h.steady.index
  distinct s t hs ht hid := by rw [← h.steady.index s hs, ← h.steady.index t ht, hid]
  running := h.running
  fresh s i j hij hj hlen := by
    rw [h.getElem? (by omega), h.getElem? hlen]
    exact fun heq => idAt_inj hij (by unfold idCycle; omega) (some.inj heq)
  stale s i id hid hgone hnew check := by
    have hi : i < (m.ids s).length := (List.getElem?_eq_some_iff.mp hid).1
    rw [h.getElem? hi] at hid
    cases hid
    exact h.stale hi hgone hnew check

/-- **The table of environments** is sound in every state, as long as every `sys_exofork` finds a
free slot. (The kernel frees, destroys and runs only environments that there are; other steps are none.) -/
theorem table_sound (ops : List Step) (m : Machine) (hrun : run step boot ops = .ok m)
    (hforks : ∀ pre op u, pre ++ [op] <+: ops → run step boot pre = .ok u → Forks u op) :
    m.Sound :=
  (run_inv_when step_inv boot_inv hforks hrun).sound

def forkTwice : List Step :=
  [.envAlloc 0 .user, .envRun firstSlot, .syscall (.exofork .unmapped),
    .syscall (.envSetStatus 0x1001 2), .syscall (.ipcRecv 0x8000000000 0),
    .syscall (.ipcTrySend 0x1000 7 0x8000000000 0 0 .done), .syscall (.envDestroy 0),
    .syscall (.exofork .unmapped)]

theorem table_sound_forkTwice : ∃ m, run step boot forkTwice = .ok m ∧ m.Sound := by
  obtain ⟨m, hrun, -⟩ : ∃ m, run step boot forkTwice = .ok m ∧ m.handed = [0x1000, 0x1001, 0x2001] := by
    decide +kernel
  have hmeets : Meets step Forks boot forkTwice := by decide +kernel
  exact ⟨m, hrun, table_sound forkTwice m hrun hmeets.along⟩

def forkTooOften : List Step :=
  List.replicate 1024 (.envAlloc 0 .user) ++ [.envRun firstSlot, .syscall (.exofork (.before secondSlot))]

lemma run_replicate_envAlloc (n : ℕ) (hn : n ≤ 1024) :
    ∃ m, run step boot (List.replicate n (.envAlloc 0 .user)) = .ok m ∧ m.table.curenv = none ∧
      (m.table.freeList = if h : n < 1024 then some ⟨n, h⟩ else none) ∧
      (∀ s : Slot, n ≤ s.val → (m.table.envs s).link = (envInit.envs s).link) ∧
      ∀ s : Slot, s.val < n → (m.table.envs s).status = .runnable := by
  induction n with
  | zero => exact ⟨boot, rfl, rfl, rfl, fun _ _ => rfl, nofun⟩
  | succ n ih =>
    obtain ⟨m, hrun, hcur, hfree, hlink, hstatus⟩ := ih (by omega)
    have hlt : n < 1024 := hn
    rw [dif_pos hlt] at hfree
    let σ := m.table.modify ⟨n, hlt⟩ fun e =>
      { e with
        id := nextId e.id ⟨n, hlt⟩, parentId := 0, type := .user, status := .runnable, runs := 0
        ipcRecving := false }
    have hother : ∀ s : Slot, s.val ≠ n → σ.envs s = m.table.envs s := fun s hs =>
      m.table.modify_other _ fun heq => hs (congrArg Fin.val heq)
    refine ⟨⟨{ σ with freeList := (m.table.envs ⟨n, hlt⟩).link }, m.handed ++ [(σ.envs ⟨n, hlt⟩).id]⟩,
      ?_, hcur, hlink ⟨n, hlt⟩ le_rfl, fun s hs => ?_, fun s hs => ?_⟩
    · rw [replicate_succ', run_snoc_ok hrun]
      simp only [step, envAlloc, hfree]
      rfl
    · exact (congrArg Env.link (hother s (by omega))).trans (hlink s (by omega))
    · rcases Nat.lt_succ_iff_lt_or_eq.mp hs with hs | heq
      · exact (congrArg Env.status (hother s (by omega))).trans (hstatus s hs)
      · obtain rfl : s = ⟨n, hlt⟩ := Fin.ext heq
        rw [Table.modify_same]

theorem exofork_breaks_ids : ∃ m, run step boot forkTooOften = .ok m ∧ ¬m.Sound := by
  obtain ⟨m, hrun, hcur, hfree, -, hstatus⟩ := run_replicate_envAlloc 1024 le_rfl
  -- the first environment runs
  have hleave : leave m.table = m.table := by simp only [leave, hcur]
  have hfirst : step m (.envRun 0) = .ok { m with table := switchTo 0 m.table } := by
    simp [step, Machine.withEnv, hstatus 0 (by decide), envRun, hcur, hleave]
  -- and forks, without a free slot
  let σ := (switchTo 0 m.table).modify 1 ({ · with id := 4 })
  have hσ : (σ.envs 0).status = .running := by simp [σ, Table.modify_other, switchTo]
  have hfork : step { m with table := switchTo 0 m.table } (.syscall (.exofork (.before 1))) =
      .ok { m with table := envRun 0 σ } := by
    have hnone : (switchTo 0 m.table).freeList = none := hfree
    have hrunning : ((switchTo 0 m.table).envs 0).status = .running := by simp [switchTo]
    have htrap : trapReturn σ = envRun 0 σ := by
      simp only [trapReturn, show σ.curenv = some 0 from rfl, hσ, if_true]
    simp only [step, Machine.trap, show (switchTo 0 m.table).curenv = some 0 from rfl, hrunning,
      syscall, sysExofork, envAlloc, hnone, ok_bind, append_nil, isSome_some, if_true,
      ne_eq, not_true_eq_false, if_false]
    rw [← htrap]
  refine ⟨{ m with table := envRun 0 σ }, ?_, fun hs => ?_⟩
  · rw [forkTooOften, show firstSlot = 0 from rfl, show secondSlot = 1 from rfl,
      run_append_ok hrun, run_cons_ok hfirst, run_cons_ok hfork, run_nil]
  · have hone : (envRun 0 σ).envs 1 = σ.envs 1 := by
      simp [envRun, hσ, show σ.curenv = some 0 from rfl, switchTo, leave, Table.setStatus,
        Table.modify_other]
    have hlive : (σ.envs 1).status ≠ .free := by
      simp [σ, switchTo, Table.modify_other, hstatus 1 (by decide)]
    have hindex := hs.index 1 (by rwa [hone])
    dsimp only at hindex
    rw [hone] at hindex
    simp [σ] at hindex
    exact absurd hindex (by decide)

end Jos.EnvTable
