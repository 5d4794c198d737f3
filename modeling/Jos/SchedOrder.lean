import Mathlib.Data.List.Rotate
import Jos.IpcOnce

/-!
Which environment `sched_yield` runs, against one that goes around the table.
-/

namespace Jos.EnvTable

open Runs List Option

variable {σ σ' : Table} {c s t : Slot}

def ahead (c s : Slot) : ℕ := (s - c).val

/-- The slots from one on, as the two loops of `sched_yield` go through them -/
def orderFrom (c : Slot) : List Slot := (List.finRange 1024).drop c ++ (List.finRange 1024).take c

lemma orderFrom_eq_rotate (c : Slot) : orderFrom c = (List.finRange 1024).rotate c := by
  rw [rotate_eq_drop_append_take (by rw [length_finRange]; exact c.isLt.le)]
  rfl

lemma length_orderFrom (c : Slot) : (orderFrom c).length = 1024 := by
  rw [orderFrom_eq_rotate, length_rotate, length_finRange]

lemma ahead_getElem {k : ℕ} (c : Slot) (hk : k < (orderFrom c).length) : ahead c (orderFrom c)[k] = k := by
  have hlen := length_orderFrom c
  have hget : ((orderFrom c)[k] : Slot).val = (k + c) % (finRange 1024).length := by
    rw [getElem_of_eq (orderFrom_eq_rotate c) hk, getElem_rotate, getElem_finRange]
    rfl
  rw [ahead, Fin.val_sub, hget, length_finRange]
  have := c.isLt
  omega

lemma ahead_inj (h : ahead c s = ahead c t) : s = t := by
  unfold ahead at h
  rw [Fin.val_sub, Fin.val_sub] at h
  ext
  omega

lemma mem_orderFrom (c s : Slot) : s ∈ orderFrom c := by
  rw [orderFrom_eq_rotate, mem_rotate]
  exact mem_finRange s

lemma find_orderFrom {p : Slot → Bool} (h : (orderFrom c).find? p = some s) :
    p s = true ∧ ∀ t, p t = true → ahead c s ≤ ahead c t := by
  obtain ⟨hp, i, hi, rfl, hbefore⟩ := find?_eq_some_iff_getElem.mp h
  refine ⟨hp, fun t ht => ?_⟩
  obtain ⟨j, hj, rfl⟩ := mem_iff_getElem.mp (mem_orderFrom c t)
  rw [ahead_getElem, ahead_getElem]
  by_contra hlt
  have := hbefore j (by omega)
  rw [ht] at this
  cases this

def Table.place (σ : Table) : Slot := σ.curenv.getD firstSlot

structure Table.IsNext (σ : Table) (s : Slot) : Prop where
  other : some s ≠ σ.curenv
  runnable : (σ.envs s).status = .runnable
  first : ∀ t, some t ≠ σ.curenv → (σ.envs t).status = .runnable → ahead σ.place s ≤ ahead σ.place t

def Table.Alone (σ : Table) : Prop := ∀ t, some t ≠ σ.curenv → (σ.envs t).status ≠ .runnable

/-- **Round robin**: the next environment is run, or else the current one, or else the processor is halted.
-/
inductive Table.RoundRobin (σ : Table) : Table → Prop
  | next {s : Slot} (h : σ.IsNext s) : σ.RoundRobin (switchTo s (leave σ))
  | same {c : Slot} (h : σ.Alone) (hc : σ.curenv = some c) (hr : (σ.envs c).status.Ready) :
    σ.RoundRobin (switchTo c (leave σ))
  | halt (h : σ.Alone) (hc : ∀ c ∈ σ.curenv, ¬ (σ.envs c).status.Ready) : σ.RoundRobin (schedHalt σ)

def Table.Indexed (σ : Table) : Prop := ∀ c ∈ σ.curenv, envx (σ.envs c).id = c
  deriving Decidable

/-- The current environment is runnable only if no other one is; without one, the first slot is not running,
unless some other is runnable. -/
def Table.InTurn (σ : Table) : Prop :=
  (∀ c ∈ σ.curenv, (σ.envs c).status = .runnable → σ.Alone) ∧
    (σ.curenv = none → (σ.envs firstSlot).status = .running → ¬ σ.Alone)

lemma pick_eq (h : σ.Indexed) : pick σ = ((orderFrom σ.place).find? fun s => (σ.envs s).status = .runnable).or
      (if (σ.envs σ.place).status = .running then some σ.place else none) := by
  unfold pick Table.place
  cases hc : σ.curenv with
  | none => rfl
  | some c =>
    dsimp only
    rw [h c hc]
    rfl

lemma schedYield_of_pick (h : pick σ = some s) : schedYield σ = switchTo s (leave σ) := by
  unfold schedYield schedYieldWith
  rw [h]
  dsimp only
  refine if_neg fun ⟨c, _, hdying, hcs⟩ => ?_
  subst hcs
  rcases pick_ready h with hr | hr
  all_goals
    rw [hr] at hdying
    cases hdying

lemma schedYield_of_pick_none (h : pick σ = none) : schedYield σ = schedHalt σ := by
  unfold schedYield schedYieldWith
  rw [h]

lemma place_of_curenv (h : σ.curenv = some c) : σ.place = c := by
  unfold Table.place
  rw [h]
  rfl

lemma pick_of_runnable (h : σ.Indexed) (hc : σ.curenv = some c) (hr : (σ.envs c).status = .runnable) :
    pick σ = some c := by
  rw [pick_eq h]
  cases hf : (orderFrom σ.place).find? fun s => (σ.envs s).status = .runnable with
  | none =>
    have := find?_eq_none.mp hf c (mem_orderFrom _ c)
    exact absurd hr (by simpa using this)
  | some s =>
    obtain ⟨-, hfirst⟩ := find_orderFrom hf
    have hle := hfirst c (by simpa using hr)
    rw [place_of_curenv hc] at hle
    have h0 : ahead c c = 0 := by
      unfold ahead
      rw [sub_self]
      rfl
    have : s = c := ahead_inj (c := c) (by omega)
    rw [this]
    rfl

lemma roundRobin_of_inTurn (h : σ.Indexed) (hturn : σ.InTurn) : σ.RoundRobin (schedYield σ) := by
  have hpick := pick_eq h
  cases hf : (orderFrom σ.place).find? fun s => (σ.envs s).status = .runnable with
  | some s =>
    obtain ⟨hr, hfirst⟩ := find_orderFrom hf
    have hr : (σ.envs s).status = .runnable := of_decide_eq_true hr
    rw [hf, some_or] at hpick
    rw [schedYield_of_pick hpick]
    by_cases hc : some s = σ.curenv
    · exact .same (hturn.1 s hc.symm hr) hc.symm (.inl hr)
    · exact .next ⟨hc, hr, fun t _ ht => hfirst t (decide_eq_true ht)⟩
  | none =>
    have hno : ∀ t, (σ.envs t).status ≠ .runnable := fun t ht =>
      find?_eq_none.mp hf t (mem_orderFrom _ t) (decide_eq_true ht)
    have halone : σ.Alone := fun t _ => hno t
    rw [hf, none_or] at hpick
    by_cases hrun : (σ.envs σ.place).status = .running
    · rw [if_pos hrun] at hpick
      rw [schedYield_of_pick hpick]
      cases hc : σ.curenv with
      | none =>
        unfold Table.place at hrun
        rw [hc] at hrun
        exact absurd halone (hturn.2 hc hrun)
      | some c =>
        rw [place_of_curenv hc] at hrun ⊢
        exact .same halone hc (.inr hrun)
    · rw [if_neg hrun] at hpick
      rw [schedYield_of_pick_none hpick]
      refine .halt halone fun c hc hready => ?_
      rw [place_of_curenv hc] at hrun
      rcases hready with hr | hr
      · exact hno c hr
      · exact hrun hr

lemma curenv_switchTo (s : Slot) (σ : Table) : (switchTo s σ).curenv = some s := rfl

lemma not_roundRobin_of_runnable (h : σ.Indexed) (hc : σ.curenv = some c) (hr : (σ.envs c).status = .runnable)
    (hother : ¬ σ.Alone) : ¬ σ.RoundRobin (schedYield σ) := by
  rw [schedYield_of_pick (pick_of_runnable h hc hr)]
  intro hrr
  generalize hσ' : switchTo c (leave σ) = σ' at hrr
  cases hrr with
  | next hs =>
    have := congrArg Table.curenv hσ'
    rw [curenv_switchTo, curenv_switchTo, ← hc] at this
    exact hs.other this.symm
  | same halone | halt halone => exact hother halone

lemma not_roundRobin_of_none (h : σ.Indexed) (hc : σ.curenv = none)
    (hrun : (σ.envs firstSlot).status = .running) (halone : σ.Alone) : ¬ σ.RoundRobin (schedYield σ) := by
  have hno : ∀ t, (σ.envs t).status ≠ .runnable := fun t => halone t (by rw [hc]; exact some_ne_none t)
  have hplace : σ.place = firstSlot := by
    unfold Table.place
    rw [hc]
    rfl
  have hpick : pick σ = some firstSlot := by
    rw [pick_eq h, find?_eq_none.mpr fun t _ => by simpa using hno t, none_or, hplace, if_pos hrun]
  rw [schedYield_of_pick hpick]
  intro hrr
  generalize hσ' : switchTo firstSlot (leave σ) = σ' at hrr
  cases hrr with
  | next hs => exact hno _ hs.runnable
  | same _ hcur =>
    rw [hc] at hcur
    cases hcur
  | halt =>
    have := congrArg Table.curenv hσ'
    rw [curenv_switchTo, schedHalt] at this
    split at this
    · rw [hc] at this
      cases this
    · cases this

/-- **Scheduling goes around the table** exactly if the current environment is not itself runnable while
another one is. -/
theorem sched_yield_round_robin (h : σ.Indexed) : σ.RoundRobin (schedYield σ) ↔ σ.InTurn := by
  refine ⟨fun hrr => ⟨fun c hc hr => ?_, fun hc hrun halone => ?_⟩, roundRobin_of_inTurn h⟩
  · by_contra hother
    exact not_roundRobin_of_runnable h hc hr hother hrr
  · exact not_roundRobin_of_none h hc hrun halone hrr

/-- The second environment is next when the first one yields. -/
theorem sched_yield_round_robin_twoEnvs :
    ∃ m, run step boot twoEnvs = .ok m ∧ m.table.curenv = some firstSlot ∧
      m.table.RoundRobin (schedYield m.table) := by
  have hrun : ∃ m, run step boot twoEnvs = .ok m ∧ m.table.Indexed ∧ m.table.curenv = some firstSlot ∧
      (m.table.envs firstSlot).status = .running := by decide +kernel
  obtain ⟨m, hm, hi, hc, hs⟩ := hrun
  refine ⟨m, hm, hc, (sched_yield_round_robin hi).mpr ⟨fun c hcur hr => ?_, fun hnone => ?_⟩⟩
  · obtain rfl := some.inj (hc.symm.trans hcur)
    rw [hs] at hr
    cases hr
  · rw [hc] at hnone
    cases hnone

/-- The first of two environments makes itself runnable: `trap` then asks the scheduler, which runs it
again. -/
theorem runnable_runs_again :
    ∃ m σ, run step boot twoEnvs = .ok m ∧ sysEnvSetStatus 0 2 m.table = .ok (σ, some 0) ∧
      (σ.envs secondSlot).status = .runnable ∧ (schedYield σ).curenv = some firstSlot ∧
      ¬ σ.RoundRobin (schedYield σ) := by
  have hrun : ∃ m, run step boot twoEnvs = .ok m ∧ m.table.Indexed ∧ m.table.curenv = some firstSlot ∧
      (m.table.envs secondSlot).status = .runnable := by decide +kernel
  obtain ⟨m, hm, hi, hc, hs⟩ := hrun
  set σ := m.table.setStatus firstSlot .runnable with hσ
  have hcσ : σ.curenv = some firstSlot := hc
  have hrσ : (σ.envs firstSlot).status = .runnable := by
    rw [hσ, Table.setStatus, Table.modify_same]
  have hsσ : (σ.envs secondSlot).status = .runnable := by
    rw [hσ, Table.setStatus, Table.modify_other _ _ (by decide), hs]
  have hiσ : σ.Indexed := fun c hcur => by
    obtain rfl := some.inj (hcσ.symm.trans hcur)
    rw [hσ, Table.setStatus, Table.modify_same]
    exact hi firstSlot hc
  refine ⟨m, σ, hm, ?_, hsσ, ?_, ?_⟩
  · unfold sysEnvSetStatus envid2env
    rw [if_pos rfl, hc]
    rfl
  · rw [schedYield_of_pick (pick_of_runnable hiσ hcσ hrσ), curenv_switchTo]
  · exact not_roundRobin_of_runnable hiσ hcσ hrσ fun halone => halone secondSlot (by rw [hcσ]; decide) hsσ

end Jos.EnvTable
