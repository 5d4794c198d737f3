import Mathlib.Data.List.Induction
import Mathlib.Data.List.Nodup
import Mathlib.Logic.Function.Basic
import Mathlib.Tactic.Linarith

/-!
The handlers of page faults of a user program.

A handler that is removed is to be overwritten by those behind it, but `sizeof(*handler)` is the size of a
function, which is one: of each of them a single byte is moved. And whether a handler has been added is
forgotten before `add_pgfault_handler` returns.
-/

namespace Jos.PgFault

open List Function

def maxPfhandler : ℕ := 8

/-- `_pfhandler_vec`, `_pfhandler_off` and `_pfhandler_inititiallized`; handlers are addresses. -/
structure Vec where
  vec : ℕ → ℕ
  off : ℕ
  init : Bool

inductive Call
  | add (handler : ℕ)
  | remove (handler : ℕ)

def boot : Vec := ⟨fun _ => 0, 0, false⟩

def Vec.entries (v : Vec) : List ℕ := (List.range v.off).map v.vec

/-- `add_pgfault_handler`, where the system calls succeed -/
def addPgfaultHandler (handler : ℕ) (v : Vec) : Vec × ℤ :=
  if !v.init then (⟨Function.update v.vec v.off handler, v.off + 1, true⟩, 0)
  else if handler ∈ v.entries then (v, 0)
  -- the `-E_INVAL` of a full vector is overwritten by the result of `sys_env_set_pgfault_upcall`
  else if v.off = maxPfhandler then (v, 0)
  else ({ v with vec := Function.update v.vec v.off handler, off := v.off + 1 }, 0)

/-- The word `x` after its `k` lowest bytes have been overwritten with those of `y` -/
def overwrite (k x y : ℕ) : ℕ := x / 256 ^ k * 256 ^ k + y % 256 ^ k

/-- `remove_pgfault_handler`; `memmove` moves as many bytes as there are handlers behind the one removed. -/
def removePgfaultHandler (handler : ℕ) (v : Vec) : Vec :=
  let i := v.entries.idxOf handler
  if i < v.off then
    { v with vec := Function.update v.vec i (overwrite (v.off - i - 1) (v.vec i) (v.vec (i + 1))), off := v.off - 1 }
  else v

def step (v : Vec) : Call → Vec × ℤ
  | .add handler => addPgfaultHandler handler v
  | .remove handler => (removePgfaultHandler handler v, 0)

/-- The handlers that `_handle_vectored_pagefault` calls, by what they return -/
def called (handles : ℕ → Bool) : List ℕ → List ℕ
  | [] => []
  | h :: hs => h :: if handles h then [] else called handles hs

def run (h : ℕ) (cs : List Call) : Vec := cs.foldl (fun v c => (step v c).1) (step boot (.add h)).1

def register (l : List ℕ) : Call → List ℕ
  | .add h => if h ∈ l ∨ l.length = maxPfhandler then l else l ++ [h]
  | .remove h => l.erase h

def registered (h : ℕ) (cs : List Call) : List ℕ := cs.foldl register [h]

def Refused (l : List ℕ) : Call → Prop
  | .add h => h ∉ l ∧ l.length = maxPfhandler
  | .remove _ => False

structure Correct (v : Vec) (l : List ℕ) : Prop where
  entries : v.entries = l
  nodup : l.Nodup
  le : l.length ≤ maxPfhandler
  calls : ∀ handles, called handles v.entries = l.takeWhile (!handles ·) ++ (l.dropWhile (!handles ·)).take 1

/-- Nothing new is added to a full vector; behind a handler that is removed there is at most one, which
differs in the lowest byte only. -/
def Meets (l : List ℕ) : Call → Prop
  | .add h => h ∈ l ∨ l.length < maxPfhandler
  | .remove h => (l.drop (l.idxOf h + 1)).length ≤ 1 ∧ ∀ h' ∈ l.drop (l.idxOf h + 1), h / 256 = h' / 256

variable {v : Vec} {l : List ℕ} {h : ℕ} {cs : List Call} {c : Call}

lemma called_eq (handles : ℕ → Bool) (l : List ℕ) :
    called handles l = l.takeWhile (!handles ·) ++ (l.dropWhile (!handles ·)).take 1 := by
  induction l with
  | nil => rfl
  | cons h l ih => by_cases hh : handles h <;> simp [called, hh, ih]

lemma correct_iff (hl : l.Nodup ∧ l.length ≤ maxPfhandler) : Correct v l ↔ v.entries = l :=
  ⟨Correct.entries, fun h => ⟨h, hl.1, hl.2, fun handles => h ▸ called_eq handles _⟩⟩

lemma register_ok (hl : l.Nodup ∧ l.length ≤ maxPfhandler) (c : Call) :
    (register l c).Nodup ∧ (register l c).length ≤ maxPfhandler := by
  cases c with
  | add h =>
    by_cases hc : h ∈ l ∨ l.length = maxPfhandler
    · simpa [register, hc] using hl
    · have hlt : l.length + 1 ≤ maxPfhandler := by have := hl.2; omega
      simp only [not_or] at hc
      refine ⟨?_, by simpa [register, hc] using hlt⟩
      simp [register, hc, nodup_append, hl.1]
      rintro a ha rfl
      exact hc.1 ha
  | remove h => exact ⟨hl.1.erase h, (erase_sublist.length_le).trans hl.2⟩

lemma entries_append (v : Vec) (x : ℕ) :
    (⟨Function.update v.vec v.off x, v.off + 1, true⟩ : Vec).entries = v.entries ++ [x] := by
  simp only [Vec.entries, range_succ, map_append, map_cons, map_nil, update_self]
  congr 1
  exact map_congr_left fun i hi => update_of_ne (mem_range.mp hi).ne ..

lemma length_entries (v : Vec) : v.entries.length = v.off := by simp [Vec.entries]

lemma entries_remove {l₁ l₂ : List ℕ} (hv : v.entries = l₁ ++ h :: l₂) (hh : h ∉ l₁) :
    (removePgfaultHandler h v).entries =
      l₁ ++ (overwrite l₂.length h (v.vec (l₁.length + 1)) :: l₂).take l₂.length := by
  have hoff : v.off = l₁.length + (l₂.length + 1) := by rw [← length_entries, hv]; simp
  have hidx : v.entries.idxOf h = l₁.length := by simp [hv, idxOf_append, hh]
  have hset : ∀ i x, (range v.off).map (update v.vec i x) = v.entries.set i x := fun i x =>
    ext_getElem (by simp [Vec.entries]) fun j h1 h2 => by
      simp [Vec.entries, getElem_set, update_apply, eq_comm]
  have hvec : v.vec l₁.length = h := by
    have hget : v.entries[l₁.length]? = some h := by simp [hv]
    simpa [Vec.entries, hoff] using hget
  have htake : range (v.off - 1) = (range v.off).take (l₁.length + l₂.length) := by
    rw [take_range]
    congr 1
    omega
  simp only [removePgfaultHandler, hidx, show l₁.length < v.off by omega, if_true]
  rw [Vec.entries, htake, map_take, hset, hvec, hv]
  simp [hoff, take_append, take_of_length_le]

/-- **A step is right** exactly if it meets the condition. -/
lemma step_iff (hv : v.entries = l) (hinit : v.init = true) (hl : l.Nodup ∧ l.length ≤ maxPfhandler) :
    Correct (step v c).1 (register l c) ∧ ((step v c).2 < 0 ↔ Refused l c) ↔ Meets l c := by
  have hoff : v.off = l.length := by rw [← length_entries, hv]
  rw [correct_iff (register_ok hl c)]
  cases c with
  | add h =>
    by_cases hmem : h ∈ l
    · simp [step, addPgfaultHandler, hinit, hv, hmem, register, Refused, Meets]
    · by_cases hfull : l.length = maxPfhandler
      · simp [step, addPgfaultHandler, hinit, hv, hoff, hmem, hfull, register, Refused, Meets]
      · have hlt : l.length < maxPfhandler := lt_of_le_of_ne hl.2 hfull
        have happ := entries_append v h
        simp [hoff, hv] at happ
        simp [step, happ, addPgfaultHandler, hinit, hv, hoff, hmem, hfull, register, Refused, Meets, hlt]
  | remove h =>
    have hret : ¬(step v (.remove h)).2 < 0 := lt_irrefl 0
    by_cases hmem : h ∈ l
    · obtain ⟨l₁, l₂, rfl⟩ := append_of_mem hmem
      have hh : h ∉ l₁ := fun hin => by
        have := nodup_append.mp hl.1
        exact this.2.2 h hin h mem_cons_self rfl
      have hidx : (l₁ ++ h :: l₂).idxOf h = l₁.length := by simp [idxOf_append, hh]
      have hrem : (step v (.remove h)).1.entries = _ := entries_remove hv hh
      simp only [hrem, hret, register, Refused, Meets, hidx, erase_append_right _ hh, erase_cons_head,
        append_cancel_left_eq, drop_length_add_append]
      match l₂ with
      | [] => simp
      | [y] =>
        have hy : v.vec (l₁.length + 1) = y := by
          have hget : v.entries[l₁.length + 1]? = some y := by simp [hv]
          simpa [Vec.entries, hoff] using hget
        simp [hy, overwrite]
        omega
      | y :: z :: r =>
        have hne : y ≠ z := by
          rintro rfl
          simpa using (nodup_append.mp hl.1).2.1
        simp [hne]
    · have hidx : v.entries.idxOf h = v.off := by rw [hv, hoff, idxOf_of_notMem hmem]
      have hsame : (step v (.remove h)).1 = v := by simp [step, removePgfaultHandler, hidx]
      simp [hsame, hv, hret, register, Refused, Meets, erase_of_not_mem hmem, idxOf_of_notMem hmem, drop_eq_nil_of_le]

lemma run_snoc : run h (cs ++ [c]) = (step (run h cs) c).1 := by simp [run]

lemma registered_snoc : registered h (cs ++ [c]) = register (registered h cs) c := by simp [registered]

lemma run_init : (run h cs).init = true := by
  induction cs using reverseRecOn with
  | nil => rfl
  | append_singleton cs c ih =>
    rw [run_snoc]
    cases c <;> simp only [step, addPgfaultHandler, removePgfaultHandler] <;> split_ifs <;> simp_all

lemma correct_nil (h : ℕ) : Correct (run h []) (registered h []) := by
  refine (correct_iff ⟨nodup_singleton h, by simp [maxPfhandler]⟩).mpr ?_
  simp [run, step, addPgfaultHandler, boot, Vec.entries]

/-- **The registry holds the handlers that have been added and not removed**, and an addition returns a
negative value when it does not fit, along exactly the sequences of calls each of which meets the
condition. -/
theorem pgfault_registry_iff (h : ℕ) (cs : List Call) :
    (∀ pre, pre <+: cs → Correct (run h pre) (registered h pre)) ∧
        (∀ pre c, pre ++ [c] <+: cs → ((step (run h pre) c).2 < 0 ↔ Refused (registered h pre) c)) ↔
      ∀ pre c, pre ++ [c] <+: cs → Meets (registered h pre) c := by
  have hstep : ∀ pre c, Correct (run h pre) (registered h pre) →
      (Correct (run h (pre ++ [c])) (registered h (pre ++ [c])) ∧
          ((step (run h pre) c).2 < 0 ↔ Refused (registered h pre) c) ↔ Meets (registered h pre) c) :=
    fun pre c hc => by
      rw [run_snoc, registered_snoc]
      exact step_iff hc.entries run_init ⟨hc.nodup, hc.le⟩
  constructor
  · rintro ⟨hcor, hret⟩ pre c hpre
    exact (hstep pre c (hcor pre ((prefix_append pre [c]).trans hpre))).mp ⟨hcor _ hpre, hret pre c hpre⟩
  · intro hmeets
    have hcor : ∀ pre, pre <+: cs → Correct (run h pre) (registered h pre) := fun pre => by
      induction pre using reverseRecOn with
      | nil => exact fun _ => correct_nil h
      | append_singleton pre c ih => exact fun hpre =>
          ((hstep pre c (ih ((prefix_append pre [c]).trans hpre))).mpr (hmeets pre c hpre)).1
    exact ⟨hcor, fun pre c hpre =>
      ((hstep pre c (hcor pre ((prefix_append pre [c]).trans hpre))).mpr (hmeets pre c hpre)).2⟩

/-- Of three handlers the first is removed: the second stands twice in what is left, its copy being the
first with two bytes overwritten. And a ninth handler is dropped with the result 0. -/
theorem handlers_mixed_up :
    (run 0x800010 [.add 0x801020, .add 0x801030, .remove 0x800010]).entries = [0x801020, 0x801020] ∧
      registered 0x800010 [.add 0x801020, .add 0x801030, .remove 0x800010] = [0x801020, 0x801030] ∧
      (step (run 1 ([2, 3, 4, 5, 6, 7, 8].map .add)) (.add 9)).2 = 0 ∧
      9 ∉ (step (run 1 ([2, 3, 4, 5, 6, 7, 8].map .add)) (.add 9)).1.entries := by
  refine ⟨?_, by decide, by decide, by decide⟩
  simp [run, step, addPgfaultHandler, removePgfaultHandler, boot, Vec.entries, overwrite, maxPfhandler]
  decide

end Jos.PgFault
