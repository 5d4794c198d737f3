import Mathlib.Data.UInt
import Mathlib.Data.List.Basic

/-!
The measurement of the processor's frequency against the power-management timer.

`pmtimer_cpu_frequency` widens the difference of two 32-bit readings to 64 bits before it looks for a
wrapped counter. Its first test then holds of equal readings only, and its second adds to a difference that
may be right already.
-/

namespace Jos.PmTimer

open UInt64

/-- `PM_FREQ` -/
def pmFreq : UInt64 := 3579545

/-- `PM_FREQ / time_res` -/
def target : UInt64 := pmFreq / 100

/-- One round of the loop -/
def delta (tick0 tick1 : UInt32) : UInt64 :=
  let delta := (tick1 - tick0).toUInt64
  if -delta ≤ 0xFFFFFF then delta + 0xFFFFFF
  else if tick0 > tick1 then delta + 0xFFFFFFFF
  else delta

/-- What `delta` is in each round of the loop -/
def deltas (tick0 : UInt32) : List UInt32 → List UInt64
  | [] => []
  | tick1 :: ticks =>
    delta tick0 tick1 :: if delta tick0 tick1 < target then deltas tick0 ticks else []

/-- `pmtimer_cpu_frequency`, unless there are too few readings for the loop to end -/
def pmtimerCpuFrequency (tsc0 tsc1 : UInt64) (tick0 : UInt32) (ticks : List UInt32) : Option UInt64 :=
  ((deltas tick0 ticks).find? (target ≤ ·)).map fun delta => (tsc1 - tsc0) * pmFreq / delta

/-- A counter of 24 or 32 bits, its first value, and how far it has come at each later reading. -/
structure Counter where
  width : ℕ
  start : ℕ
  elapsed : List ℕ
  width_eq : width = 24 ∨ width = 32
  start_lt : start < 2 ^ width
  sorted : elapsed.Pairwise (· ≤ ·)
  elapsed_lt : ∀ e ∈ elapsed, e < 2 ^ width

variable {c : Counter} {e : ℕ}

def Counter.tick (c : Counter) (e : ℕ) : UInt32 := UInt32.ofNat ((c.start + e) % 2 ^ c.width)

/-- The counts up to the first that reaches the target -/
def upToTarget : List ℕ → List ℕ
  | [] => []
  | e :: es => e :: if e < target.toNat then upToTarget es else []

lemma toNat_tick (c : Counter) (e : ℕ) : (c.tick e).toNat = (c.start + e) % 2 ^ c.width := by
  have hw := c.width_eq
  rw [Counter.tick, UInt32.toNat_ofNat', Nat.mod_eq_of_lt]
  rcases hw with h | h <;> rw [h] <;> omega

lemma toNat_delta (tick0 tick1 : UInt32) : (delta tick0 tick1).toNat =
    if tick0.toNat = tick1.toNat then 0xFFFFFF
    else if tick0.toNat < tick1.toNat then tick1.toNat - tick0.toNat
    else 2 ^ 33 - 1 - (tick0.toNat - tick1.toNat) := by
  have hd : (tick1 - tick0).toUInt64.toNat = (2 ^ 32 - tick0.toNat + tick1.toNat) % 2 ^ 32 := by
    rw [UInt32.toNat_toUInt64, UInt32.toNat_sub]
  have h0 := tick0.toNat_lt
  have h1 := tick1.toNat_lt
  unfold delta
  simp only [le_iff_toNat_le, toNat_neg, gt_iff_lt, UInt32.lt_iff_toNat_lt]
  split_ifs <;> simp only [UInt64.toNat_add, hd, UInt64.reduceToNat, UInt64.size] at * <;> omega

/-- A reading is measured where the counter has moved and has not wrapped around. -/
lemma delta_eq_iff (he : e < 2 ^ c.width) :
    (delta (c.tick 0) (c.tick e)).toNat = e ↔ 0 < e ∧ c.start + e < 2 ^ c.width := by
  have hs := c.start_lt
  rw [toNat_delta, toNat_tick, toNat_tick, Nat.add_zero, Nat.mod_eq_of_lt hs]
  rcases c.width_eq with h | h <;> rw [h] at hs he ⊢ <;> split_ifs <;> omega

lemma deltas_map_eq_iff : ∀ {es : List ℕ}, (∀ e ∈ es, e < 2 ^ c.width) →
    ((deltas (c.tick 0) (es.map c.tick)).map UInt64.toNat = upToTarget es ↔
      ∀ e ∈ upToTarget es, 0 < e ∧ c.start + e < 2 ^ c.width)
  | [], _ => by simp [deltas, upToTarget]
  | e :: es, h => by
    have he := delta_eq_iff (h e (by simp))
    have ih := deltas_map_eq_iff fun x hx => h x (List.mem_cons_of_mem _ hx)
    simp only [List.map_cons, deltas, upToTarget, List.cons.injEq, List.forall_mem_cons, he]
    refine and_congr_right fun hd => ?_
    simp only [lt_iff_toNat_lt, he.mpr hd]
    split
    · exact ih
    · simp

/-- The loop measures what has elapsed, and ends where that reaches the target, exactly when the readings
it makes differ from the first and come before the counter wraps around. -/
theorem deltas_eq_iff (c : Counter) :
    (deltas (c.tick 0) (c.elapsed.map c.tick)).map UInt64.toNat = upToTarget c.elapsed ↔
      ∀ e ∈ upToTarget c.elapsed, 0 < e ∧ c.start + e < 2 ^ c.width :=
  deltas_map_eq_iff c.elapsed_lt

/-- A counter that has not moved at the second reading -/
def unmoved : Counter :=
  ⟨24, 5, [0, 35795], .inl rfl, by decide, by decide, by decide⟩

theorem deltas_unmoved :
    upToTarget unmoved.elapsed = [0, 35795] ∧
      deltas (unmoved.tick 0) (unmoved.elapsed.map unmoved.tick) = [0xFFFFFF] := by
  decide

end Jos.PmTimer
