import Mathlib.Data.Nat.ModEq
import Mathlib.Data.UInt
import Mathlib.Algebra.BigOperators.Group.List.Basic
import Mathlib.Algebra.Group.Nat.Even
import Mathlib.Tactic.Ring

/-!
One's-complement sums.

Words between `0` and `M` are added with end-around carry: a sum above `M` loses `M`. Such a
sum is `0` when the sum of the words is, and otherwise its representative modulo `M` between `1` and
`M`. The Internet checksum has `M = 0xffff` and reads its words off a byte string, high byte first.
-/

namespace Jos.OnesSum

open Nat

section Carry

variable (M : ℕ)

def eac (a b : ℕ) : ℕ := if M < a + b then a + b - M else a + b

def onesSum (ws : List ℕ) : ℕ := ws.foldl (eac M) 0

def rep (n : ℕ) : ℕ := if n = 0 then 0 else (n - 1) % M + 1

@[simp] lemma rep_zero : rep M 0 = 0 := rfl

variable {M}

lemma rep_of_pos {n : ℕ} (h : 0 < n) : rep M n = (n - 1) % M + 1 := if_neg (by omega)

lemma rep_of_le {n : ℕ} (h : n ≤ M) : rep M n = n := by
  rcases Nat.eq_zero_or_pos n with rfl | hn
  · rfl
  · rw [rep_of_pos hn, mod_eq_of_lt (by omega)]; omega

lemma rep_le (hM : 0 < M) (n : ℕ) : rep M n ≤ M := by
  unfold rep
  have := mod_lt (n - 1) hM
  split <;> omega

lemma rep_pos {n : ℕ} (h : 0 < n) : 0 < rep M n := by
  rw [rep_of_pos h]; omega

lemma rep_add_self {n : ℕ} (h : 0 < n) : rep M (n + M) = rep M n := by
  rw [rep_of_pos h, rep_of_pos (by omega), show n + M - 1 = n - 1 + M by omega, add_mod_right]

lemma rep_modEq (n : ℕ) : rep M n ≡ n [MOD M] := by
  rcases Nat.eq_zero_or_pos n with rfl | hn
  · rfl
  · rw [rep_of_pos hn]
    have h := (mod_modEq (n - 1) M).add_right 1
    rwa [Nat.sub_add_cancel hn] at h

lemma rep_eq_max_iff (hM : 0 < M) (n : ℕ) : rep M n = M ↔ 0 < n ∧ M ∣ n := by
  constructor
  · intro h
    have hn : 0 < n := by
      rcases Nat.eq_zero_or_pos n with rfl | hn
      · rw [rep_zero] at h; omega
      · exact hn
    refine ⟨hn, ?_⟩
    have h2 : M ≡ n [MOD M] := by have := rep_modEq (M := M) n; rwa [h] at this
    exact (modEq_zero_iff_dvd.mp (h2.symm.trans (modEq_zero_iff_dvd.mpr dvd_rfl)))
  · rintro ⟨hn, k, rfl⟩
    obtain ⟨k, rfl⟩ : ∃ j, k = j + 1 := ⟨k - 1, by
      rcases Nat.eq_zero_or_pos k with rfl | hk
      · simp at hn
      · omega⟩
    rw [rep_of_pos hn, show M * (k + 1) - 1 = M - 1 + M * k by rw [mul_succ]; omega,
      add_mul_mod_self_left, mod_eq_of_lt (by omega)]
    omega

lemma rep_congr {a b : ℕ} (ha : 0 < a) (hb : 0 < b) (h : a ≡ b [MOD M]) : rep M a = rep M b := by
  rw [rep_of_pos ha, rep_of_pos hb]
  congr 1
  refine Nat.ModEq.add_right_cancel' 1 ?_
  rwa [Nat.sub_add_cancel ha, Nat.sub_add_cancel hb]

lemma eac_rep (hM : 0 < M) (n w : ℕ) (hw : w ≤ M) : eac M (rep M n) w = rep M (n + w) := by
  rcases Nat.eq_zero_or_pos n with rfl | hn
  · rw [rep_zero, zero_add, rep_of_le hw]
    unfold eac; rw [if_neg (by omega)]; omega
  · have hr := rep_pos (M := M) hn
    have hle := rep_le hM n
    have hmod : rep M n + w ≡ n + w [MOD M] := (rep_modEq n).add_right w
    rw [← rep_congr (by omega) (by omega) hmod]
    generalize rep M n = r at hr hle
    unfold eac
    split
    · -- the carry goes round: subtracting `M` does not change the representative
      have h := rep_add_self (M := M) (n := r + w - M) (by omega)
      rw [Nat.sub_add_cancel (by omega), rep_of_le (show r + w - M ≤ M by omega)] at h
      exact h.symm
    · exact (rep_of_le (by omega)).symm

/-- **A sum with end-around carry depends only on the sum of the words.** -/
theorem foldl_eac (hM : 0 < M) (n : ℕ) (ws : List ℕ) (hws : ∀ w ∈ ws, w ≤ M) :
    ws.foldl (eac M) (rep M n) = rep M (n + ws.sum) := by
  induction ws generalizing n with
  | nil => simp
  | cons w ws ih =>
    rw [List.foldl_cons, eac_rep hM n w (hws w (by simp)), ih _ fun v hv => hws v (by simp [hv]),
      List.sum_cons, add_assoc]

lemma onesSum_eq_rep (hM : 0 < M) {ws : List ℕ} (hws : ∀ w ∈ ws, w ≤ M) : onesSum M ws = rep M ws.sum := by
  have := foldl_eac hM 0 ws hws
  rwa [rep_zero, zero_add] at this

end Carry

def beWords : List UInt8 → List ℕ
  | a :: b :: t => (a.toNat * 256 + b.toNat) :: beWords t
  | [a] => [a.toNat * 256]
  | [] => []

lemma beWords_le (l : List UInt8) : ∀ w ∈ beWords l, w ≤ 0xffff := by
  induction l using beWords.induct with
  | case1 a b t ih =>
    intro w hw
    have ha := a.toNat_lt
    have hb := b.toNat_lt
    rcases List.mem_cons.mp hw with rfl | hw
    · omega
    · exact ih w hw
  | case2 a =>
    intro w hw
    have ha := a.toNat_lt
    rw [beWords, List.mem_singleton] at hw
    omega
  | case3 => simp [beWords]

lemma beWords_append {u : List UInt8} (hu : Even u.length) (v : List UInt8) :
    beWords (u ++ v) = beWords u ++ beWords v := by
  induction u using beWords.induct with
  | case1 a b t ih =>
    have ht : Even t.length := by
      simpa [even_add_one] using hu
    simp [beWords, ih ht]
  | case2 a => simp at hu
  | case3 => simp [beWords]

def wordSum (l : List UInt8) : ℕ := (beWords l).sum

lemma wordSum_append {u : List UInt8} (hu : Even u.length) (v : List UInt8) :
    wordSum (u ++ v) = wordSum u + wordSum v := by
  simp [wordSum, beWords_append hu]

def rfcSum (l : List UInt8) : ℕ := onesSum 0xffff (beWords l)

lemma rfcSum_eq (l : List UInt8) : rfcSum l = rep 0xffff (wordSum l) := onesSum_eq_rep (by norm_num) (beWords_le l)

def foldCarries (n : ℕ) : ℕ :=
  if n ≤ 0xffff then n else foldCarries (n / 0x10000 + n % 0x10000)
termination_by n
decreasing_by omega

/-- Carrying at the end comes to the same as carrying at every step. -/
theorem foldCarries_eq (n : ℕ) : foldCarries n = rep 0xffff n := by
  induction n using foldCarries.induct with
  | case1 n h => rw [foldCarries, if_pos h, rep_of_le h]
  | case2 n h ih =>
    rw [foldCarries, if_neg h, ih]
    refine rep_congr (by omega) (by omega) ?_
    unfold Nat.ModEq
    omega

example : rfcSum [0x00, 0x01, 0xf2, 0x03, 0xf4, 0xf5, 0xf6, 0xf7] = 0xddf2 := by decide

end Jos.OnesSum
