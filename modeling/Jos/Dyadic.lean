import Mathlib.Algebra.Order.Group.Nat
import Mathlib.Data.List.Infix
import Mathlib.Data.Nat.Bitwise
import Mathlib.Tactic.Ring

/-!
Dyadic blocks: a range of `2 ^ H` numbers is halved again and again.

A block is named by the way to it from the whole range, its last step first, so that the block
it is a half of is the tail of its name. The blocks that contain a number are the suffixes of
one way.
-/

namespace Jos.Dyadic

open List Nat

/-- The way to a block, last step first; `true` leads to the upper half. -/
abbrev Path := List Bool

variable {H : ℕ} {p q : Path} {b : Bool} {x : ℕ}

def start (H : ℕ) : Path → ℕ
  | [] => 0
  | b :: p => start H p + if b then 2 ^ (H - (p.length + 1)) else 0

lemma start_nil (H : ℕ) : start H [] = 0 := rfl
lemma start_cons (H : ℕ) (b : Bool) (p : Path) :
    start H (b :: p) = start H p + if b then 2 ^ (H - (p.length + 1)) else 0 := rfl

def Covers (H : ℕ) (p : Path) (x : ℕ) : Prop := start H p ≤ x ∧ x < start H p + 2 ^ (H - p.length)
  deriving Decidable

def toward (H x : ℕ) : ℕ → Path
  | 0 => []
  | k + 1 => x.testBit (H - (k + 1)) :: toward H x k

@[simp] lemma length_toward (H x k : ℕ) : (toward H x k).length = k := by
  induction k with
  | zero => rfl
  | succ k ih => rw [toward, length_cons, ih]

lemma not_cons_suffix (b : Bool) (p : Path) : ¬(b :: p) <:+ p := by
  intro h
  have := h.length_le
  rw [length_cons] at this
  omega

lemma ne_of_not_suffix (h : ¬p <:+ q) : q ≠ p := by
  rintro rfl
  exact h (suffix_refl _)

lemma suffix_cases (h : p <:+ q) : q = p ∨ ∃ b, (b :: p) <:+ q := by
  induction q with
  | nil => exact .inl (suffix_nil.mp h).symm
  | cons c q ih =>
    rcases suffix_cons_iff.mp h with rfl | h
    · exact .inl rfl
    · rcases ih h with rfl | ⟨b, hb⟩
      · exact .inr ⟨c, suffix_refl _⟩
      · exact .inr ⟨b, hb.trans (suffix_cons _ _)⟩

lemma suffix_of_cons_suffix (h : (b :: p) <:+ q) : p <:+ q := (suffix_cons _ _).trans h

lemma eq_of_cons_suffix {b' : Bool} (h : (b :: p) <:+ q) (h' : (b' :: p) <:+ q) : b = b' := by
  have hle := suffix_of_suffix_length_le h h' (by rw [length_cons, length_cons])
  exact (cons.inj (hle.eq_of_length rfl)).1

lemma not_suffix_of_half (h : (b :: p) <:+ q) : ¬((!b) :: p) <:+ q := by
  intro h'
  have := eq_of_cons_suffix h h'
  cases b <;> cases this

lemma size_half (h : p.length < H) : 2 ^ (H - p.length) = 2 * 2 ^ (H - (p.length + 1)) := by
  rw [← pow_succ', show H - p.length = (H - (p.length + 1)) + 1 by omega]

lemma covers_cons (h : p.length < H) (hc : Covers H (b :: p) x) : Covers H p x := by
  have hs := size_half h
  obtain ⟨h1, h2⟩ := hc
  rw [start_cons, length_cons] at h2
  rw [start_cons] at h1
  constructor
  · omega
  · split at h2 <;> omega

lemma covers_half (h : p.length < H) (hc : Covers H p x) : ∃ b, Covers H (b :: p) x := by
  have hs := size_half h
  obtain ⟨h1, h2⟩ := hc
  rcases lt_or_ge x (start H p + 2 ^ (H - (p.length + 1))) with hx | hx
  · exact ⟨false, by simp only [start_cons, Bool.false_eq_true, if_false]; omega,
      by simp only [start_cons, Bool.false_eq_true, if_false, length_cons]; omega⟩
  · exact ⟨true, by simp only [start_cons, if_true]; omega, by simp only [start_cons, if_true, length_cons]; omega⟩

lemma covers_half_unique {b' : Bool} (hc : Covers H (b :: p) x) (hc' : Covers H (b' :: p) x) : b = b' := by
  obtain ⟨h1, h2⟩ := hc
  obtain ⟨h3, h4⟩ := hc'
  simp only [start_cons, length_cons] at *
  cases b <;> cases b' <;> simp at * <;> omega

lemma covers_of_suffix (hq : q.length ≤ H) (hpq : p <:+ q) (hc : Covers H q x) : Covers H p x := by
  induction q with
  | nil =>
    rw [suffix_nil.mp hpq]
    exact hc
  | cons b q ih =>
    rcases suffix_cons_iff.mp hpq with rfl | hpq
    · exact hc
    · rw [length_cons] at hq
      exact ih (by omega) hpq (covers_cons (by omega) hc)

lemma covers_nil (hx : x < 2 ^ H) : Covers H [] x := by
  unfold Covers
  simp only [start_nil, length_nil, Nat.sub_zero]
  omega

lemma eq_of_covers (hlen : p.length = q.length) (hp : p.length ≤ H) (hcp : Covers H p x)
    (hcq : Covers H q x) : p = q := by
  induction p generalizing q with
  | nil => exact (length_eq_zero_iff.mp hlen.symm).symm
  | cons b p ih =>
    cases q with
    | nil => cases hlen
    | cons b' q =>
      rw [length_cons, length_cons, succ.injEq] at hlen
      rw [length_cons] at hp
      have hpq : p = q := ih hlen (by omega) (covers_cons (by omega) hcp) (covers_cons (by omega) hcq)
      rw [hpq] at hcp ⊢
      rw [covers_half_unique hcp hcq]

lemma suffix_of_covers (hlen : p.length ≤ q.length) (hq : q.length ≤ H) (hcp : Covers H p x)
    (hcq : Covers H q x) : p <:+ q := by
  have hdrop : (q.drop (q.length - p.length)).length = p.length := by
    rw [length_drop]
    omega
  have hsuf := drop_suffix (q.length - p.length) q
  have heq := eq_of_covers hdrop (by omega) (covers_of_suffix hq hsuf hcq) hcp
  rwa [heq] at hsuf

lemma comparable_of_covers (hp : p.length ≤ H) (hq : q.length ≤ H) (hcp : Covers H p x)
    (hcq : Covers H q x) : p <:+ q ∨ q <:+ p := by
  rcases le_total p.length q.length with h | h
  · exact .inl (suffix_of_covers h hq hcp hcq)
  · exact .inr (suffix_of_covers h hp hcq hcp)

lemma start_toward (x : ℕ) {k : ℕ} (hx : x < 2 ^ H) (hk : k ≤ H) :
    start H (toward H x k) = x / 2 ^ (H - k) * 2 ^ (H - k) := by
  induction k with
  | zero =>
    rw [toward, start_nil, Nat.sub_zero, Nat.div_eq_of_lt hx, Nat.zero_mul]
  | succ k ih =>
    have hpow : 2 ^ (H - k) = 2 ^ (H - (k + 1)) * 2 := by
      rw [← pow_succ, show H - k = (H - (k + 1)) + 1 by omega]
    have hbit := testBit_eq_decide_div_mod_eq (x := x) (i := H - (k + 1))
    rw [toward, start_cons, ih (by omega), length_toward, hpow, ← Nat.div_div_eq_div_mul, hbit]
    set y := x / 2 ^ (H - (k + 1))
    set w := 2 ^ (H - (k + 1))
    rcases mod_two_eq_zero_or_one y with h0 | h1
    · rw [h0, if_neg (by simp), add_zero, mul_comm w 2, ← mul_assoc, Nat.div_mul_cancel (Nat.dvd_of_mod_eq_zero h0)]
    · rw [h1, if_pos (by simp)]
      have hy : y = y / 2 * 2 + 1 := by omega
      calc y / 2 * (w * 2) + w = (y / 2 * 2 + 1) * w := by ring
        _ = y * w := by rw [← hy]

lemma covers_toward (hx : x < 2 ^ H) {k : ℕ} (hk : k ≤ H) : Covers H (toward H x k) x := by
  unfold Covers
  rw [start_toward x hx hk, length_toward]
  have h1 := div_add_mod x (2 ^ (H - k))
  rw [mul_comm] at h1
  omega

lemma size_dvd_start (hp : p.length ≤ H) : 2 ^ (H - p.length) ∣ start H p := by
  induction p with
  | nil => exact dvd_zero _
  | cons b p ih =>
    rw [length_cons] at hp
    have hs := size_half (show p.length < H by omega)
    rw [start_cons, length_cons]
    refine Nat.dvd_add ((Dvd.intro_left 2 hs.symm).trans (ih (by omega))) ?_
    split
    · exact dvd_rfl
    · exact dvd_zero _

lemma covers_start (p : Path) : Covers H p (start H p) := ⟨le_refl _, Nat.lt_add_of_pos_right (Nat.two_pow_pos _)⟩

end Jos.Dyadic
