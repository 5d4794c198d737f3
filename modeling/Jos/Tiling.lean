import Mathlib.Data.List.Basic
import Mathlib.Data.Nat.Bitwise

/-!
Ranges that are cut into pieces, one behind the other.
-/

namespace Jos.Tiling

variable {α : Type} {start size : α → ℕ} {a b c x : ℕ} {p : α} {ps qs : List α}

/-- The pieces follow each other from `a` to `b`. -/
def Tiles (start size : α → ℕ) : ℕ → ℕ → List α → Prop
  | a, b, [] => a = b
  | a, b, p :: ps => start p = a ∧ Tiles start size (a + size p) b ps

def Holds (start size : α → ℕ) (x : ℕ) (p : α) : Prop := start p ≤ x ∧ x < start p + size p
  deriving Decidable

lemma Tiles.nil (a : ℕ) : Tiles start size a a [] := rfl

section

variable (h : Tiles start size a b ps)
include h

lemma Tiles.append (h' : Tiles start size b c qs) : Tiles start size a c (ps ++ qs) := by
  induction ps generalizing a with
  | nil =>
    obtain rfl : a = b := h
    exact h'
  | cons p ps ih => exact ⟨h.1, ih h.2⟩

lemma Tiles.le : a ≤ b := by
  induction ps generalizing a with
  | nil => exact le_of_eq h
  | cons p ps ih => exact (Nat.le_add_right _ _).trans (ih h.2)

lemma Tiles.bounds (hp : p ∈ ps) : a ≤ start p ∧ start p + size p ≤ b := by
  induction ps generalizing a with
  | nil => cases hp
  | cons q ps ih =>
    rcases List.mem_cons.mp hp with rfl | hp
    · have := h.2.le
      rw [h.1]
      exact ⟨le_rfl, this⟩
    · obtain ⟨h1, h2⟩ := ih h.2 hp
      exact ⟨(Nat.le_add_right _ _).trans h1, h2⟩

/-- **Every number of the range lies in one piece, and no other number in any.** -/
theorem Tiles.countP_holds (x : ℕ) : ps.countP (Holds start size x ·) = if a ≤ x ∧ x < b then 1 else 0 := by
  induction ps generalizing a with
  | nil =>
    obtain rfl : a = b := h
    rw [if_neg (by omega)]
    rfl
  | cons p ps ih =>
    have hle := h.2.le
    have hhead : Holds start size x p ↔ a ≤ x ∧ x < a + size p := by rw [Holds, h.1]
    rw [List.countP_cons, ih h.2]
    simp only [hhead, decide_eq_true_eq]
    split_ifs <;> omega

end

variable {S E R : Type} [DecidableEq R]

/-- The operation is done for each piece, until one of them does not give the result `good`. -/
def sweep (good : R) (op : α → S → Except E (S × R)) : List α → S → Except E (S × R)
  | [], s => .ok (s, good)
  | p :: ps, s => do
    let r ← op p s
    if r.2 ≠ good then .ok r else sweep good op ps r.1

variable {good : R} {op : α → S → Except E (S × R)} {s : S}

lemma sweep_congr {op' : α → S → Except E (S × R)} (h : ∀ p ∈ ps, op p = op' p) (s : S) :
    sweep good op ps s = sweep good op' ps s := by
  induction ps generalizing s with
  | nil => rfl
  | cons p ps ih =>
    rw [sweep, sweep, h p (by simp)]
    refine congrArg _ (funext fun r => ?_)
    rw [ih (fun q hq => h q (by simp [hq]))]

lemma sweep_append (ps qs : List α) (s : S) : sweep good op (ps ++ qs) s =
      sweep good op ps s >>= fun r => if r.2 ≠ good then .ok r else sweep good op qs r.1 := by
  induction ps generalizing s with
  | nil =>
    show _ = if good ≠ good then _ else _
    rw [if_neg (not_not.mpr rfl)]
    rfl
  | cons p ps ih =>
    rw [List.cons_append, sweep, sweep, bind_assoc]
    refine congrArg _ (funext fun r => ?_)
    split_ifs with hr
    · show _ = if r.2 ≠ good then _ else _
      rw [if_pos hr]
    · exact ih r.1

end Jos.Tiling
