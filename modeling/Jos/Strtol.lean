import Mathlib.Data.UInt
import Mathlib.Data.List.TakeWhile
import Mathlib.Data.Nat.Digits.Defs

/-!
`strtol`, which reads a number of any base.

A character below `a` passes the test for small letters, so that capital ones never get to theirs, and those
from `W` on are read as 0 to 9, with the characters up to the backquote. The pointer has moved over the
character with which the loop ends.
-/

namespace Jos.Strtol

open List

/-- The value that the three tests give a character, as a byte -/
def digit (c : UInt8) : Option UInt8 :=
  if (c.toNat : ℤ) - 48 < 10 then some (c - 48)
  else if (c.toNat : ℤ) - 97 < 27 then some (c - (97 - 10))
  else if (c.toNat : ℤ) - 65 < 27 then some (c - (65 - 10))
  else none

/-- The loop over the digits; there is no result where `val` overflows or the memory ends. -/
def digits (base : ℕ) (val : ℕ) : List UInt8 → Option (ℕ × List UInt8)
  | [] => none
  | c :: s =>
    match digit c with
    | none => some (val, s)
    | some dig =>
      if base ≤ dig.toNat then some (val, s)
      else if val * base + dig.toNat < 2 ^ 63 then digits base (val * base + dig.toNat) s
      else none

/-- The blanks, and whether there is a minus -/
def sign (s : List UInt8) : Bool × List UInt8 :=
  let s := s.dropWhile fun c => c = 32 ∨ c = 9
  (s.headD 0 = 45, if s.headD 0 = 43 ∨ s.headD 0 = 45 then s.tail else s)

/-- The base that is asked for or found, and the rest of the string -/
def radix (base : ℕ) (s : List UInt8) : ℕ × List UInt8 :=
  if (base = 0 ∨ base = 16) ∧ s.headD 0 = 48 ∧ s.getD 1 0 = 120 then (16, s.drop 2)
  else if base = 0 ∧ s.headD 0 = 48 then (8, s.tail)
  else if base = 0 then (10, s)
  else (base, s)

/-- What is returned, and what `*endptr` points to -/
def strtol (s : List UInt8) (base : ℕ) : Option (ℤ × List UInt8) :=
  let (neg, s) := sign s
  let (base, s) := radix base s
  (digits base 0 s).map fun (val, s) => (if neg then -val else val, s)

/-- What a character stands for as a digit -/
def valueOf (c : UInt8) : ℕ :=
  if 48 ≤ c ∧ c ≤ 57 then c.toNat - 48
  else if 97 ≤ c ∧ c ≤ 122 then c.toNat - 87
  else if 65 ≤ c ∧ c ≤ 90 then c.toNat - 55
  else 36

/-- What a character is taken for -/
def takenFor (c : UInt8) : ℕ :=
  if 48 ≤ c ∧ c ≤ 57 then c.toNat - 48
  else if 87 ≤ c ∧ c ≤ 122 then c.toNat - 87
  else 36

/-- A numeral: its sign, its base, its digits, their value, and what is behind it -/
structure Numeral where
  neg : Bool
  base : ℕ
  digits : List UInt8
  size : ℕ
  rest : List UInt8

def horner (b v : ℕ) (ds : List ℕ) : ℕ := ds.foldl (fun v d => v * b + d) v

/-- The longest numeral after blanks, a sign and a mark of its base, with `f` for what its digits are -/
def numeral (f : UInt8 → ℕ) (s : List UInt8) (base : ℕ) : Numeral :=
  let (neg, s) := sign s
  let (base, s) := radix base s
  let ds := s.takeWhile (f · < base)
  ⟨neg, base, ds, horner base 0 (ds.map f), s.dropWhile (f · < base)⟩

def Numeral.value (k : Numeral) : ℤ := if k.neg then -k.size else k.size

def Fits (v : ℤ) : Prop := -2 ^ 63 ≤ v ∧ v < 2 ^ 63
  deriving Decidable

/-- The value is returned, and `*endptr`, if it is asked for, is the first character behind the numeral. -/
def Correct (s : List UInt8) (base : ℕ) (endptr : Bool) : Prop :=
  ∃ r, strtol s base = some r ∧ (Fits (numeral valueOf s base).value → r.1 = (numeral valueOf s base).value) ∧
    (endptr → r.2 = (numeral valueOf s base).rest)

variable {s : List UInt8} {base b v w : ℕ} {c : UInt8}

/-- What the tests do to a character -/
lemma digit_spec (c : UInt8) : if takenFor c < 36 then (digit c).map UInt8.toNat = some (takenFor c)
    else ∀ d ∈ digit c, 36 ≤ d.toNat := by
  have h : ∀ n : Fin 256, if takenFor (.ofNat n) < 36 then
      (digit (.ofNat n)).map UInt8.toNat = some (takenFor (.ofNat n))
    else ∀ d ∈ digit (.ofNat n), 36 ≤ d.toNat := by decide +kernel
  simpa using h ⟨c.toNat, c.toNat_lt⟩

example : digit 87 = some 0 := by decide +kernel

lemma horner_cons (b v d : ℕ) (ds : List ℕ) : horner b v (d :: ds) = horner b (v * b + d) ds := rfl

lemma le_horner (hb : 0 < b) (ds : List ℕ) : v ≤ horner b v ds := by
  induction ds generalizing v with
  | nil => exact le_rfl
  | cons c ds ih => exact ((Nat.le_mul_of_pos_right v hb).trans (Nat.le_add_right ..)).trans ih

lemma digits_eq (hb : 0 < b) (hb' : b ≤ 36) (h : 0 ∈ s) (hv : v < 2 ^ 63) : digits b v s =
      let w := horner b v ((s.takeWhile (takenFor · < b)).map takenFor)
      if w < 2 ^ 63 then some (w, (s.dropWhile (takenFor · < b)).tail) else none := by
  induction s generalizing v with
  | nil => cases h
  | cons c s ih =>
    have hspec := digit_spec c
    by_cases hc : takenFor c < b
    · rw [if_pos (hc.trans_le hb')] at hspec
      obtain ⟨d, hd, hdc⟩ := Option.map_eq_some_iff.mp hspec
      have h0 : 0 ∈ s := (mem_cons.mp h).resolve_left fun h0 => by
        subst h0
        exact absurd hc (not_lt.mpr hb')
      simp only [digits, hd, hdc, if_neg (not_le.mpr hc), takeWhile_cons, hc, decide_true, if_true, map_cons,
        horner_cons, dropWhile_cons]
      by_cases hlt : v * b + takenFor c < 2 ^ 63
      · rw [if_pos hlt]
        exact ih h0 hlt
      · rw [if_neg hlt, if_neg fun h => hlt ((le_horner hb _).trans_lt h)]
    · simp only [takeWhile_cons, dropWhile_cons, hc, decide_false, Bool.false_eq_true, if_false, map_nil, horner,
        foldl_nil, hv, if_true, tail_cons, digits]
      cases hd : digit c with
      | none => rfl
      | some d =>
        refine if_pos ?_
        rw [hd] at hspec
        split at hspec
        · rw [Option.map_some, Option.some.injEq] at hspec
          rw [hspec]
          exact not_lt.mp hc
        · exact hb'.trans (hspec d rfl)

lemma zero_mem_tail (h : 0 ∈ s) (hc : s.headD 0 = c) (h0 : c ≠ 0) : 0 ∈ s.tail := by
  cases s with
  | nil => cases h
  | cons d s => exact (mem_cons.mp h).resolve_left fun hd => h0 (hc.symm.trans hd.symm)

lemma zero_mem_sign (h : 0 ∈ s) : 0 ∈ (sign s).2 := by
  have hd : 0 ∈ s.dropWhile fun c => c = 32 ∨ c = 9 := by
    rw [← takeWhile_append_dropWhile (p := fun c => c = 32 ∨ c = 9) (l := s)] at h
    exact (mem_append.mp h).resolve_left fun h0 => by simpa using mem_takeWhile_imp h0
  unfold sign
  dsimp only
  split
  next hs => exact hs.elim (zero_mem_tail hd · (by decide)) (zero_mem_tail hd · (by decide))
  next => exact hd

/-- The base is one of those for which there are digits, and the terminator is still there. -/
lemma radix_spec (hb : base = 0 ∨ 2 ≤ base ∧ base ≤ 36) (h : 0 ∈ s) :
    2 ≤ (radix base s).1 ∧ (radix base s).1 ≤ 36 ∧ 0 ∈ (radix base s).2 := by
  unfold radix
  split_ifs with h16 h8
  · rcases s with _ | ⟨c, _ | ⟨d, s⟩⟩
    · cases h
    · exact absurd h16.2.2 (show ¬(0 : UInt8) = 120 by decide)
    · have h1 := zero_mem_tail (zero_mem_tail h h16.2.1 (by decide)) h16.2.2 (by decide)
      exact ⟨by simp, by simp, h1⟩
  · exact ⟨by simp, by simp, zero_mem_tail h h8.2 (by decide)⟩
  · exact ⟨by simp, by simp, h⟩
  · exact ⟨by omega, by omega, h⟩

/-- **What `strtol` does** -/
lemma strtol_eq (hb : base = 0 ∨ 2 ≤ base ∧ base ≤ 36) (h : 0 ∈ s) : strtol s base =
    let k := numeral takenFor s base
    if k.size < 2 ^ 63 then some (k.value, k.rest.tail) else none := by
  obtain ⟨h1, h2, h3⟩ := radix_spec hb (zero_mem_sign h)
  unfold strtol numeral
  dsimp only
  rw [digits_eq (by omega) h2 h3 (by decide)]
  exact apply_ite _ _ _ _

lemma correct_iff (hb : base = 0 ∨ 2 ≤ base ∧ base ≤ 36) (h : 0 ∈ s) (endptr : Bool) :
    Correct s base endptr ↔
      let k := numeral valueOf s base
      let j := numeral takenFor s base
      j.size < 2 ^ 63 ∧ (Fits k.value → j.size = k.size) ∧ (endptr → j.rest.tail = k.rest) := by
  have hval : (numeral takenFor s base).value = (numeral valueOf s base).value ↔
      (numeral takenFor s base).size = (numeral valueOf s base).size := by
    have hneg : (numeral takenFor s base).neg = (numeral valueOf s base).neg := rfl
    unfold Numeral.value
    rw [hneg]
    split <;> omega
  rw [Correct, strtol_eq hb h]
  simp [hval]

end Jos.Strtol
