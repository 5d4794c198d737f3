import Mathlib.Data.UInt
import Mathlib.Data.BitVec
import Mathlib.Data.Nat.Bitwise
import Mathlib.Tactic.Linarith

/-!
A flat memory of bytes, with the 32-bit words a little-endian machine keeps in it.
-/

namespace Jos.ByteMem

open BitVec

abbrev Bytes := ℕ → UInt8

variable {m m' : Bytes} {a b n src x : ℕ} {v : BitVec 32}

/-- The word at address `a`. -/
def get32 (m : Bytes) (a : ℕ) : BitVec 32 :=
  BitVec.ofNat 32
    ((m a).toNat + 2 ^ 8 * (m (a + 1)).toNat + 2 ^ 16 * (m (a + 2)).toNat + 2 ^ 24 * (m (a + 3)).toNat)

/-- Byte `k` of a word. -/
def byteOf (v : BitVec 32) (k : ℕ) : UInt8 := UInt8.ofNat (v.toNat / 2 ^ (8 * k))

def set32 (m : Bytes) (a : ℕ) (v : BitVec 32) : Bytes :=
  fun x => if a ≤ x ∧ x < a + 4 then byteOf v (x - a) else m x

/-- `len` bytes are copied from `src` to `dst`, all of them read before one is written. -/
def move (m : Bytes) (dst src len : ℕ) : Bytes :=
  fun x => if dst ≤ x ∧ x < dst + len then m (src + (x - dst)) else m x

def fill (m : Bytes) (a len : ℕ) (c : UInt8) : Bytes :=
  fun x => if a ≤ x ∧ x < a + len then c else m x

def put (m : Bytes) (a : ℕ) (l : List UInt8) : Bytes :=
  fun x => if a ≤ x ∧ x < a + l.length then l.getD (x - a) 0 else m x

def Same (m m' : Bytes) (a n : ℕ) : Prop := ∀ x, a ≤ x → x < a + n → m' x = m x

variable {c : UInt8} {len k i : ℕ}

lemma Same.mono (h : Same m m' a n) (hb : a ≤ b) (hk : b + k ≤ a + n) : Same m m' b k :=
  fun x h1 h2 => h x (by omega) (by omega)

lemma Same.get32 (h : Same m m' a 4) : get32 m' a = get32 m a := by
  unfold ByteMem.get32
  rw [h a (by omega) (by omega), h (a + 1) (by omega) (by omega), h (a + 2) (by omega) (by omega),
    h (a + 3) (by omega) (by omega)]

lemma toNat_byteOf (v : BitVec 32) (k : ℕ) : (byteOf v k).toNat = v.toNat / 2 ^ (8 * k) % 256 := by
  simp [byteOf]

@[simp] lemma get32_set32 (m : Bytes) (a : ℕ) (v : BitVec 32) : get32 (set32 m a v) a = v := by
  have byte : ∀ k < 4, set32 m a v (a + k) = byteOf v k := by
    intro k hk
    rw [set32, if_pos (by omega), Nat.add_sub_cancel_left]
  have h0 := byte 0 (by omega)
  rw [Nat.add_zero] at h0
  unfold get32
  rw [h0, byte 1 (by omega), byte 2 (by omega), byte 3 (by omega)]
  simp only [toNat_byteOf]
  refine eq_of_toNat_eq ?_
  have := v.isLt
  simp only [toNat_ofNat]
  omega

lemma set32_of_out (h : x < a ∨ a + 4 ≤ x) : set32 m a v x = m x := by
  rw [set32, if_neg (by omega)]

lemma move_of_out (h : x < a ∨ a + n ≤ x) : move m a src n x = m x := by
  rw [move, if_neg (by omega)]

lemma move_of_in (h : a ≤ x) (h' : x < a + n) : move m a src n x = m (src + (x - a)) := by
  rw [move, if_pos ⟨h, h'⟩]

lemma fill_of_out (h : x < a ∨ a + n ≤ x) : fill m a n c x = m x := by
  rw [fill, if_neg (by omega)]

lemma fill_of_in (h : a ≤ x) (h' : x < a + n) : fill m a n c x = c := by
  rw [fill, if_pos ⟨h, h'⟩]

lemma put_of_out {l : List UInt8} (h : x < a ∨ a + l.length ≤ x) : put m a l x = m x := by
  rw [put, if_neg (by omega)]

lemma put_of_in {l : List UInt8} (h : a ≤ x) (h' : x < a + l.length) : put m a l x = l.getD (x - a) 0 := by
  rw [put, if_pos ⟨h, h'⟩]

lemma same_set32 (h : b + n ≤ a ∨ a + 4 ≤ b) : Same m (set32 m a v) b n := fun _ _ _ => set32_of_out (by omega)

lemma same_fill (h : b + n ≤ a ∨ a + len ≤ b) : Same m (fill m a len c) b n := fun _ _ _ => fill_of_out (by omega)

lemma get32_set32_of_out (h : b + 4 ≤ a ∨ a + 4 ≤ b := by omega) : get32 (set32 m a v) b = get32 m b :=
  (same_set32 h).get32

lemma get32_zero (h : ∀ x, a ≤ x → x < a + 4 → m x = 0) : get32 m a = 0 := by
  unfold get32
  rw [h a (by omega) (by omega), h (a + 1) (by omega) (by omega), h (a + 2) (by omega) (by omega),
    h (a + 3) (by omega) (by omega)]
  rfl

lemma get32_fill_zero (h : a ≤ b) (h' : b + 4 ≤ a + len) : get32 (fill m a len 0) b = 0 :=
  get32_zero fun _ _ _ => fill_of_in (by omega) (by omega)

/-- Bit `k` of a word, as a mask. -/
def bit (k : ℕ) : BitVec 32 := 1#32 <<< k

lemma getLsbD_bit (hi : i < 32) : (bit k).getLsbD i = decide (i = k) := by
  simp only [bit, getLsbD_shiftLeft, getLsbD_one]
  grind

lemma and_bit_ne_zero (hk : k < 32) : v &&& bit k ≠ 0 ↔ v.getLsbD k = true := by
  constructor
  · intro h
    by_contra hv
    refine h (eq_of_getLsbD_eq fun i hi => ?_)
    rw [getLsbD_and, getLsbD_bit hi]
    by_cases hik : i = k
    · subst hik
      simp [hv]
    · simp [hik]
  · intro hv h
    have := congrArg (·.getLsbD k) h
    simp [getLsbD_bit hk, hv] at this

lemma getLsbD_or_bit (hi : i < 32) : (v ||| bit k).getLsbD i = (v.getLsbD i || decide (i = k)) := by
  rw [getLsbD_or, getLsbD_bit hi]

lemma getLsbD_and_not_bit (hi : i < 32) : (v &&& ~~~ bit k).getLsbD i = (v.getLsbD i && !decide (i = k)) := by
  rw [getLsbD_and, getLsbD_not, getLsbD_bit hi]
  simp [hi]

end Jos.ByteMem
