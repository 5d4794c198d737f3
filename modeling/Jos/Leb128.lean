import Mathlib.Data.UInt
import Mathlib.Data.Nat.Bitwise
import Mathlib.Tactic.Ring

/-!
The numbers of variable length in debugging information.

Both readers take seven bits of each byte. The signed one extends the sign with a mask of 32 bits, so that a
negative number is only read where it fills all the 64 bits itself.
-/

namespace Jos.Leb128

open List Nat

variable {bs rest : List UInt8} {b byte : UInt8} {r c count : ℕ}

/-- `byte & 0x80` -/
abbrev More (byte : UInt8) : Prop := byte.toNat.testBit 7

/-- What the first loop leaves. -/
structure Scan where
  result : ℕ
  shift : ℕ
  count : ℕ
  byte : UInt8
  rest : List UInt8

/-- The first loop, on a 64-bit `result`; there is none where the bytes end. -/
def collect (result shift count : ℕ) : List UInt8 → Option Scan
  | [] => none
  | byte :: rest =>
    let result := result ||| byte.toNat % 128 * 2 ^ shift % 2 ^ 64
    if More byte ∧ shift + 7 < 64 then collect result (shift + 7) (count + 1) rest
    else some ⟨result, shift + 7, count + 1, byte, rest⟩

/-- The second loop. -/
def skip (byte : UInt8) (count : ℕ) : List UInt8 → Option (UInt8 × ℕ)
  | [] => if More byte then none else some (byte, count)
  | b :: rest => if More byte then skip b (count + 1) rest else some (byte, count)

/-- `dwarf_read_uleb128`: what is stored, and what is returned -/
def dwarfReadUleb128 (addr : List UInt8) : Option (ℕ × ℕ) := do
  let s ← collect 0 0 0 addr
  let (_, count) ← skip s.byte s.count s.rest
  return (s.result, count)

/-- `dwarf_read_leb128`; to shift `-1U` by more than 31 is undefined. -/
def dwarfReadLeb128 (addr : List UInt8) : Option (ℤ × ℕ) := do
  let s ← collect 0 0 0 addr
  let (byte, count) ← skip s.byte s.count s.rest
  if s.shift < 64 ∧ byte.toNat.testBit 6 then
    if s.shift < 32 then
      return (Int.bmod (s.result ||| (2 ^ 32 - 1) * 2 ^ s.shift % 2 ^ 32 : ℕ) (2 ^ 64), count)
    else none
  else return (Int.bmod s.result (2 ^ 64), count)

/-- Every byte but the last is marked as having a successor. -/
def Terminated : List UInt8 → Prop
  | [] => False
  | [b] => b.toNat < 128
  | b :: bs => 128 ≤ b.toNat ∧ Terminated bs

def last : List UInt8 → UInt8
  | [] => 0
  | [b] => b
  | _ :: bs => last bs

/-- The unsigned number that is encoded -/
def value : List UInt8 → ℕ
  | [] => 0
  | b :: bs => b.toNat % 128 + 128 * value bs

/-- The signed number that is encoded -/
def signed : List UInt8 → ℤ
  | [] => 0
  | [b] => if b.toNat % 128 < 64 then b.toNat % 128 else b.toNat % 128 - 128
  | b :: bs => b.toNat % 128 + 128 * signed bs

lemma more_iff : More b ↔ 128 ≤ b.toNat := by
  have := b.toNat_lt
  simp only [More, testBit_eq_decide_div_mod_eq, decide_eq_true_eq]
  omega

/-- One more group above the bits that are there -/
lemma or_group (hr : r < 2 ^ (7 * c)) (hc : c < 10) (g : ℕ) :
    r ||| g * 2 ^ (7 * c) % 2 ^ 64 = (r + g * 2 ^ (7 * c)) % 2 ^ 64 := by
  have hlt : r < 2 ^ 64 := hr.trans_le (Nat.pow_le_pow_right (by decide) (by omega))
  rw [Nat.add_comm, Nat.mul_comm, Nat.two_pow_add_eq_or_of_lt hr, Nat.or_mod_two_pow, Nat.mod_eq_of_lt hlt, Nat.or_comm]

lemma collect_eq (rest : List UInt8) : ∀ {bs : List UInt8} {r c : ℕ}, Terminated bs → c + bs.length ≤ 10 →
    r < 2 ^ (7 * c) → collect r (7 * c) c (bs ++ rest) =
      some ⟨(r + value bs * 2 ^ (7 * c)) % 2 ^ 64, 7 * (c + bs.length), c + bs.length, last bs, rest⟩
  | [b], r, c, (ht : b.toNat < 128), hc, hr => by
    have hm : ¬More b := by rw [more_iff]; omega
    rw [singleton_append, collect, if_neg fun h => hm h.1, or_group hr hc]
    rfl
  | b :: b' :: bs, r, c, ht, hc, hr => by
    simp only [length_cons] at hc
    have hg : b.toNat % 128 * 2 ^ (7 * c) ≤ 127 * 2 ^ (7 * c) := mul_le_mul_right _ (by omega)
    have hpow : 2 ^ (7 * (c + 1)) = 128 * 2 ^ (7 * c) := by rw [Nat.mul_add, Nat.pow_add, Nat.mul_comm]
    have hr' : r + b.toNat % 128 * 2 ^ (7 * c) < 2 ^ (7 * (c + 1)) := by omega
    have hlt : r + b.toNat % 128 * 2 ^ (7 * c) < 2 ^ 64 := hr'.trans_le (Nat.pow_le_pow_right (by decide) (by omega))
    rw [cons_append, collect, if_pos ⟨more_iff.mpr ht.1, by omega⟩, or_group hr (by omega),
      mod_eq_of_lt hlt, ← mul_succ, collect_eq rest ht.2 (by simp only [length_cons]; omega) hr', hpow]
    simp only [value, last, length_cons, Option.some.injEq, Scan.mk.injEq, and_true]
    exact ⟨congrArg (· % 2 ^ 64) (by ring), by omega, by omega⟩

lemma value_lt : ∀ bs : List UInt8, value bs < 2 ^ (7 * bs.length)
  | [] => by simp [value]
  | b :: bs => by
    have := value_lt bs
    rw [value, length_cons, mul_succ, pow_add]
    omega

lemma last_lt : ∀ {bs : List UInt8}, Terminated bs → (last bs).toNat < 128
  | [_], h => h
  | _ :: b :: bs, h => (last_lt h.2 : (last (b :: bs)).toNat < 128)

lemma signed_eq : ∀ {bs : List UInt8}, Terminated bs →
    signed bs = value bs - if (last bs).toNat < 64 then 0 else 2 ^ (7 * bs.length)
  | [b], (h : b.toNat < 128) => by
    have hb : b.toNat % 128 = b.toNat := mod_eq_of_lt h
    simp only [signed, value, last, length_singleton]
    split_ifs <;> omega
  | b :: b' :: bs, h => by
    simp only [signed, value, last, signed_eq h.2, length_cons, mul_succ, pow_add]
    split_ifs <;> push_cast <;> ring

section Read

variable (h : Terminated bs) (hlen : bs.length ≤ 10) (rest : List UInt8)
include h hlen

lemma collect_read : collect 0 0 0 (bs ++ rest) =
    some ⟨value bs % 2 ^ 64, 7 * bs.length, bs.length, last bs, rest⟩ := by
  have := collect_eq rest (r := 0) (c := 0) h (by omega) (by simp)
  simpa only [mul_zero, zero_add, pow_zero, mul_one] using this

omit hlen in
lemma skip_read (count : ℕ) : skip (last bs) count rest = some (last bs, count) := by
  have hm : ¬More (last bs) := by rw [more_iff]; exact (last_lt h).not_ge
  cases rest <;> simp only [skip, if_neg hm]

lemma dwarfReadUleb128_eq : dwarfReadUleb128 (bs ++ rest) = some (value bs % 2 ^ 64, bs.length) := by
  simp [dwarfReadUleb128, collect_read h hlen, skip_read h]

lemma dwarfReadLeb128_eq : dwarfReadLeb128 (bs ++ rest) =
    if bs.length < 10 ∧ 64 ≤ (last bs).toNat then
      if bs.length < 5 then
        some (Int.bmod (value bs % 2 ^ 64 ||| (2 ^ 32 - 1) * 2 ^ (7 * bs.length) % 2 ^ 32 : ℕ) (2 ^ 64), bs.length)
      else none
    else some (Int.bmod (value bs % 2 ^ 64 : ℕ) (2 ^ 64), bs.length) := by
  have hb := last_lt h
  have hbit : (last bs).toNat.testBit 6 ↔ 64 ≤ (last bs).toNat := by
    simp only [testBit_eq_decide_div_mod_eq, decide_eq_true_eq]
    omega
  have h64 : 7 * bs.length < 64 ↔ bs.length < 10 := by omega
  have h32 : 7 * bs.length < 32 ↔ bs.length < 5 := by omega
  simp only [dwarfReadLeb128, collect_read h hlen, skip_read h, Option.bind_eq_bind, Option.bind_some, hbit, h64, h32]
  rfl

lemma dwarfReadLeb128_iff (hlo : -2 ^ 63 ≤ signed bs) (hhi : signed bs < 2 ^ 63) :
    dwarfReadLeb128 (bs ++ rest) = some (signed bs, bs.length) ↔ 0 ≤ signed bs ∨ bs.length = 10 := by
  have hv : (value bs : ℤ) < 2 ^ (7 * bs.length) := by exact_mod_cast value_lt bs
  have hs := signed_eq h
  rw [dwarfReadLeb128_eq h hlen]
  by_cases hneg : bs.length < 10 ∧ 64 ≤ (last bs).toNat
  · -- the mask leaves the upper half as it is
    rw [if_neg (by omega)] at hs
    refine iff_of_false ?_ (by omega)
    rw [if_pos hneg]
    split
    next h5 =>
      have hpow : 2 ^ (7 * bs.length) ≤ 2 ^ 28 := Nat.pow_le_pow_right (by decide) (by omega)
      have hor := or_lt_two_pow (n := 32) (x := value bs % 2 ^ 64) (by have := value_lt bs; omega)
        (mod_lt ((2 ^ 32 - 1) * 2 ^ (7 * bs.length)) (by decide))
      intro he
      have hb := congrArg Prod.fst (Option.some.inj he)
      rw [Int.bmod_eq_of_le (by omega) (by omega)] at hb
      omega
    next => nofun
  · rw [if_neg hneg]
    have hval : Int.bmod (value bs % 2 ^ 64 : ℕ) (2 ^ 64) = signed bs := by
      simp only [Int.bmod]
      split_ifs at hs with hl
      · split <;> omega
      · rw [show bs.length = 10 by omega] at hs
        split <;> omega
    refine iff_of_true (by rw [hval]) ?_
    split_ifs at hs <;> omega

end Read

/-- Unsigned numbers are read from every encoding; signed ones where they are not negative, and negative ones
from ten bytes only. -/
theorem dwarfRead_iff (h : Terminated bs) (hlen : bs.length ≤ 10) (rest : List UInt8) :
    (value bs < 2 ^ 64 → dwarfReadUleb128 (bs ++ rest) = some (value bs, bs.length)) ∧
      (-2 ^ 63 ≤ signed bs → signed bs < 2 ^ 63 →
        (dwarfReadLeb128 (bs ++ rest) = some (signed bs, bs.length) ↔ 0 ≤ signed bs ∨ bs.length = 10)) := by
  refine ⟨fun hv => ?_, dwarfReadLeb128_iff h hlen rest⟩
  rw [dwarfReadUleb128_eq h hlen, mod_eq_of_lt hv]

theorem dwarfRead_iff_two :
    dwarfReadUleb128 ([0xE5, 0x0E] ++ [7]) = some (0x765, 2) ∧
      dwarfReadLeb128 ([0xE5, 0x0E] ++ [7]) = some (0x765, 2) :=
  have h := @dwarfRead_iff [0xE5, 0x0E] (by simp [Terminated]) (by decide) [7]
  ⟨h.1 (by decide), (h.2 (by decide) (by decide)).mpr (.inl (by decide))⟩

/-- The single byte of `-1` is read as `2 ^ 32 - 1`. -/
theorem dwarfReadLeb128_minus_one :
    signed [0x7F] = -1 ∧ dwarfReadLeb128 [0x7F] = some (2 ^ 32 - 1, 1) := by
  decide

end Jos.Leb128
