import Jos.CArray
import Jos.OnesSum
import Mathlib.Tactic.IntervalCases

/-!
Byte order.

The machine is little-endian: a field of a packed structure is the little-endian reading of
its bytes, and the macros `JHTONS` and `JHTONL` of `inet.h` swap the bytes of such a reading.
`HTONS` is chosen there by `BYTE_ORDER == BIG_ENDIAN`; neither name is defined in the kernel,
so both are `0` to the preprocessor and the macro is the identity.
-/

namespace Jos.Inet

open CArray OnesSum Nat

def jhtons (n : UInt16) : UInt16 := ((n &&& 0xff) <<< 8) ||| ((n &&& 0xff00) >>> 8)

def jntohs (n : UInt16) : UInt16 := ((n &&& 0xff) <<< 8) ||| ((n &&& 0xff00) >>> 8)

def jhtonl (n : UInt32) : UInt32 :=
  ((n &&& 0xff) <<< 24) ||| ((n &&& 0xff00) <<< 8) ||| ((n &&& 0xff0000) >>> 8) |||
    ((n &&& 0xff000000) >>> 24)

def jntohl (n : UInt32) : UInt32 :=
  ((n &&& 0xff) <<< 24) ||| ((n &&& 0xff00) <<< 8) ||| ((n &&& 0xff0000) >>> 8) |||
    ((n &&& 0xff000000) >>> 24)

def htons (n : UInt16) : UInt16 := n

def le16 (n : UInt16) : List UInt8 := [n.toUInt8, (n >>> 8).toUInt8]

def le32 (n : UInt32) : List UInt8 :=
  [n.toUInt8, (n >>> 8).toUInt8, (n >>> 16).toUInt8, (n >>> 24).toUInt8]

def of16 (a b : UInt8) : UInt16 := a.toUInt16 ||| (b.toUInt16 <<< 8)

def of32 (a b c d : UInt8) : UInt32 :=
  a.toUInt32 ||| (b.toUInt32 <<< 8) ||| (c.toUInt32 <<< 16) ||| (d.toUInt32 <<< 24)

@[simp] lemma length_le16 (n : UInt16) : (le16 n).length = 2 := rfl
@[simp] lemma length_le32 (n : UInt32) : (le32 n).length = 4 := rfl

lemma or_eq_add {a c k : ℕ} (ha : a < 2 ^ k) : a ||| c * 2 ^ k = a + c * 2 ^ k := by
  rw [Nat.or_comm, Nat.mul_comm, ← Nat.two_pow_add_eq_or_of_lt ha, Nat.add_comm]

lemma of16_toNat (a b : UInt8) : (of16 a b).toNat = a.toNat + b.toNat * 2 ^ 8 := by
  have ha := a.toNat_lt
  have hb := b.toNat_lt
  have e : (b.toUInt16 <<< 8).toNat = b.toNat * 2 ^ 8 := by
    simp [shiftLeft_eq]; omega
  rw [of16, UInt16.toNat_or, e, UInt8.toNat_toUInt16, or_eq_add ha]

lemma of32_toNat (a b c d : UInt8) :
    (of32 a b c d).toNat = a.toNat + b.toNat * 2 ^ 8 + c.toNat * 2 ^ 16 + d.toNat * 2 ^ 24 := by
  have ha := a.toNat_lt
  have hb := b.toNat_lt
  have hc := c.toNat_lt
  have hd := d.toNat_lt
  have eb : (b.toUInt32 <<< 8).toNat = b.toNat * 2 ^ 8 := by simp [shiftLeft_eq]; omega
  have ec : (c.toUInt32 <<< 16).toNat = c.toNat * 2 ^ 16 := by simp [shiftLeft_eq]; omega
  have ed : (d.toUInt32 <<< 24).toNat = d.toNat * 2 ^ 24 := by simp [shiftLeft_eq]; omega
  rw [of32, UInt32.toNat_or, UInt32.toNat_or, UInt32.toNat_or, eb, ec, ed, UInt8.toNat_toUInt32,
    or_eq_add ha, or_eq_add (k := 16) (by omega), or_eq_add (k := 24) (by omega)]

lemma of16_bytes (n : UInt16) : of16 n.toUInt8 (n >>> 8).toUInt8 = n := by
  refine UInt16.toNat_inj.mp ?_
  have hn := n.toNat_lt
  rw [of16_toNat]
  simp [shiftRight_eq_div_pow]; omega

lemma of32_bytes (n : UInt32) : of32 n.toUInt8 (n >>> 8).toUInt8 (n >>> 16).toUInt8 (n >>> 24).toUInt8 = n := by
  refine UInt32.toNat_inj.mp ?_
  have hn := n.toNat_lt
  rw [of32_toNat]
  simp [shiftRight_eq_div_pow]; omega

lemma le16_of16 (a b : UInt8) : le16 (of16 a b) = [a, b] := by
  have ha := a.toNat_lt
  have hb := b.toNat_lt
  have e := of16_toNat a b
  simp only [le16, List.cons.injEq, and_true]
  constructor
  · refine UInt8.toNat_inj.mp ?_
    simp [e]
  · refine UInt8.toNat_inj.mp ?_
    simp [shiftRight_eq_div_pow, e]
    omega

lemma le32_of32 (a b c d : UInt8) : le32 (of32 a b c d) = [a, b, c, d] := by
  have ha := a.toNat_lt
  have hb := b.toNat_lt
  have hc := c.toNat_lt
  have hd := d.toNat_lt
  have e := of32_toNat a b c d
  simp only [le32, List.cons.injEq, and_true]
  refine ⟨?_, ?_, ?_, ?_⟩
  all_goals
    refine UInt8.toNat_inj.mp ?_
    simp [e, shiftRight_eq_div_pow]
    omega

lemma jhtons_of16 (a b : UInt8) : jhtons (of16 a b) = of16 b a := by
  unfold jhtons of16
  refine UInt16.eq_of_toBitVec_eq (BitVec.eq_of_getLsbD_eq fun i hi => ?_)
  interval_cases i <;> simp

lemma jhtonl_of32 (a b c d : UInt8) : jhtonl (of32 a b c d) = of32 d c b a := by
  unfold jhtonl of32
  refine UInt32.eq_of_toBitVec_eq (BitVec.eq_of_getLsbD_eq fun i hi => ?_)
  interval_cases i <;> simp

lemma jntohs_eq (n : UInt16) : jntohs n = jhtons n := rfl
lemma jntohl_eq (n : UInt32) : jntohl n = jhtonl n := rfl

@[simp] lemma jntohs_jhtons (n : UInt16) : jntohs (jhtons n) = n := by
  rw [jntohs_eq, ← of16_bytes n, jhtons_of16, jhtons_of16]

@[simp] lemma jhtons_jntohs (n : UInt16) : jhtons (jntohs n) = n := jntohs_jhtons n

@[simp] lemma jntohl_jhtonl (n : UInt32) : jntohl (jhtonl n) = n := by
  rw [jntohl_eq, ← of32_bytes n, jhtonl_of32, jhtonl_of32]

lemma le16_jhtons (n : UInt16) : le16 (jhtons n) = [(n >>> 8).toUInt8, n.toUInt8] := by
  conv_lhs => rw [← of16_bytes n]
  rw [jhtons_of16, le16_of16]

lemma jntohs_of16_toNat (a b : UInt8) : (jntohs (of16 a b)).toNat = a.toNat * 256 + b.toNat := by
  rw [jntohs_eq, jhtons_of16, of16_toNat]; omega

lemma wordSum_le16_jhtons (n : UInt16) : wordSum (le16 (jhtons n)) = n.toNat := by
  have hn := n.toNat_lt
  rw [le16_jhtons]
  simp [wordSum, beWords, shiftRight_eq_div_pow]; omega

end Jos.Inet
