import Mathlib.Data.List.Basic
import Mathlib.Data.List.GetD
import Mathlib.Data.UInt

/-!
Arrays of bytes as a C program sees them: a fixed number of cells, and every access checked
against that number. An access outside its array is undefined behaviour, where the model stops with
a fault; the two other faults are a null pointer that is followed and an assertion that fails.
-/

namespace Jos.CArray

open List

inductive Fault
  | outOfBounds
  | nullPointer
  | assertion
  deriving DecidableEq, Repr

/-- An array of `n` bytes. -/
@[ext] structure Arr (n : ℕ) where
  cell : Fin n → UInt8

variable {l : List UInt8} {k off off' len a d : ℕ}

namespace Arr

variable {n m : ℕ}

def get (a : Arr n) (k : ℕ) : UInt8 := if h : k < n then a.cell ⟨k, h⟩ else 0

/-- The `len` bytes from position `off` on. -/
def slice (a : Arr n) (off len : ℕ) : List UInt8 := (List.range len).map fun k => a.get (off + k)

def ofList (n : ℕ) (l : List UInt8) : Arr n := ⟨fun k => l.getD k 0⟩

def zero (n : ℕ) : Arr n := ⟨fun _ => 0⟩

/-- The array with the bytes `l` at position `off`. -/
def splice (a : Arr n) (off : ℕ) (l : List UInt8) : Arr n :=
  ⟨fun k => if off ≤ k ∧ k < off + l.length then l.getD (k - off) 0 else a.cell k⟩

def sub (a : Arr n) (off m : ℕ) : Arr m := ⟨fun k => a.get (off + k)⟩

def rd (a : Arr n) (k : ℕ) : Except Fault UInt8 :=
  if k < n then .ok (a.get k) else .error .outOfBounds

/-- A checked read of `len` bytes. -/
def read (a : Arr n) (off len : ℕ) : Except Fault (List UInt8) :=
  if off + len ≤ n then .ok (a.slice off len) else .error .outOfBounds

def write (a : Arr n) (off : ℕ) (l : List UInt8) : Except Fault (Arr n) :=
  if off + l.length ≤ n then .ok (a.splice off l) else .error .outOfBounds

/-- `memcpy(dst + d, src + s, len)` between two different arrays. -/
def memcpy (dst : Arr n) (d : ℕ) (src : Arr m) (s len : ℕ) : Except Fault (Arr n) :=
  if d + len ≤ n ∧ s + len ≤ m then .ok (dst.splice d (src.slice s len))
  else .error .outOfBounds

lemma get_of_lt (a : Arr n) (h : k < n) : a.get k = a.cell ⟨k, h⟩ := dif_pos h

lemma get_of_ge (a : Arr n) (h : n ≤ k) : a.get k = 0 := dif_neg (by omega)

lemma ext_get {a b : Arr n} (h : ∀ k < n, a.get k = b.get k) : a = b := by
  ext k
  have := h k k.isLt
  rw [get_of_lt _ k.isLt, get_of_lt _ k.isLt] at this
  exact congrArg UInt8.toNat this

@[simp] lemma get_zero (k : ℕ) : (zero n).get k = 0 := by
  unfold get zero; split <;> rfl

lemma get_ofList (l : List UInt8) (h : k < n) : (ofList n l).get k = l.getD k 0 := by
  rw [get_of_lt _ h]; rfl

lemma get_splice (a : Arr n) (off : ℕ) (l : List UInt8) (k : ℕ) : (a.splice off l).get k =
      if k < n ∧ off ≤ k ∧ k < off + l.length then l.getD (k - off) 0 else a.get k := by
  by_cases h : k < n
  · rw [get_of_lt _ h, get_of_lt _ h]; simp [splice, h]
  · rw [get_of_ge _ (by omega), get_of_ge _ (by omega), if_neg (by omega)]

lemma get_splice_inside (a : Arr n) (hn : k < n := by omega) (h1 : off ≤ k := by omega)
    (h2 : k < off + l.length := by omega) :
    (a.splice off l).get k = l.getD (k - off) 0 := by
  rw [get_splice, if_pos ⟨hn, h1, h2⟩]

lemma get_splice_outside (a : Arr n) (h : k < off ∨ off + l.length ≤ k) : (a.splice off l).get k = a.get k := by
  rw [get_splice, if_neg (by omega)]

@[simp] lemma splice_nil (a : Arr n) (off : ℕ) : a.splice off [] = a := by
  refine ext_get fun k _ => get_splice_outside a ?_
  simp; omega

lemma get_sub (a : Arr n) (off : ℕ) (h : k < m) : (a.sub off m).get k = a.get (off + k) := by
  rw [get_of_lt _ h]; rfl

@[simp] lemma length_slice (a : Arr n) (off len : ℕ) : (a.slice off len).length = len := by
  simp [slice]

@[simp] lemma slice_zero (a : Arr n) (off : ℕ) : a.slice off 0 = [] := rfl

lemma getElem_slice (a : Arr n) (off len k : ℕ) (h : k < (a.slice off len).length) :
    (a.slice off len)[k] = a.get (off + k) := by
  simp [slice]

lemma getD_slice (a : Arr n) (off len k : ℕ) (h : k < len := by omega) :
    (a.slice off len).getD k 0 = a.get (off + k) := by
  rw [getD_eq_getElem _ _ (by simpa using h), getElem_slice]

lemma getElem?_slice (a : Arr n) (off : ℕ) (h : k < len) : (a.slice off len)[k]? = some (a.get (off + k)) := by
  rw [getElem?_eq_getElem (by simpa using h), getElem_slice]

lemma slice_congr {a : Arr n} {b : Arr m}
    (h : ∀ k < len, a.get (off + k) = b.get (off' + k)) : a.slice off len = b.slice off' len := by
  refine map_congr_left fun k hk => h k (mem_range.mp hk)

lemma slice_eq_iff {a : Arr n} : a.slice off l.length = l ↔ ∀ k < l.length, a.get (off + k) = l.getD k 0 := by
  constructor
  · intro h k hk
    rw [← getD_slice a off l.length k hk, h]
  · intro h
    refine ext_getElem (by simp) fun k h1 h2 => ?_
    rw [getElem_slice, h k h2, getD_eq_getElem _ _ h2]

lemma slice_add (a : Arr n) (off i j : ℕ) : a.slice off (i + j) = a.slice off i ++ a.slice (off + i) j := by
  simp [slice, range_add, Function.comp_def, Nat.add_assoc]

lemma take_slice (a : Arr n) (off : ℕ) {i j : ℕ} (h : i ≤ j) : (a.slice off j).take i = a.slice off i := by
  obtain ⟨d, rfl⟩ := Nat.exists_eq_add_of_le h
  rw [slice_add, take_left' (by simp)]

lemma slice_ofList (l : List UInt8) (hn : off + len ≤ n)
    (hl : off + len ≤ l.length) : (ofList n l).slice off len = (l.drop off).take len := by
  refine ext_getElem (by simp; omega) fun k h1 h2 => ?_
  have hk : k < len := by simpa using h1
  rw [getElem_slice, get_ofList l (by omega), getD_eq_getElem _ _ (by omega)]
  simp

lemma slice_ofList_append (l : List UInt8) (a : Arr m) (hn : l.length + len ≤ n)
    (h : len ≤ m) : (ofList n (l ++ a.slice 0 m)).slice 0 (l.length + len) = l ++ a.slice 0 len := by
  rw [slice_ofList _ (by omega) (by simp; omega), drop_zero, take_append,
    Nat.add_sub_cancel_left, take_of_length_le (by omega), take_slice _ _ h]

lemma slice_sub (a : Arr n) (off : ℕ) (h : off' + len ≤ m) :
    (a.sub off m).slice off' len = a.slice (off + off') len :=
  slice_congr fun k hk => by rw [get_sub a off (by omega), Nat.add_assoc]

lemma slice_splice_same (a : Arr n) (off : ℕ) (l : List UInt8) (h : off + l.length ≤ n) :
    (a.splice off l).slice off l.length = l := by
  refine slice_eq_iff.mpr fun k hk => ?_
  rw [get_splice_inside _, Nat.add_sub_cancel_left]

lemma slice_splice_outside (a : Arr n) (h : off' + len ≤ off ∨ off + l.length ≤ off') :
    (a.splice off l).slice off' len = a.slice off' len :=
  slice_congr fun k hk => get_splice_outside a (by omega)

lemma slice_splice_append (a : Arr n) (off : ℕ) (l : List UInt8) (h : off + l.length ≤ n) :
    (a.splice off l).slice 0 (off + l.length) = a.slice 0 off ++ l := by
  have hlast := slice_splice_same a off l h
  rw [slice_add, slice_splice_outside a (by omega), Nat.zero_add, hlast]

lemma rd_ok (a : Arr n) (h : k < n) : a.rd k = .ok (a.get k) := if_pos h

lemma write_ok (a : Arr n) (h : off + l.length ≤ n) : a.write off l = .ok (a.splice off l) := if_pos h

lemma read_ok (a : Arr n) (h : off + len ≤ n := by omega) : a.read off len = .ok (a.slice off len) := if_pos h

lemma memcpy_ok (dst : Arr n) (src : Arr m) {d s len : ℕ} (hd : d + len ≤ n := by omega)
    (hs : s + len ≤ m := by omega) : dst.memcpy d src s len = .ok (dst.splice d (src.slice s len)) :=
  if_pos ⟨hd, hs⟩

lemma memcpy_fault (dst : Arr n) (src : Arr m) {d s len : ℕ} (h : n < d + len ∨ m < s + len := by omega) :
    dst.memcpy d src s len = .error .outOfBounds := if_neg (by omega)

end Arr

section Bind

variable {ε α β : Type}

lemma bind_eq_ok {x : Except ε α} {f : α → Except ε β} {b : β} :
    (x >>= f) = .ok b ↔ ∃ a, x = .ok a ∧ f a = .ok b := by
  cases x with
  | error e | ok a => simp [bind, Except.bind]

/-- Behind a check -/
lemma then_ok {x : Except ε α} {y : Except ε β} {b : β} (h : (x >>= fun _ => y) = .ok b) : y = .ok b :=
  (bind_eq_ok.mp h).choose_spec.2

lemma map_eq_ok {x : Except ε α} {f : α → β} {b : β} : f <$> x = .ok b ↔ ∃ a, x = .ok a ∧ f a = b := by
  cases x with
  | error e | ok a => simp [Functor.map, Except.map]

@[simp] lemma ok_bind (a : α) (f : α → Except ε β) : ((.ok a : Except ε α) >>= f) = f a := rfl

@[simp] lemma error_bind (e : ε) (f : α → Except ε β) : ((.error e : Except ε α) >>= f) = .error e := rfl

end Bind

/-- Subtraction in `size_t`: it wraps. -/
def sizeSub (a b : ℕ) : ℕ := (a + 2 ^ 64 - b) % 2 ^ 64

/-- The conversion of a `size_t` to an `int`. -/
def sizeToInt (a : ℕ) : ℤ := Int.bmod a (2 ^ 32)

/-- The conversion of an `int` to a `size_t`. -/
def intToSize (z : ℤ) : ℕ := (z % 2 ^ 64).toNat

lemma toNat_toUInt16 (h : a < 2 ^ 16 := by omega) : a.toUInt16.toNat = a := UInt16.toNat_ofNat_of_lt' h

lemma toNat_toUInt32 (h : a < 2 ^ 32 := by omega) : a.toUInt32.toNat = a := UInt32.toNat_ofNat_of_lt' h

lemma sizeSub_of_le {a b : ℕ} (h : b ≤ a := by omega) (ha : a < 2 ^ 64 := by omega) : sizeSub a b = a - b := by
  unfold sizeSub; omega

lemma sizeSub_of_lt {a b : ℕ} (h : a < b) (hb : b < 2 ^ 64) : sizeSub a b = 2 ^ 64 - (b - a) := by
  unfold sizeSub; omega

lemma sizeToInt_of_lt (h : a < 2 ^ 31 := by omega) : sizeToInt a = a := by
  unfold sizeToInt
  rw [Int.bmod_eq_of_le (by omega) (by omega)]

/-- A small negative number stored in a `size_t` keeps its value as an `int`. -/
lemma sizeToInt_of_wrap (hd : 0 < d) (h : d ≤ 2 ^ 31) : sizeToInt (2 ^ 64 - d) = -(d : ℤ) := by
  unfold sizeToInt
  have e : ((2 ^ 64 - d : ℕ) : ℤ) = -(d : ℤ) + (2 ^ 32 : ℕ) * 2 ^ 32 := by omega
  rw [e, Int.add_mul_bmod_self_left, Int.bmod_eq_of_le (by omega) (by omega)]

lemma intToSize_of_nonneg (h : a < 2 ^ 64 := by omega) : intToSize a = a := by
  unfold intToSize; omega

lemma intToSize_of_neg (hd : 0 < d := by omega) (h : d ≤ 2 ^ 64 := by omega) : intToSize (-(d : ℤ)) = 2 ^ 64 - d := by
  unfold intToSize; omega

lemma and_mask {a mask : UInt32} (h : a &&& mask = a) (flags : UInt32) : a &&& (flags &&& mask) = a &&& flags := by
  rw [UInt32.and_comm flags mask, ← UInt32.and_assoc, h]

lemma and_or_disjoint {a b : UInt32} (h : a &&& b = 0) (flags : UInt32) : a &&& (flags ||| b) = a &&& flags := by
  refine UInt32.toBitVec_inj.mp ?_
  have hb := congrArg UInt32.toBitVec h
  simp only [UInt32.toBitVec_and, UInt32.toBitVec_or, UInt32.toBitVec_zero] at hb ⊢
  rw [BitVec.and_or_distrib_left, hb, BitVec.or_zero]

end Jos.CArray
