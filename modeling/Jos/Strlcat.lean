import Jos.CArray
import Mathlib.Data.List.TakeWhile

/-!
`strlcat`, which appends a string to the one in a buffer of `maxlen` bytes.

Where the string does not fit, the number of bytes to copy and the place of the terminator are those of an
empty buffer.
-/

namespace Jos.Strlcat

open CArray List Arr

variable {maxlen m : ℕ} {l : List UInt8} {src : Arr m} {dst : Arr maxlen}

/-- `strlen`, over all the bytes of the array -/
def strlen : List UInt8 → Except Fault ℕ
  | [] => .error .outOfBounds
  | c :: s => if c = 0 then .ok 0 else (· + 1) <$> strlen s

/-- `strnlen`, over the first `size` bytes -/
def strnlen : List UInt8 → ℕ
  | [] => 0
  | c :: s => if c = 0 then 0 else strnlen s + 1

/-- `strlcat(dst, src, maxlen)` -/
def strlcat (dst : Arr maxlen) (src : Arr m) : Except Fault (Arr maxlen × ℕ) := do
  let srclen ← strlen (src.slice 0 m)
  let dstlen := strnlen (dst.slice 0 maxlen)
  if dstlen = maxlen then return (dst, maxlen + srclen)
  if srclen < maxlen - dstlen then
    let dst ← dst.memcpy dstlen src 0 (srclen + 1)
    return (dst, dstlen + srclen)
  else
    let dst ← dst.memcpy dstlen src 0 (maxlen - 1)
    let dst ← dst.write (dstlen + maxlen - 1) [0]
    return (dst, dstlen + srclen)

/-- The string at the beginning of an array -/
def text (a : Arr m) : List UInt8 := (a.slice 0 m).takeWhile (· ≠ 0)

/-- What is left in the buffer and returned -/
structure Concatenated (dst : Arr maxlen) (src : Arr m) (dst' : Arr maxlen) (r : ℕ) : Prop where
  returned : r = min (text dst).length maxlen + (text src).length
  joined : 0 ∈ dst.slice 0 maxlen →
    let k := min ((text dst).length + (text src).length) (maxlen - 1)
    k < maxlen ∧ dst'.slice 0 (k + 1) = (text dst ++ text src).take k ++ [0]

lemma strlen_eq (h : 0 ∈ l) : strlen l = .ok (l.takeWhile (· ≠ 0)).length := by
  induction l with
  | nil => cases h
  | cons c s ih =>
    by_cases hc : c = 0
    · simp [strlen, hc]
    · rw [strlen, if_neg hc, ih (by simpa [Ne.symm hc] using h)]
      simp [hc, Functor.map, Except.map]

lemma strnlen_eq (l : List UInt8) : strnlen l = (l.takeWhile (· ≠ 0)).length := by
  induction l with
  | nil => rfl
  | cons c s ih => by_cases hc : c = 0 <;> simp [strnlen, hc, ih]

/-- The string, its terminator and the rest of the bytes -/
lemma exists_rest (h : 0 ∈ l) : ∃ r, l = l.takeWhile (· ≠ 0) ++ 0 :: r := by
  induction l with
  | nil => cases h
  | cons c s ih =>
    by_cases hc : c = 0
    · exact ⟨s, by simp [hc]⟩
    · obtain ⟨r, hr⟩ := ih (by simpa [Ne.symm hc] using h)
      refine ⟨r, ?_⟩
      rw [takeWhile_cons_of_pos (by simpa using hc), cons_append, ← hr]

lemma length_text_le (a : Arr m) : (text a).length ≤ m :=
  (takeWhile_sublist _).length_le.trans_eq (a.length_slice 0 m)

lemma length_text_lt {a : Arr m} (h : 0 ∈ a.slice 0 m) : (text a).length < m := by
  obtain ⟨r, hr⟩ := exists_rest h
  have := congrArg length hr
  simp only [length_slice, length_append, length_cons] at this
  unfold text
  omega

lemma slice_text {a : Arr m} (h : 0 ∈ a.slice 0 m) : a.slice 0 ((text a).length + 1) = text a ++ [0] := by
  obtain ⟨r, hr⟩ := exists_rest h
  rw [← take_slice a 0 (length_text_lt h), hr]
  simp [text, take_append]

lemma length_text_eq (h : 0 ∉ dst.slice 0 maxlen) : (text dst).length = maxlen := by
  have he : text dst = dst.slice 0 maxlen := takeWhile_eq_self_iff.mpr fun c hc => by
      simpa using ne_of_mem_of_not_mem hc h
  rw [he, length_slice]

variable (hsrc : 0 ∈ src.slice 0 m)
include hsrc

lemma strlcat_full (h : (text dst).length = maxlen) : strlcat dst src = .ok (dst, maxlen + (text src).length) := by
  unfold strlcat
  rw [strlen_eq hsrc, strnlen_eq]
  exact if_pos h

lemma strlcat_fits (h : (text dst).length + (text src).length < maxlen) : strlcat dst src =
    .ok (dst.splice (text dst).length (text src ++ [0]), (text dst).length + (text src).length) := by
  have hm := length_text_lt hsrc
  unfold strlcat
  rw [strlen_eq hsrc, strnlen_eq, ok_bind]
  simp only [← text.eq_1]
  rw [if_neg (by omega), if_pos (by omega), memcpy_ok _ _, slice_text hsrc]
  rfl

lemma strlcat_long (h : (text dst).length < maxlen) (hlong : maxlen ≤ (text dst).length + (text src).length) :
    strlcat dst src = if (text dst).length = 0 then
      .ok ((dst.splice 0 (src.slice 0 (maxlen - 1))).splice (maxlen - 1) [0], (text src).length)
    else .error .outOfBounds := by
  have hm := length_text_lt hsrc
  unfold strlcat
  rw [strlen_eq hsrc, strnlen_eq, ok_bind]
  simp only [← text.eq_1]
  rw [if_neg (by omega), if_neg (by omega)]
  split
  next h0 =>
    rw [h0, memcpy_ok _ _, ok_bind, write_ok _ (by simp; omega), ok_bind]
    rw [Nat.zero_add, Nat.zero_add]
    rfl
  next h0 =>
    by_cases h1 : (text dst).length + (maxlen - 1) ≤ maxlen
    · rw [memcpy_ok _ _ h1, ok_bind, write, if_neg (by simp; omega), error_bind]
    · rw [memcpy_fault _ _, error_bind]

/-- `strlcat` keeps to its buffer, leaves the concatenation and returns its length exactly when the string
fits, the buffer is empty, or it has no terminator. -/
theorem strlcat_iff :
    (∃ dst' r, strlcat dst src = .ok (dst', r) ∧ Concatenated dst src dst' r) ↔
      (text dst).length = maxlen ∨ (text dst).length + (text src).length < maxlen ∨
        (text dst).length = 0 := by
  have hle := length_text_le dst
  have hm := length_text_lt hsrc
  by_cases hfull : (text dst).length = maxlen
  · refine iff_of_true ⟨_, _, strlcat_full hsrc hfull, by omega, fun h => ?_⟩ (.inl hfull)
    exact absurd (length_text_lt h) (by omega)
  have hdst : 0 ∈ dst.slice 0 maxlen := by_contra fun h => hfull (length_text_eq h)
  have htext := (append_inj' ((slice_add dst 0 _ 1).symm.trans (slice_text hdst)) (by simp)).1
  by_cases hfits : (text dst).length + (text src).length < maxlen
  · refine iff_of_true ⟨_, _, strlcat_fits hsrc hfits, by omega, fun _ => ?_⟩ (.inr (.inl hfits))
    have hj := slice_splice_append dst (text dst).length (text src ++ [0]) (by simp; omega)
    rw [Nat.min_eq_left (by omega)]
    refine ⟨by omega, ?_⟩
    rw [take_of_length_le (by simp), append_assoc, ← htext]
    simpa [Nat.add_assoc, htext] using hj
  rw [strlcat_long hsrc (by omega) (by omega)]
  by_cases h0 : (text dst).length = 0
  · refine iff_of_true ⟨_, _, if_pos h0, by omega, fun _ => ?_⟩ (.inr (.inr h0))
    have hk : maxlen - 1 ≤ (text src).length := by omega
    have hs : src.slice 0 (maxlen - 1) = (text src).take (maxlen - 1) := by
      rw [← take_slice src 0 (hk.trans (Nat.le_succ _)), slice_text hsrc, take_append_of_le_length hk]
    have hj := slice_splice_append (dst.splice 0 (src.slice 0 (maxlen - 1))) (maxlen - 1) [0] (by simp; omega)
    have hc := slice_splice_same dst 0 (src.slice 0 (maxlen - 1)) (by simp)
    rw [length_slice] at hc
    rw [Nat.min_eq_right (by omega), length_eq_zero_iff.mp h0, nil_append]
    exact ⟨by omega, hj.trans (by rw [hc, hs])⟩
  · refine iff_of_false ?_ (by omega)
    rw [if_neg h0]
    simp

omit hsrc

/-- The buffer holds `a`, and there is room for one more character. -/
theorem strlcat_iff_room :
    ∃ dst' r, strlcat (Arr.ofList 3 [97]) (Arr.ofList 2 [98]) = .ok (dst', r) ∧
      Concatenated (Arr.ofList 3 [97]) (Arr.ofList 2 [98]) dst' r :=
  (strlcat_iff (by decide)).mpr (.inr (.inl (by decide)))

/-- One character more, and the terminator is written behind the buffer. -/
theorem strlcat_overrun :
    strlcat (Arr.ofList 3 [97]) (Arr.ofList 3 [98, 99]) = .error .outOfBounds := rfl

end Jos.Strlcat
