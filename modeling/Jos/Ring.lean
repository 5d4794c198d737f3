import Mathlib.Algebra.Group.Fin.Basic
import Mathlib.Algebra.GroupWithZero.Nat
import Mathlib.Data.Fin.Basic
import Mathlib.Data.List.Range

/-!
Cyclic ranges of the indices of a ring, and the queue of what lies in the slots of a range.

A range goes from `h` up to but excluding `t`, so it is empty where they meet, and the longest
one leaves out a single slot.
-/

namespace Jos.Ring

open List Nat

variable {n : ℕ} [NeZero n] {α : Type*} {h t i : Fin n} {slot slot' : Fin n → α}

def InRange (h t i : Fin n) : Prop := (i - h).val < (t - h).val
  deriving Decidable

def queue (slot : Fin n → α) (h t : Fin n) : List α :=
  (List.range (t - h).val).map fun j => slot (h + Fin.ofNat n j)

lemma val_succ_of_ne {d : Fin n} (hd : d + 1 ≠ 0) : (d + 1).val = d.val + 1 := by
  refine Fin.val_add_one_of_lt' (lt_of_le_of_ne d.isLt fun hn => hd (Fin.ext ?_))
  rw [Fin.val_add, Fin.val_zero, Fin.val_one', add_mod_mod, hn, mod_self]

lemma val_of_succ_eq_zero {d : Fin n} (hd : d + 1 = 0) : d.val + 1 = n := by
  by_contra hn
  have hs := Fin.val_add_one_of_lt' (lt_of_le_of_ne d.isLt hn)
  rw [hd, Fin.val_zero] at hs
  omega

lemma length_push (hfull : t + 1 ≠ h) : (t + 1 - h).val = (t - h).val + 1 := by
  rw [add_sub_right_comm]
  refine val_succ_of_ne fun hd => hfull ?_
  rwa [← add_sub_right_comm, sub_eq_zero] at hd

lemma length_pop (hne : h ≠ t) : (t - (h + 1)).val + 1 = (t - h).val := by
  have hd : t - h ≠ 0 := fun hd => hne (sub_eq_zero.mp hd).symm
  have hpos := Fin.pos_iff_ne_zero.mpr hd
  rw [← sub_sub, Fin.val_sub_one_of_ne_zero hd]
  have := Fin.lt_def.mp hpos
  rw [Fin.val_zero] at this
  omega

omit [NeZero n] in
lemma not_inRange_tail : ¬InRange h t t := lt_irrefl _

lemma not_inRange_self : ¬InRange h h i := by
  unfold InRange
  rw [sub_self, Fin.val_zero]
  exact not_lt_zero _

lemma inRange_head (hne : h ≠ t) : InRange h t h := by
  unfold InRange
  have := length_pop hne
  rw [sub_self, Fin.val_zero]
  omega

lemma inRange_push_iff (hfull : t + 1 ≠ h) : InRange h (t + 1) i ↔ InRange h t i ∨ i = t := by
  unfold InRange
  rw [length_push hfull, Nat.lt_succ_iff_lt_or_eq]
  refine or_congr_right ⟨fun he => ?_, fun he => by rw [he]⟩
  exact sub_left_injective (Fin.ext he)

lemma inRange_pop_iff (hne : h ≠ t) : InRange (h + 1) t i ↔ InRange h t i ∧ i ≠ h := by
  have hlen := length_pop hne
  unfold InRange
  by_cases hi : i = h
  · -- the index that was left comes last, behind every range
    refine iff_of_false ?_ fun hh => hh.2 hi
    have hlast : (h - (h + 1)).val + 1 = n := val_of_succ_eq_zero (by rw [← add_sub_right_comm, sub_self])
    rw [hi]
    omega
  · have hsub := length_pop (Ne.symm hi)
    constructor
    · exact fun hh => ⟨by omega, hi⟩
    · rintro ⟨hh, -⟩
      omega

@[simp] lemma length_queue : (queue slot h t).length = (t - h).val := by
  simp [queue]

lemma queue_self : queue slot h h = [] := by
  rw [← length_eq_zero_iff, length_queue, sub_self, Fin.val_zero]

lemma add_ofNat_sub (h d : Fin n) : h + Fin.ofNat n (d - h).val = d := by
  have hval : Fin.ofNat n (d - h).val = d - h := Fin.ext (mod_eq_of_lt (d - h).isLt)
  rw [hval, add_sub_cancel]

lemma queue_congr (hs : ∀ i, InRange h t i → slot i = slot' i) : queue slot h t = queue slot' h t := by
  refine map_congr_left fun j hj => hs _ ?_
  have hj := mem_range.mp hj
  have hlt : j < n := hj.trans (t - h).isLt
  unfold InRange
  rwa [add_sub_cancel_left, Fin.val_ofNat, mod_eq_of_lt hlt]

lemma queue_push (hfull : t + 1 ≠ h) : queue slot h (t + 1) = queue slot h t ++ [slot t] := by
  unfold queue
  rw [length_push hfull, range_succ, map_append, map_singleton, add_ofNat_sub]

lemma queue_pop (hne : h ≠ t) : queue slot h t = slot h :: queue slot (h + 1) t := by
  unfold queue
  rw [← length_pop hne, range_succ_eq_map, map_cons, map_map]
  refine congrArg₂ _ ?_ (map_congr_left fun j _ => ?_)
  · rw [show Fin.ofNat n 0 = 0 from Fin.ext (zero_mod n), add_zero]
  · rw [Function.comp_apply, add_assoc]
    congr 2
    refine Fin.ext ?_
    rw [Fin.val_add, Fin.val_one', Fin.val_ofNat, Fin.val_ofNat, ← add_mod, add_comm 1]

lemma getElem?_queue {j : ℕ} {x : α} (hj : (queue slot h t)[j]? = some x) : slot (h + Fin.ofNat n j) = x := by
  obtain ⟨hlt, hx⟩ := List.getElem?_eq_some_iff.mp hj
  rw [← hx]
  simp [queue]

end Jos.Ring
