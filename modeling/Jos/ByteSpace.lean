import Mathlib.Data.UInt
import Mathlib.Data.Nat.Notation
import Mathlib.Tactic.Linarith

/-!
What an address space holds, byte by byte: ranges are mapped to zeros, written, given to another
space and unmapped.
-/

namespace Jos.ByteSpace

abbrev Space := ℕ → Option UInt8

namespace Space

def empty : Space := fun _ => none

/-- The address is one of the `len` from `lo` on. -/
def In (lo len a : ℕ) : Prop := lo ≤ a ∧ a < lo + len
  deriving Decidable

def zero (m : Space) (lo len : ℕ) : Space := fun a => if In lo len a then some 0 else m a

/-- The bytes `f 0`, `f 1`, … are written. -/
def store (m : Space) (lo len : ℕ) (f : ℕ → UInt8) : Space := fun a => if In lo len a then some (f (a - lo)) else m a

def share (m src : Space) (dst lo len : ℕ) : Space :=
  fun a => if In dst len a then (src (lo + (a - dst))).or (m a) else m a

def unmap (m : Space) (lo len : ℕ) : Space := fun a => if In lo len a then none else m a

def Mapped (m : Space) (lo len : ℕ) : Prop := ∀ i < len, m (lo + i) ≠ none

instance (m : Space) (lo len : ℕ) : Decidable (m.Mapped lo len) := inferInstanceAs (Decidable (∀ i < len, _))

variable {m src : Space} {lo len dst a : ℕ} {f : ℕ → UInt8}

lemma zero_in (h : In lo len a) : m.zero lo len a = some 0 := if_pos h

lemma zero_out (h : ¬In lo len a) : m.zero lo len a = m a := if_neg h

lemma store_in (h : In lo len a) : m.store lo len f a = some (f (a - lo)) := if_pos h

lemma store_out (h : ¬In lo len a) : m.store lo len f a = m a := if_neg h

lemma share_out (h : ¬In dst len a) : m.share src dst lo len a = m a := if_neg h

lemma share_in {c : UInt8} (h : In dst len a) (hc : src (lo + (a - dst)) = some c) :
    m.share src dst lo len a = some c := by
  rw [share, if_pos h, hc, Option.some_or]

lemma mapped_of_in {lo' len' : ℕ} (h : ∀ a, In lo len a → m a ≠ none) (hlo : lo ≤ lo') (hhi : lo' + len' ≤ lo + len) :
    m.Mapped lo' len' := fun i hi => h (lo' + i) ⟨by omega, by omega⟩

end Space

end Jos.ByteSpace
