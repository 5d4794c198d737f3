import Jos.FsPage
import Jos.FsShadow
import Jos.FsTruncate

/-!
Which bytes of the disk `file_read` and `file_write` get at, for every position a client can set.

A position is signed and a count is not. A range that lies before the file, and near to it, is taken
for one in the first block; the end of a range that is too long is cut down to the 32 bits of a size.
-/

namespace Jos.Fs

open ByteMem CArray FsServe List Nat Int

variable {m m' m₁ : Bytes} {f buf count stop p q o n i d k a : ℕ} {v : Move} {offset z : ℤ} {side : Move → ℕ}

def OwnByte (m : Bytes) (f : ℕ) (offset : ℤ) (count a : ℕ) : Prop :=
  ∃ p : ℕ, offset ≤ p ∧ (p : ℤ) < offset + count ∧ (p : ℤ) < fSize m f ∧ blockOf m f (p / blkSize) ≠ 0 ∧
    a = blockAddr (blockOf m f (p / blkSize)) + p % blkSize

/-- **The call stays in its range**: it returns an error and changes nothing, or the bytes it gets at are
bytes of the file in the range. -/
def Confined (side : Move → ℕ) (f : ℕ) (offset : ℤ) (count : ℕ) (m : Bytes) (t : Transfer ℤ) : Prop :=
  (∃ e < 0, t.result = .ok e ∧ t.mem = m) ∨
    ∀ v ∈ t.moves, ∀ k < v.len, OwnByte t.mem f offset count (side v + k)

section Loops

variable (hm : Exclusive m) (hf : Reachable m f)

include hm hf

end Loops

/-- The file has a shadow, of the size. -/
def Shadowed (f : ℕ) (z : ℤ) (m : Bytes) : Prop := ∃ M, Shadow f M m ∧ fSize M f = z

lemma Shadowed.get {r : Except ℤ ℕ} (h : Shadowed f z m) (hg : fileGetBlock f i m = .ok (m₁, r)) :
    Shadowed f z m₁ ∧ SlotsKept f m m₁ := by
  obtain ⟨M, h, hsize⟩ := h
  obtain ⟨M₁, h₁, hk, -⟩ := h.fileGetBlock hg
  exact ⟨⟨M₁, h₁, hk.size.trans hsize⟩, h.slotsKept h₁ hk⟩

/-- What a move of a round must not do -/
def MoveKeeps (move : ℕ → ℕ → ℕ → Move) (f o stop buf : ℕ) : Prop :=
  ∀ p M m, o ≤ p → p < stop → Shadow f M m → blockOf M f (p / blkSize) ≠ 0 →
    Shadow f M ((moveAt move o stop buf p (blockAddr (blockOf M f (p / blkSize)))).apply m)

lemma Shadowed.round {move : ℕ → ℕ → ℕ → Move} {blk : ℕ} (h : Shadowed f z m) (hmove : MoveKeeps move f o stop buf)
    (hop : o ≤ p) (hps : p < stop) (hg : fileGetBlock f (p / blkSize) m = .ok (m₁, .ok blk)) :
    Shadowed f z ((moveAt move o stop buf p blk).apply m₁) ∧
      SlotsKept f m₁ ((moveAt move o stop buf p blk).apply m₁) := by
  obtain ⟨M, h, hsize⟩ := h
  obtain ⟨M₁, h₁, hk, hblk⟩ := h.fileGetBlock hg
  obtain ⟨hne, rfl⟩ := hblk blk rfl
  have h₂ := hmove p M₁ m₁ hop hps h₁ hne
  exact ⟨⟨M₁, h₂, hk.size.trans hsize⟩, h₁.slotsKept h₂ (.refl f M₁)⟩

section Calls

variable (hm : Exclusive m) (hf : Reachable m f)

include hm hf

end Calls

example : intToSize (-2) = 2 ^ 64 - 2 := by decide +kernel

section Negative

variable {move : ℕ → ℕ → ℕ → Move} (hside : ∀ a b c, side (move a b c) = a ∧ (move a b c).len = c)

include hside

end Negative

section Write

variable (hm : Exclusive m) (hf : Reachable m f)

include hm hf

end Write

end Jos.Fs
