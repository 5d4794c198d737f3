import Jos.FsAccess
import Jos.FsPath

/-!
What `file_write` and `file_create` leave of the disk when they fail.

The size is set before the first block is looked for, and what was taken or written before the block that
cannot be had is not given back.
-/

namespace Jos.Fs

open ByteMem CArray FsServe Nat BitVec Except Int

variable {m m' m₁ : Bytes} {f d buf count stop p q o n i : ℕ} {offset e : ℤ} {path name : List UInt8}
  {names : List (List UInt8)}

/-- `offset + count` as a `size_t`. -/
def stopOf (offset : ℤ) (count : ℕ) : ℕ := (intToSize offset + count) % 2 ^ 64

def NoResize (m : Bytes) (f stop : ℕ) : Prop :=
  ¬ intToSize (fSize m f) < stop ∨ sizeToInt stop = fSize m f

/-- The file has the bytes of the buffer up to `q` already, and at `q` no block can be had. -/
structure StuckAt (m : Bytes) (f buf o q : ℕ) : Prop where
  start : q = o ∨ q % blkSize = 0
  same : ∀ p, o ≤ p → p < q → blockOf m f (p / blkSize) ≠ 0 ∧ byteAt m f p = m (buf + (p - o))
  none : maxFileSize ≤ q ∨ (blockOf m f (q / blkSize) = 0 ∧ ∀ b, ¬ blockIsFree m b)

/-- A write that fails does no harm: the size stays, and nothing has been changed when the loop gets stuck.
-/
def Harmless (m : Bytes) (f buf : ℕ) (offset : ℤ) (count : ℕ) : Prop :=
  NoResize m f (stopOf offset count) ∧
    ∀ o : ℕ, offset = o → o < stopOf offset count → ∃ q, o ≤ q ∧ q < stopOf offset count ∧ StuckAt m f buf o q

section Write

variable (hm : Exclusive m) (hf : Reachable m f)

include hm hf

/-- What has been written up to a position of a round -/
structure WrittenTo (f buf o stop : ℕ) (m : Bytes) (p : ℕ) (m' : Bytes) : Prop where
  written : Written f buf o m p m'
  start : p = o ∨ p % blkSize = 0 ∨ stop ≤ p

omit hm in
lemma WrittenTo.round (hd : ¬ IsDir m f) (hbuf : ∀ k < stop - o, o + k < maxFileSize → OffDisk (buf + k)) {blk : ℕ}
    (h : WrittenTo f buf o stop m p m') (hp : o ≤ p) (hps : p < stop)
    (hget : fileGetBlock f (p / blkSize) m' = .ok (m₁, .ok blk)) :
    WrittenTo f buf o stop m (p + chunk stop p) ((moveAt fromBuf o stop buf p blk).apply m₁) := by
  refine ⟨h.written.round hf hd hbuf hp hps hget, ?_⟩
  unfold chunk
  simp only [blkSize]
  omega

end Write

section WriteFails

variable (hm : Consistent m) (hf : Reachable m f) (hd : ¬ IsDir m f)

include hm hf hd

section

variable (hlo : -(2 ^ 31) ≤ offset) (hhi : offset < 2 ^ 31) (hc : count < 2 ^ 64)
include hlo hhi hc

end

end WriteFails

section Create

variable (ht : DirTree m) (hd : Reachable m d) (hdir : IsDir m d)

include ht hd hdir

end Create

end Jos.Fs
