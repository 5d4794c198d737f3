import Jos.Access
import Jos.RegionCopy

/-!
The region that comes with a message. The receiver is told the smaller one of the two sizes, and
what is mapped is one page, whatever the sizes are.
-/

namespace Jos.SysCall

open CArray (bind_eq_ok)
open PmapModel Runs
open EnvTable (Slot EnvId envid2env)

variable {k k' : Kernel} {c s : Slot} {envid : EnvId} {value : UInt32} {srcva size : UInt64} {perm : UInt32}
  {dst src n : ℕ}

/-- **The region was sent**: the pages of the sender are mapped for the receiver, and nothing else changes.
-/
structure Sent (flags : UInt32) (k k' : Kernel) (s c : Slot) (dst src len : ℕ) : Prop where
  mapped : ∀ o < len, dst + o < treeSize → src + o < treeSize → SharesPage flags (k.mem.view (spaceOf c) (src + o))
    (k'.mem.view (spaceOf c) (src + o)) (k'.mem.view (spaceOf s) (dst + o))
  unmapped : ∀ o < len, dst + o < treeSize → src + o < treeSize → k.mem.view (spaceOf c) (src + o) = none →
    k'.mem.view (spaceOf s) (dst + o) = none
  rest : ∀ va < treeSize, ¬(dst ≤ va ∧ va < dst + len) → k'.mem.view (spaceOf s) va = k.mem.view (spaceOf s) va
  sender : ∀ va < treeSize, ¬(src ≤ va ∧ va < src + len) → k'.mem.view (spaceOf c) va = k.mem.view (spaceOf c) va

structure Plain (k : Kernel) (s c : Slot) (dst src : ℕ) (perm : UInt32) : Prop where
  strangers : s ≠ c
  /-- no new pages are asked for -/
  flags : ¬Sets (perm ||| protUser) (allocOne ||| allocZero)
  weak : ¬Sets (perm ||| protUser) allocWeak
  /-- there is a page to send, or none to take away -/
  holes : ∀ o < classSize 0, k.mem.view (spaceOf c) (src + o) = none → k.mem.view (spaceOf s) (dst + o) = none

lemma user_page_le {a : ℕ} (h : a < maxUserAddress) : a + classSize 0 ≤ treeSize := by
  have hmax : maxUserAddress = 2 ^ 39 := rfl
  have hsize : classSize 0 = 2 ^ 12 := rfl
  have htree : treeSize = 2 ^ 60 := rfl
  omega

lemma Plain.copied (hk : k.mem.Formed) (hplain : Plain k s c dst src perm) (hdst : dst < maxUserAddress)
    (hsrc : src < maxUserAddress) (h : mapRegion k.setting (spaceOf s) dst (some (spaceOf c)) src (classSize 0)
      (perm ||| protUser) k.mem = .ok (k'.mem, .ok)) : Sent (perm ||| protUser) k k' s c dst src (classSize 0) := by
  have hne : spaceOf s ≠ spaceOf c := fun he => hplain.strangers (spaceOf_injective he)
  have hhere : ForcedHere (perm ||| protUser) (spaceOf c) src (classSize 0) k.mem := fun o ho hdvd _ _ _ _ => by
    have hmax : maxUserAddress = 4096 * 2 ^ 27 := rfl
    rw [show classSize 0 = 4096 from rfl] at ho hdvd
    exact if_neg (by omega)
  have hcopied := copied_mapRegion hk
    ⟨user_page_le hdst, user_page_le hsrc, fun he => absurd he.symm hne⟩ hplain.flags hplain.weak hhere h
  refine ⟨fun o ho _ _ => hcopied.mapped o ho, fun o ho _ _ hnone => ?_, fun va hva hout => ?_, fun va hva hout => ?_⟩
  · rw [hcopied.hole o ho hnone]
    exact hplain.holes o ho hnone
  · exact hcopied.others (spaceOf s) va hva (fun hin => hout hin.2) fun hin => hne hin.1
  · exact hcopied.others (spaceOf c) va hva (fun hin => hne hin.1.symm) fun hin => hout hin.2

end Jos.SysCall
