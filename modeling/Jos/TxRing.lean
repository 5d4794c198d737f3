import Jos.E1000
import Jos.Ring
import Jos.Runs

/-!
The transmit ring, shared by `e1000_transmit` and the card.

The driver tells a full ring by the flag of the tail descriptor, the card an empty one by head
and tail being equal. With the last descriptor the driver makes them equal while every frame is still
to be sent: the card stops, and the driver waits for it.
-/

namespace Jos.TxRing

open CArray Packets E1000 Runs Jos.Ring List Function

structure TxState where
  nic : Nic
  tdh : DescIdx
  sent : List (List UInt8)

/-- The part of `e1000_transmit_init` that the driver looks at later. -/
def e1000TransmitInit (nic : Nic) : Nic :=
  { nic with
    tdt := 0
    txDescTable := fun i =>
      { nic.txDescTable i with status := (nic.txDescTable i).status ||| txdStatDD } }

def boot (nic : Nic) : TxState := ⟨{ e1000TransmitInit nic with accepted := [] }, 0, []⟩

def frameAt (nic : Nic) (i : DescIdx) : List UInt8 :=
  (nic.txBuf i).slice 0 (nic.txDescTable i).length.toNat

/-- The card sends the frame at its head, if there is one. -/
def nicSend (s : TxState) : TxState :=
  if s.tdh = s.nic.tdt then s
  else
    { nic := { s.nic with
        txDescTable := Function.update s.nic.txDescTable s.tdh
          { s.nic.txDescTable s.tdh with
            status := (s.nic.txDescTable s.tdh).status ||| txdStatDD } }
      tdh := s.tdh + 1
      sent := s.sent ++ [frameAt s.nic s.tdh] }

/-- A call of `e1000_transmit`: a buffer that holds the bytes it is said to hold. -/
structure Call where
  n : ℕ
  buf : Arr n
  len : UInt16
  inside : len.toNat ≤ n

inductive Step
  | transmit (call : Call)
  | nic

def step (s : TxState) : Step → Except Fault TxState
  | .transmit call => do
    let r ← e1000Transmit s.nic call.buf call.len
    .ok { s with nic := r.1 }
  | .nic => .ok (nicSend s)

/-- **The ring does its work**: frames are sent in their order and no more often, an idle card has sent them
all, one that waits lies in its buffer, and the flags are clear exactly from head to tail. -/
structure Correct (s : TxState) : Prop where
  inOrder : s.sent <+: s.nic.accepted
  idle : s.tdh = s.nic.tdt → s.sent = s.nic.accepted
  intact : ∀ j frame, (s.nic.accepted.drop s.sent.length)[j]? = some frame →
    frameAt s.nic (s.tdh + Fin.ofNat 64 j) = frame
  flags : ∀ i, (s.nic.txDescTable i).status &&& txdStatDD = 0 ↔ InRange s.tdh s.nic.tdt i
  delivered : ∃ k, (nicSend^[k] s).sent = s.nic.accepted

def LeavesOneFree (s : TxState) : Step → Prop
  | .transmit _ => s.nic.tdt + 1 ≠ s.tdh
  | .nic => True

lemma clear_dd (status : UInt8) : (status &&& ~~~txdStatDD) &&& txdStatDD = 0 := and_not_and_self _ _

lemma set_dd (status : UInt8) : (status ||| txdStatDD) &&& txdStatDD ≠ 0 := by
  rw [or_and_self]
  decide

structure Inv (s : TxState) : Prop where
  queue : s.nic.accepted = s.sent ++ queue (frameAt s.nic) s.tdh s.nic.tdt
  flags : ∀ i, (s.nic.txDescTable i).status &&& txdStatDD = 0 ↔ InRange s.tdh s.nic.tdt i

variable {s s' : TxState}

lemma inv_boot (nic : Nic) : Inv (boot nic) where
  queue := queue_self.symm
  flags := fun _ => iff_of_false (set_dd _) not_inRange_self

lemma inv_nicSend (h : Inv s) : Inv (nicSend s) := by
  unfold nicSend
  by_cases hidle : s.tdh = s.nic.tdt
  · rw [if_pos hidle]
    exact h
  rw [if_neg hidle]
  constructor
  · show s.nic.accepted = (s.sent ++ [frameAt s.nic s.tdh]) ++ Ring.queue _ (s.tdh + 1) s.nic.tdt
    rw [append_assoc, singleton_append, h.queue, queue_pop hidle]
    refine congrArg (fun q => s.sent ++ frameAt s.nic s.tdh :: q) (queue_congr fun i hi => ?_)
    -- the descriptor that changes is not in the queue any more
    have hne := ((inRange_pop_iff hidle).mp hi).2
    unfold frameAt
    dsimp only
    rw [update_of_ne hne]
  · intro i
    show (update s.nic.txDescTable s.tdh _ i).status &&& txdStatDD = 0 ↔ InRange (s.tdh + 1) s.nic.tdt i
    rw [inRange_pop_iff hidle]
    by_cases hi : i = s.tdh
    · rw [hi, update_self]
      exact iff_of_false (set_dd _) fun hr => hr.2 rfl
    · rw [update_of_ne hi, h.flags i]
      exact ⟨fun hr => ⟨hr, hi⟩, fun hr => hr.1⟩

lemma inv_accept (h : Inv s) (hfree : s.nic.tdt + 1 ≠ s.tdh) {frame : List UInt8}
    (hlen : frame.length ≤ e1000BufferSize) : Inv { s with nic := s.nic.accept frame } := by
  have hsz := sizes
  constructor
  · show s.nic.accepted ++ [frame] = s.sent ++ Ring.queue _ s.tdh (s.nic.tdt + 1)
    rw [queue_push hfree, h.queue, append_assoc]
    have hlast : frameAt (s.nic.accept frame) s.nic.tdt = frame := by
      unfold frameAt Nic.accept
      dsimp only
      rw [update_self, update_self]
      dsimp only
      rw [toNat_toUInt16, Arr.slice_splice_same _ _ _ (by omega)]
    rw [show frameAt _ s.nic.tdt = frame from hlast]
    refine congrArg (fun q => s.sent ++ (q ++ [frame])) (queue_congr fun i hi => ?_)
    -- the tail is not in the queue yet
    have hne : i ≠ s.nic.tdt := by
      rintro rfl
      exact not_inRange_tail hi
    unfold frameAt Nic.accept
    dsimp only
    rw [update_of_ne hne, update_of_ne hne]
  · intro i
    show (update s.nic.txDescTable s.nic.tdt _ i).status &&& txdStatDD = 0 ↔ InRange s.tdh (s.nic.tdt + 1) i
    rw [inRange_push_iff hfree]
    by_cases hi : i = s.nic.tdt
    · rw [hi, update_self]
      exact iff_of_true (clear_dd _) (.inr rfl)
    · rw [update_of_ne hi, h.flags i]
      exact ⟨.inl, fun hr => hr.resolve_right hi⟩

def Call.frame (call : Call) : List UInt8 :=
  call.buf.slice 0 (if e1000BufferSize < call.len.toNat then e1000BufferSize else call.len.toNat)

lemma Call.length_frame (call : Call) : call.frame.length ≤ e1000BufferSize := by
  unfold Call.frame
  rw [Arr.length_slice]
  split <;> omega

lemma step_transmit (s : TxState) (call : Call) : step s (.transmit call) =
      if TxFull s.nic then .ok s else .ok { s with nic := s.nic.accept call.frame } := by
  have hin := call.inside
  unfold step
  dsimp only
  unfold e1000Transmit
  by_cases hfull : TxFull s.nic
  · simp only [if_pos hfull]
    rfl
  · simp only [if_neg hfull]
    rw [Arr.read_ok _ (by split <;> omega)]
    rfl

section

variable (h : Inv s)
include h

lemma Inv.not_txFull : ¬TxFull s.nic := fun hfull =>
  not_inRange_tail ((h.flags s.nic.tdt).mp hfull)

lemma Inv.step {x : Step} (hfree : LeavesOneFree s x) (hs : TxRing.step s x = .ok s') : Inv s' := by
  cases x with
  | nic =>
    cases hs
    exact inv_nicSend h
  | transmit call =>
    rw [step_transmit, if_neg h.not_txFull] at hs
    cases hs
    exact inv_accept h hfree call.length_frame

lemma Inv.broken {x : Step} (hfree : ¬LeavesOneFree s x) : ∃ s', TxRing.step s x = .ok s' ∧ ¬Correct s' := by
  cases x with
  | nic => exact absurd trivial hfree
  | transmit call =>
    have hlast : s.nic.tdt + 1 = s.tdh := not_not.mp hfree
    refine ⟨_, by rw [step_transmit, if_neg h.not_txFull], fun hcorrect => ?_⟩
    have hclear := (hcorrect.flags s.nic.tdt).mp (by
      show (update s.nic.txDescTable s.nic.tdt _ s.nic.tdt).status &&& txdStatDD = 0
      rw [update_self]
      exact clear_dd _)
    have hempty : InRange s.tdh s.tdh s.nic.tdt := by
      rwa [show (s.nic.accept call.frame).tdt = s.tdh from hlast] at hclear
    exact not_inRange_self hempty

lemma Inv.idle (hidle : s.tdh = s.nic.tdt) : s.sent = s.nic.accepted := by
  rw [h.queue, hidle, queue_self, append_nil]

lemma Inv.delivered : ∃ k, (nicSend^[k] s).sent = s.nic.accepted := by
  -- by induction on the number of frames to be sent
  induction hk : (s.nic.tdt - s.tdh).val generalizing s with
  | zero =>
    have hidle : s.nic.tdt - s.tdh = 0 := Fin.ext hk
    exact ⟨0, h.idle (sub_eq_zero.mp hidle).symm⟩
  | succ k ih =>
    have hne : s.tdh ≠ s.nic.tdt := by
      intro heq
      rw [heq, sub_self] at hk
      cases hk
    have hsent : nicSend s = _ := if_neg hne
    have hlen := length_pop hne
    obtain ⟨m, hm⟩ := ih (inv_nicSend h) (by
      rw [hsent]
      show (s.nic.tdt - (s.tdh + 1)).val = k
      omega)
    refine ⟨m + 1, ?_⟩
    rw [iterate_succ_apply, hm, hsent]

lemma Inv.correct : Correct s where
  inOrder := ⟨_, h.queue.symm⟩
  idle := h.idle
  intact := fun j frame hj => by
    rw [h.queue, drop_left] at hj
    exact getElem?_queue hj
  flags := h.flags
  delivered := h.delivered

end

/-- **The ring does its work exactly as long as no call takes the last descriptor.** -/
theorem tx_ring_correct_iff (nic : Nic) (xs : List Step) :
    (∀ pre s, pre <+: xs → run step (boot nic) pre = .ok s → Correct s) ↔
      ∀ pre x s, pre ++ [x] <+: xs → run step (boot nic) pre = .ok s → LeavesOneFree s x :=
  run_forall_iff (fun _ _ _ h => h.step) (fun _ h => h.correct) (fun _ _ h => h.broken)
    (inv_boot nic) xs

def oneByte (b : UInt8) : Call := ⟨1, ⟨fun _ => b⟩, 1, le_refl 1⟩

/-- `64` calls while the card does nothing: all of them return, head and tail are equal, and none
of the frames is ever sent. -/
theorem tx_ring_stuck :
    ¬ ∀ (nic : Nic) (xs : List Step) (s : TxState), run step (boot nic) xs = .ok s → Correct s := by
  intro h
  obtain ⟨s, hs, hidle, hsent, haccepted⟩ : ∃ s, run step (boot zeroNic)
      (replicate 64 (.transmit (oneByte 7))) = .ok s ∧ s.tdh = s.nic.tdt ∧ s.sent = [] ∧
        s.nic.accepted.length = 64 := by
    decide
  have hall := (h _ _ s hs).idle hidle
  rw [← hall, hsent] at haccepted
  cases haccepted

end Jos.TxRing
