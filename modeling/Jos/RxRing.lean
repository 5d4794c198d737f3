import Jos.E1000
import Jos.Ring
import Jos.Runs

/-!
The receive ring, shared by the card and `e1000_receive`.

The descriptor behind the tail is the next one to read, and its flag says whether the card has filled
it. The card stops one descriptor before it would catch up, so that the flag is never ambiguous.
-/

namespace Jos.RxRing

open CArray Packets E1000 Runs Jos.Ring List Function Arr

/-- The ring with the card's head, the frames stored and those that `e1000_receive` has returned, oldest
first. -/
structure RxState where
  nic : Nic
  rdh : DescIdx
  stored : List (List UInt8)
  returned : List (List UInt8)

/-- The part of `e1000_receive_init` that the driver looks at later. -/
def e1000ReceiveInit (nic : Nic) : Nic :=
  { nic with
    rdt := Fin.last 63
    rxDescTable := fun i =>
      { nic.rxDescTable i with status := (nic.rxDescTable i).status &&& ~~~rxdStatDD } }

def boot (nic : Nic) : RxState := ⟨e1000ReceiveInit nic, 0, [], []⟩

structure Frame where
  bytes : List UInt8
  nonempty : 0 < bytes.length
  fits : bytes.length ≤ e1000BufferSize

/-- The card stores a frame at its head, if it may. -/
def nicStore (s : RxState) (frame : Frame) : RxState :=
  if s.rdh = s.nic.rdt then s
  else
    { s with
      nic := { s.nic with
        rxBuf := Function.update s.nic.rxBuf s.rdh ((s.nic.rxBuf s.rdh).splice 0 frame.bytes)
        rxDescTable := Function.update s.nic.rxDescTable s.rdh
          ⟨frame.bytes.length.toUInt16,
            (s.nic.rxDescTable s.rdh).status ||| (rxdStatDD ||| rxdStatEOP)⟩ }
      rdh := s.rdh + 1
      stored := s.stored ++ [frame.bytes] }

inductive Step
  | receive (n : ℕ) (buffer : Arr n)
  | nic (frame : Frame)

def step (s : RxState) : Step → Except Fault RxState
  | .receive _ buffer => do
    let r ← e1000Receive s.nic buffer
    .ok { s with
      nic := r.1
      returned := if 0 < r.2.2 then s.returned ++ [r.2.1.slice 0 r.2.2.toNat] else s.returned }
  | .nic frame => .ok (nicStore s frame)

def frameAt (nic : Nic) (i : DescIdx) : List UInt8 :=
  (nic.rxBuf i).slice 0 (nic.rxDescTable i).length.toNat

/-- **The ring does its work**: frames are returned in their order and no more often, one that was not
returned lies in its buffer, and a call with room for any frame returns the next one. -/
structure Correct (s : RxState) : Prop where
  inOrder : s.returned <+: s.stored
  intact : ∀ j frame, (s.stored.drop s.returned.length)[j]? = some frame →
    frameAt s.nic (s.nic.rxTail + Fin.ofNat 64 j) = frame
  next : ∀ (n : ℕ) (buffer : Arr n), e1000BufferSize ≤ n →
    ∃ s', step s (.receive n buffer) = .ok s' ∧ s'.stored = s.stored ∧
      s'.returned = s.stored.take (s.returned.length + 1)

lemma clear_dd (status : UInt8) : (status &&& ~~~rxdStatDD) &&& rxdStatDD = 0 := and_not_and_self _ _

lemma set_dd (status : UInt8) : (status ||| (rxdStatDD ||| rxdStatEOP)) &&& rxdStatDD ≠ 0 := by
  rw [UInt8.or_comm rxdStatDD, ← UInt8.or_assoc, or_and_self]
  decide

lemma set_eop (status : UInt8) : (status ||| (rxdStatDD ||| rxdStatEOP)) &&& rxdStatEOP ≠ 0 := by
  rw [← UInt8.or_assoc, or_and_self]
  decide

def Complete (desc : RxDesc) : Prop :=
  desc.status &&& rxdStatEOP ≠ 0 ∧ 0 < desc.length.toNat ∧ desc.length.toNat ≤ e1000BufferSize

structure Inv (s : RxState) : Prop where
  queue : s.stored = s.returned ++ queue (frameAt s.nic) s.nic.rxTail s.rdh
  flags : ∀ i, (s.nic.rxDescTable i).status &&& rxdStatDD ≠ 0 ↔ InRange s.nic.rxTail s.rdh i
  complete : ∀ i, InRange s.nic.rxTail s.rdh i → Complete (s.nic.rxDescTable i)

variable {s s' : RxState} {n : ℕ}

lemma inv_boot (nic : Nic) : Inv (boot nic) := by
  have htail : (boot nic).nic.rxTail = (boot nic).rdh := Fin.last_add_one 63
  constructor
  · rw [htail, queue_self]
    rfl
  · rw [htail]
    exact fun i => iff_of_false (not_not.mpr (clear_dd _)) not_inRange_self
  · rw [htail]
    exact fun i hi => absurd hi not_inRange_self

lemma inv_nicStore (h : Inv s) (frame : Frame) : Inv (nicStore s frame) := by
  have hsz := sizes
  have hfits := frame.fits
  unfold nicStore
  by_cases hfull : s.rdh = s.nic.rdt
  · rw [if_pos hfull]
    exact h
  rw [if_neg hfull]
  have hfree : s.rdh + 1 ≠ s.nic.rxTail := fun heq => hfull (add_right_cancel heq)
  constructor
  · show s.stored ++ [frame.bytes] = s.returned ++ Ring.queue _ s.nic.rxTail (s.rdh + 1)
    rw [queue_push hfree, h.queue, append_assoc]
    refine congrArg (s.returned ++ ·) (congrArg₂ _ (queue_congr fun i hi => ?_) ?_)
    · have hne : i ≠ s.rdh := by
        rintro rfl
        exact not_inRange_tail hi
      unfold frameAt
      dsimp only
      rw [update_of_ne hne, update_of_ne hne]
    · unfold frameAt
      dsimp only
      rw [update_self, update_self]
      dsimp only
      rw [toNat_toUInt16, slice_splice_same _ _ _ (by omega)]
  · intro i
    show (update s.nic.rxDescTable s.rdh _ i).status &&& rxdStatDD ≠ 0 ↔ InRange s.nic.rxTail (s.rdh + 1) i
    rw [inRange_push_iff hfree]
    by_cases hi : i = s.rdh
    · rw [hi, update_self]
      exact iff_of_true (set_dd _) (.inr rfl)
    · rw [update_of_ne hi, h.flags i]
      exact ⟨.inl, fun hr => hr.resolve_right hi⟩
  · intro i hi
    show Complete (update s.nic.rxDescTable s.rdh _ i)
    rcases (inRange_push_iff hfree).mp hi with hr | rfl
    · have hne : i ≠ s.rdh := by
        rintro rfl
        exact not_inRange_tail hr
      rw [update_of_ne hne]
      exact h.complete i hr
    · rw [update_self]
      refine ⟨set_eop _, ?_⟩
      dsimp only
      rw [toNat_toUInt16]
      exact ⟨frame.nonempty, hfits⟩

lemma Inv.ready_iff (h : Inv s) : Ready s.nic ↔ s.nic.rxTail ≠ s.rdh := by
  constructor
  · intro hready heq
    have hr := (h.flags _).mp hready.1
    rw [heq] at hr
    exact not_inRange_self hr
  · intro hne
    have hr := inRange_head hne
    exact ⟨(h.flags _).mpr hr, (h.complete _ hr).1⟩

lemma step_idle (h : ¬Ready s.nic) (buffer : Arr n) : step s (.receive n buffer) = .ok s := by
  unfold step
  dsimp only
  rw [e1000Receive_idle h, ok_bind]
  rfl

def returnNext (s : RxState) : RxState :=
  { s with
    nic := s.nic.taken
    returned := s.returned ++ [frameAt s.nic s.nic.rxTail] }

lemma step_ready (h : Ready s.nic) (hpos : 0 < s.nic.rxLen) (hsize : s.nic.rxLen ≤ e1000BufferSize)
    (buffer : Arr n) (hn : s.nic.rxLen ≤ n) :
    step s (.receive n buffer) = .ok (returnNext s) := by
  unfold step
  dsimp only
  rw [e1000Receive_ready h, memcpy_ok _ _, ok_bind, ok_bind]
  dsimp only
  rw [if_pos (by omega), Int.toNat_natCast]
  have hslice := slice_splice_same buffer 0 ((s.nic.rxBuf s.nic.rxTail).slice 0 s.nic.rxLen)
    (by rw [length_slice]; omega)
  rw [length_slice] at hslice
  rw [hslice]
  rfl

lemma inv_returnNext (h : Inv s) (hne : s.nic.rxTail ≠ s.rdh) : Inv (returnNext s) := by
  have htail : (returnNext s).nic.rxTail = s.nic.rxTail + 1 := rfl
  constructor
  · rw [htail]
    show s.stored = (s.returned ++ [frameAt s.nic s.nic.rxTail]) ++ Ring.queue _ (s.nic.rxTail + 1) s.rdh
    rw [append_assoc, singleton_append, h.queue, queue_pop hne]
    refine congrArg (fun q => s.returned ++ frameAt s.nic s.nic.rxTail :: q) (queue_congr fun i hi => ?_)
    have hi := ((inRange_pop_iff hne).mp hi).2
    unfold frameAt returnNext Nic.taken
    dsimp only
    rw [update_of_ne hi]
  · intro i
    rw [htail]
    show (update s.nic.rxDescTable s.nic.rxTail _ i).status &&& rxdStatDD ≠ 0 ↔ InRange (s.nic.rxTail + 1) s.rdh i
    rw [inRange_pop_iff hne]
    by_cases hi : i = s.nic.rxTail
    · rw [hi, update_self]
      exact iff_of_false (not_not.mpr (clear_dd _)) fun hr => hr.2 rfl
    · rw [update_of_ne hi, h.flags i]
      exact ⟨fun hr => ⟨hr, hi⟩, fun hr => hr.1⟩
  · intro i hi
    rw [htail] at hi
    obtain ⟨hr, hi⟩ := (inRange_pop_iff hne).mp hi
    show Complete (update s.nic.rxDescTable s.nic.rxTail _ i)
    rw [update_of_ne hi]
    exact h.complete i hr

lemma Inv.receive_cases (h : Inv s) (buffer : Arr n) : s.nic.rxTail = s.rdh ∧ step s (.receive n buffer) = .ok s ∨
      s.nic.rxTail ≠ s.rdh ∧ s.nic.rxLen ≤ e1000BufferSize ∧
        (s.nic.rxLen ≤ n → step s (.receive n buffer) = .ok (returnNext s)) ∧
        (n < s.nic.rxLen → ∃ f, step s (.receive n buffer) = .error f) := by
  by_cases hne : s.nic.rxTail = s.rdh
  · exact .inl ⟨hne, step_idle (fun hr => h.ready_iff.mp hr hne) buffer⟩
  · have hready := h.ready_iff.mpr hne
    obtain ⟨-, hpos, hsize⟩ := h.complete _ (inRange_head hne)
    refine .inr ⟨hne, hsize, step_ready hready hpos hsize buffer, fun hn => ?_⟩
    refine ⟨.outOfBounds, ?_⟩
    unfold step
    dsimp only
    rw [e1000Receive_ready hready, memcpy_fault _ _]
    rfl

lemma Inv.step (h : Inv s) {x : Step} (hs : RxRing.step s x = .ok s') : Inv s' := by
  cases x with
  | nic frame =>
    cases hs
    exact inv_nicStore h frame
  | receive n buffer =>
    rcases h.receive_cases buffer with ⟨-, hidle⟩ | ⟨hne, -, hok, hfault⟩
    · rw [hidle] at hs
      cases hs
      exact h
    · rcases le_or_gt s.nic.rxLen n with hn | hn
      · rw [hok hn] at hs
        cases hs
        exact inv_returnNext h hne
      · obtain ⟨f, hf⟩ := hfault hn
        rw [hf] at hs
        cases hs

lemma Inv.correct (h : Inv s) : Correct s where
  inOrder := ⟨_, h.queue.symm⟩
  intact := fun j frame hj => by
    rw [h.queue, drop_left] at hj
    exact getElem?_queue hj
  next := fun n buffer hn => by
    rcases h.receive_cases buffer with ⟨hempty, hidle⟩ | ⟨hne, hsize, hok, -⟩
    · refine ⟨s, hidle, rfl, ?_⟩
      rw [h.queue, hempty, queue_self, append_nil, take_of_length_le (by omega)]
    · refine ⟨_, hok (hsize.trans hn), rfl, ?_⟩
      rw [h.queue, queue_pop hne, take_append, take_of_length_le (by omega)]
      simp [returnNext]

/-- **In every interleaving of calls with steps of the card the ring does its work.** -/
theorem rx_ring_correct (nic : Nic) (xs : List Step) (s : RxState)
    (h : run step (boot nic) xs = .ok s) : Correct s := by
  have hstep : ∀ (s : RxState) (x : Step) (s' : RxState), Inv s → True → step s x = .ok s' →
      Inv s' := fun _ _ _ hinv _ hs => hinv.step hs
  exact (run_inv hstep (inv_boot nic) (fun _ _ => trivial) h).correct

lemma one_pos_length (b : UInt8) : 0 < [b].length := Nat.one_pos

lemma one_fits (b : UInt8) : [b].length ≤ e1000BufferSize := by
  have hsz := sizes
  rw [length_singleton]
  omega

def oneByte (b : UInt8) : Frame := ⟨[b], one_pos_length b, one_fits b⟩

/-- Two frames are stored, and one of them is returned. -/
theorem rx_ring_correct_two :
    ∃ s, run step (boot zeroNic) [.nic (oneByte 7), .nic (oneByte 8), .receive 1518 (Arr.zero _)] = .ok s ∧
      s.returned = [[7]] ∧ Correct s := by
  obtain ⟨s, hs, hret⟩ : ∃ s, run step (boot zeroNic)
      [.nic (oneByte 7), .nic (oneByte 8), .receive 1518 (zero _)] = .ok s ∧ s.returned = [[7]] := by
    decide
  exact ⟨s, hs, hret, rx_ring_correct _ _ s hs⟩

end Jos.RxRing
