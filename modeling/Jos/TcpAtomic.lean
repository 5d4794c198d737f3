import Jos.TcpChecksum
import Jos.TcpStep

/-!
What a step that fails leaves behind.

A step fails when `tcp_process` returns `-1`, and also when the segment it sends finds the
transmit ring full. Every state changes its channel before or regardless of its send, so a failing
send leaves the channel ahead of the peer.
-/

namespace Jos.TcpAtomic

open CArray Packets ArpTable Http TcpModel TcpStep

/-- The two channels agree in all that counts: of the buffer, the bytes up to `data_len`. -/
structure SameChannel (vc vc' : Channel) : Prop where
  state : vc'.state = vc.state
  hostSide : vc'.hostSide = vc.hostSide
  guestSide : vc'.guestSide = vc.guestSide
  ackSeq : vc'.ackSeq = vc.ackSeq
  dataLen : vc'.dataLen = vc.dataLen
  buffer : vc'.buffer.slice 0 vc.dataLen.toNat = vc.buffer.slice 0 vc.dataLen.toNat

lemma SameChannel.refl (vc : Channel) : SameChannel vc vc := ⟨rfl, rfl, rfl, rfl, rfl, rfl⟩

/-- The step has called `tcp_send`. -/
def Sends (events : List Event) : Prop := ∃ vc pkt length, Event.send vc pkt length ∈ events

/-- **Error atomicity** of a step whose send returns `r`: after a failure every channel is what it was, and
the same segment is processed again as it would have been. -/
def Atomic (r : ℤ) (tab : Table) (g : Segment) : Prop :=
  ∀ R, process r tab g = .ok R → R.ret = -1 ∨ r = -1 ∧ Sends R.events →
    (∀ i, SameChannel (tab i) (R.tab i)) ∧ ∀ r', process r' R.tab g = process r' tab g

/-- The segment moves the channel on and has it send an answer. -/
def Advances (vc : Channel) (g : Segment) : Prop :=
  match vc.state with
  | .listen => hasFlag g.pkt thSyn
  | .established => Accepted vc g ∧ Fits vc g ∧ g.len ≠ 0 ∧
      (hasFlag g.pkt thPsh → ∃ reply, httpParse (kept vc g).buffer (kept vc g).dataLen.toNat
        (Arr.zero tcpDataLen) = .ok reply)
  | .closeWait => Accepted vc g ∧ hasFlag g.pkt thFin
  | _ => False

variable {r ret : ℤ} {vc vc' : Channel} {g : Segment} {ev : List Event} {tab : Table}

lemma exists_of_advances (h : Advances vc g) :
    ∃ vc' ret ev, Transition (-1) vc g vc' ret ev ∧ Sends ev ∧ ¬SameChannel vc vc' := by
  unfold Advances at h
  cases hs : vc.state with
  | listen =>
    rw [hs] at h
    refine ⟨_, _, _, .syn hs h, ⟨_, _, _, .head _⟩, fun hsame => ?_⟩
    exact absurd (hsame.state.trans hs) nofun
  | established =>
    rw [hs] at h
    obtain ⟨ha, hw, hl, hparse⟩ := h
    by_cases hp : hasFlag g.pkt thPsh
    · obtain ⟨reply, hh⟩ := hparse hp
      exact ⟨_, _, _, .replyFails hs ha hw hp hh rfl, ⟨_, _, _, .tail _ (.tail _ (.head _))⟩,
        fun hsame => dataLen_kept_ne hw hl hsame.dataLen⟩
    · exact ⟨_, _, _, .store hs ha hw hp hl, ⟨_, _, _, .tail _ (.head _)⟩,
        fun hsame => dataLen_kept_ne hw hl hsame.dataLen⟩
  | closeWait =>
    rw [hs] at h
    refine ⟨_, _, _, .fin hs h.1 h.2, ⟨_, _, _, .head _⟩, fun hsame => ?_⟩
    exact absurd (hsame.state.trans hs) nofun
  | closed | synSent | synReceived | finWait1 | closing | finWait2 | timeWait | lastAck =>
    rw [hs] at h
    exact h.elim

lemma unchanged_of_fails (ht : Transition r vc g vc' ret ev) (hfail : ret = -1 ∨ r = -1 ∧ Sends ev)
    (h : r = -1 → ¬Advances vc g) : vc' = vc := by
  unfold Advances at h
  cases ht with
  | refuse | ignore => rfl
  | syn hs hf =>
    obtain hret | ⟨hr, -⟩ := hfail
    · cases hret
    · rw [hs] at h
      exact absurd hf (h hr)
  | handshake hs ha => simp [Sends] at hfail
  | store hs ha hw hp hl =>
    obtain hret | ⟨hr, -⟩ := hfail
    · cases hret
    · rw [hs] at h
      exact absurd ⟨ha, hw, hl, fun hpsh => absurd hpsh hp⟩ (h hr)
  | storeNothing hs ha hw hp hl => exact kept_of_len_eq_zero hl
  | replyFails hs ha hw hp hh hr =>
    rw [hs] at h
    by_cases hl : g.len = 0
    · exact kept_of_len_eq_zero hl
    · exact absurd ⟨ha, hw, hl, fun _ => ⟨_, hh⟩⟩ (h hr)
  | reply hs ha hw hp hh hr =>
    obtain hret | ⟨hr', -⟩ := hfail
    · cases hret
    · exact absurd hr' hr
  | fin hs ha hf =>
    obtain hret | ⟨hr, -⟩ := hfail
    · cases hret
    · rw [hs] at h
      exact absurd ⟨ha, hf⟩ (h hr)

/-- **A step is atomic exactly when no send fails of a segment that moves its channel on.** -/
theorem tcp_process_atomic_iff (r : ℤ) (tab : Table) (g : Segment) :
    Atomic r tab g ↔
      ¬(r = -1 ∧ ∃ i, matchTcpVc tab g.pkt = some i ∧ Advances (tab i) g) := by
  constructor
  · rintro hatom ⟨rfl, i, hm, hadv⟩
    obtain ⟨vc', ret, ev, ht, hsend, hne⟩ := exists_of_advances hadv
    have hsame : SameChannel (tab i) (Function.update tab i vc' i) :=
      (hatom _ (process_some hm ht) (.inr ⟨rfl, hsend⟩)).1 i
    rw [Function.update_self] at hsame
    exact hne hsame
  · intro h R hR hfail
    obtain ⟨i, vc', hm, ht, htab⟩ := process_ok_iff.mp hR
    have hvc : vc' = tab i := unchanged_of_fails ht hfail fun hr hadv => h ⟨hr, i, hm, hadv⟩
    have heq : R.tab = tab := by rw [htab, hvc, Function.update_eq_self]
    rw [heq]
    exact ⟨fun j => .refl _, fun _ => rfl⟩

/-- The answer to a first SYN finds the ring full: the channel waits for an acknowledgement of a
segment that was never sent. -/
theorem tcp_process_not_atomic :
    ¬ ∀ (r : ℤ) (tab : Table) (g : Segment), Atomic r tab g := by
  intro h
  have hf : hasFlag (Segment.make hostIp 8080 thSyn 7 0 [] (by decide)).pkt thSyn := by decide
  have hm : matchTcpVc bootVc (Segment.make hostIp 8080 thSyn 7 0 [] (by decide)).pkt = some 0 := by
    decide
  have hsame := (h (-1) bootVc _ _ (process_some hm (.syn rfl hf))
    (.inr ⟨rfl, _, _, _, .head _⟩)).1 0
  exact absurd hsame.state (by decide)

end Jos.TcpAtomic
