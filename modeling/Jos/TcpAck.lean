import Jos.TcpInv

/-!
What the server acknowledges.

The history of a connection is followed from outside: the number of the SYN that opened it,
the numbers of the payload bytes `tcp_process` has copied into the receive buffer, and the
numbers of the FINs it has accepted. `CLOSE_WAIT` adds one to its acknowledgement for a FIN and
leaves the payload that may come with it aside.
-/

namespace Jos.TcpAck

open CArray Inet Packets Http Runs TcpModel TcpStep TcpInv List Function UInt32

/-- The `m` numbers from `a` on. -/
def numbers (a : UInt32) (m : ℕ) : List UInt32 := (List.range m).map fun k => a + k.toUInt32

/-- What the client has had from its connection. -/
structure Conn where
  isn : UInt32
  copied : List UInt32
  fins : List UInt32
  deriving DecidableEq

def copiedBy (seq : UInt32) : Event → List UInt32
  | .copy _ len => numbers seq len
  | _ => []

def ackOf : Event → Option UInt32
  | .send vc pkt _ => some (jntohl (sendHdr vc pkt.hdr).ackNum)
  | _ => none

/-- The history after a step that took the channel from `vc` to `vc'`. -/
def Conn.track (c : Conn) (vc : Channel) (g : Segment) (vc' : Channel) (events : List Event) : Conn :=
  let seq := jntohl g.pkt.hdr.seqNum
  -- a channel that stops listening has accepted a SYN
  if vc.state = .listen ∧ vc'.state ≠ .listen then ⟨seq, [], []⟩
  else
    { c with
      copied := c.copied ++ events.flatMap (copiedBy seq)
      -- a channel that closes has accepted a FIN
      fins := if vc.state = .closeWait ∧ vc'.state = .listen then c.fins ++ [seq + g.len.toUInt32]
        else c.fins }

def trackEntry (c : Fin 64 → Conn) (n : Entry) : Fin 64 → Conn :=
  match matchTcpVc n.tab n.seg.pkt with
  | none => c
  | some i =>
    Function.update c i ((c i).track (n.tab i) n.seg (n.result.tab i) n.result.events)

def conns (log : List Entry) : Fin 64 → Conn := log.foldl trackEntry fun _ => ⟨0, [], []⟩

/-- Every number from the SYN up to `ack` is the SYN, a byte that was copied or a FIN that was
accepted. -/
def Covers (c : Conn) (ack : UInt32) : Prop :=
  ∀ n, n - c.isn < ack - c.isn → n = c.isn ∨ n ∈ c.copied ∨ n ∈ c.fins

/-- **Nothing is acknowledged that was not kept**: the history of the connection covers what a step
acknowledges. -/
def AcksKept (log : List Entry) : Prop :=
  ∀ pre n post, log = pre ++ n :: post → ∀ i, matchTcpVc n.tab n.seg.pkt = some i →
    ∀ e ∈ n.result.events, ∀ ack, ackOf e = some ack → Covers (conns (pre ++ [n]) i) ack

/-- The FIN of a segment that closes its connection comes without a payload. -/
def BareFin (n : Entry) : Prop :=
  match matchTcpVc n.tab n.seg.pkt with
  | none => True
  | some i => (n.tab i).state = .closeWait → Accepted (n.tab i) n.seg → hasFlag n.seg.pkt thFin →
      n.seg.len = 0

instance (n : Entry) : Decidable (BareFin n) := by
  unfold BareFin
  split <;> infer_instance

lemma mem_numbers {a n : UInt32} {m : ℕ} (h : (n - a).toNat < m) : n ∈ numbers a m := by
  refine mem_map.mpr ⟨(n - a).toNat, mem_range.mpr h, ?_⟩
  rw [Nat.toUInt32, UInt32.ofNat_toNat, add_sub_cancel]

lemma numbers_add (a : UInt32) (m l : ℕ) : numbers a (m + l) = numbers a m ++ numbers (a + m.toUInt32) l := by
  simp [numbers, range_add, comp_def, add_assoc]

lemma covers_of_numbers {c : Conn} {m : ℕ} (hm : m + 1 < 2 ^ 32)
    (h : ∀ n ∈ numbers (c.isn + 1) m, n ∈ c.copied ∨ n ∈ c.fins) :
    Covers c (c.isn + 1 + m.toUInt32) := by
  intro n hn
  have hsub : c.isn + 1 + m.toUInt32 - c.isn = (m + 1).toUInt32 := by
    refine UInt32.toNat_inj.mp ?_
    rw [add_assoc, add_sub_cancel_left, toNat_toUInt32 hm, UInt32.toNat_add, toNat_toUInt32]
    simp only [reduceToNat]
    omega
  rw [hsub, lt_iff_toNat_lt, toNat_toUInt32 hm] at hn
  by_cases h0 : n = c.isn
  · exact .inl h0
  · refine .inr (h n (mem_numbers ?_))
    have hpos : (n - c.isn).toNat ≠ 0 := fun hz =>
      h0 (sub_eq_zero.mp (UInt32.toNat_inj.mp (by rw [hz]; rfl)))
    rw [sub_add_eq_sub_sub, UInt32.toNat_sub]
    simp only [reduceToNat]
    omega

structure KeptUpTo (c : Conn) (ack : UInt32) (m : ℕ) : Prop where
  lt : m < tcpWindowSize
  ack : ack = c.isn + 1 + m.toUInt32
  copied : c.copied = numbers (c.isn + 1) m

def Tracked (c : Conn) (vc : Channel) : Prop :=
  vc.state ≠ .listen → ∃ m, KeptUpTo c vc.ackSeq.ackNum m ∧ (vc.state = .synReceived → m = 0) ∧
    (vc.state = .established → m = vc.dataLen.toNat)

variable {c : Conn} {i : Fin 64} {r ret : ℤ} {vc vc' : Channel} {g : Segment} {ev : List Event}
  {ack : UInt32} {m : ℕ}

lemma KeptUpTo.covers (h : KeptUpTo c ack m) : Covers c ack := by
  have h1 := h.lt
  have hsz := sizes
  rw [h.ack]
  exact covers_of_numbers (by omega) fun n hn => .inl (by rwa [h.copied])

@[simp] lemma ackOf_send (vc : Channel) (pkt : TcpPkt) (length : ℕ) :
    ackOf (.send vc pkt length) = some vc.ackSeq.ackNum := by
  simp [ackOf, sendHdr]

@[simp] lemma ackOf_copied (vc : Channel) (g : Segment) : ackOf (copied vc g) = none := rfl

@[simp] lemma ackOf_parsed (vc : Channel) : ackOf (parsed vc) = none := rfl

@[simp] lemma copiedBy_copied (a : UInt32) (vc : Channel) (g : Segment) :
    copiedBy a (copied vc g) = numbers a g.len.toNat := rfl

@[simp] lemma copiedBy_parsed (a : UInt32) (vc : Channel) : copiedBy a (parsed vc) = [] := rfl

@[simp] lemma copiedBy_send (a : UInt32) (vc : Channel) (pkt : TcpPkt) (length : ℕ) :
    copiedBy a (.send vc pkt length) = [] := rfl

lemma track_self (c : Conn) (vc : Channel) (g : Segment) : c.track vc g vc [] = c := by
  unfold Conn.track
  rw [if_neg (by tauto), if_neg (by rintro ⟨h1, h2⟩; rw [h1] at h2; cases h2)]
  simp

lemma track_open (hs : vc.state ≠ .listen) (hs' : vc'.state ≠ .listen) (ev : List Event) : c.track vc g vc' ev =
      { c with copied := c.copied ++ ev.flatMap (copiedBy (jntohl g.pkt.hdr.seqNum)) } := by
  unfold Conn.track
  rw [if_neg (fun h => hs h.1), if_neg (fun h => hs' h.2)]

lemma keptUpTo_kept (h : KeptUpTo c vc.ackSeq.ackNum vc.dataLen.toNat) (ha : Accepted vc g) (hw : Fits vc g) :
    KeptUpTo { c with copied := c.copied ++ numbers (jntohl g.pkt.hdr.seqNum) g.len.toNat }
      (kept vc g).ackSeq.ackNum (kept vc g).dataLen.toNat where
  lt := by rw [kept_dataLen hw]; exact hw
  ack := by
    show vc.ackSeq.ackNum + g.len.toUInt32 = _
    rw [kept_dataLen hw, h.ack, add_assoc]
    congr 1
    refine UInt32.toNat_inj.mp ?_
    rw [UInt32.toNat_add]
    simp
  copied := by
    rw [h.copied, kept_dataLen hw, numbers_add, ha.seqNum, h.ack]

lemma KeptUpTo.covers_fin (h : KeptUpTo c ack m) : Covers { c with fins := c.fins ++ [ack] } (ack + 1) := by
  have h1 := h.lt
  have hsz := sizes
  have hnext : ack + 1 = c.isn + 1 + (m + 1).toUInt32 := by
    rw [h.ack, add_assoc]
    exact congrArg _ (ofNat_add m 1).symm
  rw [hnext]
  refine covers_of_numbers (by omega) fun n hn => ?_
  rw [numbers_add, mem_append] at hn
  rcases hn with hn | hn
  · exact .inl (by rwa [h.copied])
  · refine .inr (mem_append_right _ ?_)
    simpa [numbers, h.ack] using hn

/-- **A transition keeps the history in step with the channel**, and what it sends acknowledges
only what was kept. -/
lemma Tracked.transition (h : Tracked c vc) (hv : ChannelInv i vc)
    (hbare : vc.state = .closeWait → Accepted vc g → hasFlag g.pkt thFin → g.len = 0)
    (ht : Transition r vc g vc' ret ev) :
    Tracked (c.track vc g vc' ev) vc' ∧ ∀ e ∈ ev, ∀ ack, ackOf e = some ack → Covers (c.track vc g vc' ev) ack := by
  -- an established channel that takes the payload
  have htake : vc.state = .established → Accepted vc g → Fits vc g →
      KeptUpTo { c with copied := c.copied ++ numbers (jntohl g.pkt.hdr.seqNum) g.len.toNat }
        (kept vc g).ackSeq.ackNum (kept vc g).dataLen.toNat := by
    intro hs ha hw
    obtain ⟨m, hm, -, hlen⟩ := h (by rw [hs]; decide)
    exact keptUpTo_kept (hlen hs ▸ hm) ha hw
  cases ht with
  | refuse | ignore =>
    rw [track_self]
    exact ⟨h, by simp⟩
  | syn hs hf =>
    have hc : c.track vc g (opened vc g) [.send (synChannel vc g.pkt g.srcIp) (ackPkt thSyn) 0] =
        ⟨jntohl g.pkt.hdr.seqNum, [], []⟩ := if_pos ⟨hs, nofun⟩
    have hk : KeptUpTo ⟨jntohl g.pkt.hdr.seqNum, [], []⟩ (jntohl g.pkt.hdr.seqNum + 1) 0 :=
      ⟨by decide, (add_zero _).symm, rfl⟩
    rw [hc]
    refine ⟨fun _ => ⟨0, hk, fun _ => rfl, nofun⟩, ?_⟩
    simp only [mem_singleton, forall_eq, ackOf_send, Option.some.injEq, forall_eq']
    exact hk.covers
  | handshake hs ha =>
    rw [track_open (by rw [hs]; decide) (by nofun)]
    obtain ⟨m, hm, hzero, -⟩ := h (by rw [hs]; decide)
    refine ⟨fun _ => ⟨m, ⟨hm.lt, hm.ack, by simp [hm.copied]⟩, nofun, fun _ => ?_⟩, by simp⟩
    show m = vc.dataLen.toNat
    rw [hzero hs, hv.empty (by rw [hs]; decide)]
    rfl
  | store hs ha hw | storeNothing hs ha hw | replyFails hs ha hw =>
    have hk := htake hs ha hw
    rw [track_open (by rw [hs]; decide) (by rw [show (kept vc g).state = _ from hs]; decide)]
    simp only [flatMap_cons, flatMap_nil, copiedBy_copied, copiedBy_parsed, copiedBy_send, append_nil]
    refine ⟨fun _ => ⟨_, hk, fun h' => absurd (hs.symm.trans h') (by decide), fun _ => rfl⟩, ?_⟩
    simp [hk.covers]
  | reply hs ha hw =>
    have hk := htake hs ha hw
    rw [track_open (by rw [hs]; decide) (by nofun)]
    simp only [flatMap_cons, flatMap_nil, copiedBy_copied, copiedBy_parsed, copiedBy_send, append_nil]
    refine ⟨fun _ => ⟨_, hk, nofun, nofun⟩, ?_⟩
    simp [hk.covers]
  | fin hs ha hf =>
    refine ⟨fun h' => absurd rfl h', ?_⟩
    obtain ⟨m, hm, -⟩ := h (by rw [hs]; decide)
    -- without a payload the FIN has the number the channel waits for
    have hfin : jntohl g.pkt.hdr.seqNum + g.len.toUInt32 = vc.ackSeq.ackNum := by
      rw [hbare hs ha hf, ha.seqNum]
      exact add_zero _
    unfold Conn.track
    rw [if_neg (by simp [hs]), if_pos ⟨hs, rfl⟩, hfin]
    simpa [finished] using hm.covers_fin

lemma conns_snoc (log : List Entry) (n : Entry) : conns (log ++ [n]) = trackEntry (conns log) n := by
  simp [conns]

lemma acksKept_snoc {log : List Entry} {n : Entry} (h : AcksKept log)
    (hn : ∀ i, matchTcpVc n.tab n.seg.pkt = some i → ∀ e ∈ n.result.events, ∀ ack,
      ackOf e = some ack → Covers (conns (log ++ [n]) i) ack) : AcksKept (log ++ [n]) := by
  intro pre n' post heq
  rcases eq_nil_or_concat post with rfl | ⟨post', z, rfl⟩
  · obtain ⟨rfl, he⟩ := append_inj' heq rfl
    cases he
    exact hn
  · rw [concat_eq_append, ← cons_append, ← append_assoc] at heq
    exact h pre n' post' (append_inj' heq rfl).1

structure AckInv (m : Machine) : Prop where
  table : TableInv m.tab
  tracked : ∀ i, Tracked (conns m.log i) (m.tab i)
  kept : AcksKept m.log

lemma ackInv_boot : AckInv boot := ⟨tableInv_boot, fun _ h => absurd rfl h, fun pre n post h => by
    cases pre <;> cases h⟩

lemma AckInv.step {m : Machine} (h : AckInv m) {g : Segment} {R : Result Unit}
    (hR : process r m.tab g = .ok R) (hbare : BareFin ⟨m.tab, g, R⟩) :
    AckInv ⟨R.tab, m.log ++ [⟨m.tab, g, R⟩]⟩ := by
  obtain ⟨i, vc', hm, ht, htab⟩ := process_ok_iff.mp hR
  have hb : (m.tab i).state = .closeWait → Accepted (m.tab i) g → hasFlag g.pkt thFin → g.len = 0 := by
    simpa only [BareFin, hm] using hbare
  have hi : R.tab i = vc' := by rw [htab, update_self]
  obtain ⟨htrack, hcov⟩ := (h.tracked i).transition (h.table i) hb ht
  have hconns : conns (m.log ++ [⟨m.tab, g, R⟩]) =
      update (conns m.log) i ((conns m.log i).track (m.tab i) g vc' R.events) := by
    rw [conns_snoc]
    simp only [trackEntry, hm, hi]
  refine ⟨h.table.process hR, ?_, acksKept_snoc h.kept ?_⟩
  · intro j
    rw [hconns]
    show Tracked _ (R.tab j)
    rw [htab]
    by_cases hj : j = i
    · subst hj
      rwa [update_self, update_self]
    · rw [update_of_ne hj, update_of_ne hj]
      exact h.tracked j
  · intro j hj
    cases hm.symm.trans hj
    rw [hconns, update_self]
    exact hcov

/-- **In every run in which a FIN that closes a connection comes without a payload, nothing is
acknowledged that was not kept.** -/
theorem tcp_acks_only_kept (xs : List (Segment × ℤ)) (m : Machine) (h : run step boot xs = .ok m)
    (hbare : ∀ n ∈ m.log, BareFin n) : AcksKept m.log := by
  have hstep : ∀ (m : Machine) (x : Segment × ℤ) (m' : Machine),
      ((∀ n ∈ m.log, BareFin n) → AckInv m) → True → TcpStep.step m x = .ok m' →
      (∀ n ∈ m'.log, BareFin n) → AckInv m' := by
    intro m x m' hm _ hs hb
    obtain ⟨R, hR, rfl⟩ := step_eq_ok hs
    exact (hm fun n hn => hb n (mem_append_left _ hn)).step hR
      (hb _ (mem_append_right _ (mem_singleton_self _)))
  exact (run_inv hstep (s := boot) (fun _ => ackInv_boot) (fun _ _ => trivial) h hbare).kept

/-- A client with the number `7` sends a request, gets the reply and closes its side with a FIN
that carries `payload`. -/
def closeRun (payload : List UInt8) (h : payload.length ≤ tcpDataLen) : List (Segment × ℤ) :=
  [(.make hostIp 8080 thSyn 7 0 [] nil_fits, 0),
    (.make hostIp 8080 thAck 8 8 [] nil_fits, 0),
    (.make hostIp 8080 (thAck ||| thPsh) 8 8 (ascii "GET") httpMethod_fits, 0),
    (.make hostIp 8080 (thAck ||| thFin) 11 76 payload h, 0)]

theorem tcp_acks_only_kept_bare :
    ∃ m, run step boot (closeRun [] (by decide)) = .ok m ∧ m.log.length = 4 ∧ AcksKept m.log := by
  obtain ⟨m, hm, hl, hb⟩ : ∃ m, run step boot (closeRun [] (by decide)) = .ok m ∧
      m.log.length = 4 ∧ ∀ n ∈ m.log, BareFin n := by
    decide
  exact ⟨m, hm, hl, tcp_acks_only_kept _ m hm hb⟩

/-- The FIN comes with one more byte, number `11`: the server acknowledges it with `12` and has
copied the bytes up to `10`. -/
theorem tcp_acks_dropped_byte :
    ¬ ∀ (xs : List (Segment × ℤ)) (m : Machine), run step boot xs = .ok m → AcksKept m.log := by
  intro h
  obtain ⟨m, hm, hlen, hconn, d, hd, hmatch, e, he, hack⟩ :
      ∃ m, run step boot (closeRun [0] (by decide)) = .ok m ∧ (m.log.drop 3).length = 1 ∧
        conns m.log 0 = ⟨7, [8, 9, 10], [12]⟩ ∧ ∃ d ∈ m.log.drop 3,
          matchTcpVc d.tab d.seg.pkt = some 0 ∧ ∃ e ∈ d.result.events, ackOf e = some 12 := by
    decide
  have hlast : m.log.drop 3 = [d] := by
    obtain ⟨d', hd'⟩ := length_eq_one_iff.mp hlen
    rw [hd', mem_singleton] at hd
    rw [hd', hd]
  have hlog : m.log = m.log.take 3 ++ [d] := by rw [← hlast, take_append_drop]
  have hcov := h _ m hm _ d [] hlog 0 hmatch e he 12 hack
  rw [← hlog, hconn] at hcov
  have hbad := hcov 11 (by decide)
  revert hbad
  decide

end Jos.TcpAck
