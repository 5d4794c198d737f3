import Jos.TcpModel

/-!
What one segment can do to a channel.

The layer below TCP matters to `tcp_process` only through the status it returns. `Transition` lists
all that can happen, each case with the test that leads to it, and `tcpState_ok_iff` says that the
code does this and nothing else. What is proved about runs is proved from these cases.
-/

namespace Jos.TcpStep

open CArray Inet Packets Http Runs TcpModel

/-- What `tcp_recv` hands to `tcp_process`: the payload lies inside the packet. -/
structure Segment where
  pkt : TcpPkt
  srcIp : UInt32
  len : UInt16
  fits : len.toNat ≤ tcpDataLen

def Segment.payload (g : Segment) : List UInt8 := g.pkt.data.slice 0 g.len.toNat

@[simp] lemma Segment.length_payload (g : Segment) : g.payload.length = g.len.toNat := by
  simp [payload]

lemma nil_fits : ([] : List UInt8).length ≤ tcpDataLen := Nat.zero_le _

lemma httpMethod_fits : httpMethod.length ≤ tcpDataLen := by decide

def Segment.make (srcIp : UInt32) (srcPort : UInt16) (flags : UInt8) (seq ack : UInt32)
    (payload : List UInt8) (h : payload.length ≤ tcpDataLen) : Segment where
  pkt :=
    { hdr := { TcpHdr.zero with
        srcPort := jhtons srcPort, dstPort := jhtons 80, seqNum := jhtonl seq, ackNum := jhtonl ack
        dataOffset := 5, flags := flags }
      data := Arr.ofList _ payload }
  srcIp := srcIp
  len := payload.length.toUInt16
  fits := by
    rw [Nat.toUInt16, UInt16.toNat_ofNat']
    exact (Nat.mod_le _ _).trans h

def answer (r : ℤ) : Send Unit := fun _ _ _ _ => .ok ((), r)

def Accepted (vc : Channel) (g : Segment) : Prop :=
  hasFlag g.pkt thAck ∧ g.srcIp = vc.guestSide.ip ∧ checkAckSeq vc g.pkt.hdr
  deriving Decidable

variable {vc : Channel} {g : Segment} {tab : Table}

lemma Accepted.seqNum (h : Accepted vc g) : jntohl g.pkt.hdr.seqNum = vc.ackSeq.ackNum := (of_decide_eq_true h.2.2).1

def Fits (vc : Channel) (g : Segment) : Prop := vc.dataLen.toNat + g.len.toNat < tcpWindowSize
  deriving Decidable

def Refuses (vc : Channel) (g : Segment) : Prop :=
  match vc.state with
  | .listen => ¬hasFlag g.pkt thSyn
  | .synReceived => ¬Accepted vc g
  | .established => ¬Accepted vc g ∨ tcpWindowSize ≤ (vc.dataLen + g.len.toUInt32).toNat
  | .closeWait => ¬hasFlag g.pkt thAck ∨ hasFlag g.pkt thFin ∧ ¬Accepted vc g
  | _ => False

def Ignores (vc : Channel) (g : Segment) : Prop :=
  match vc.state with
  | .listen | .synReceived | .established => False
  | .closeWait => hasFlag g.pkt thAck ∧ ¬hasFlag g.pkt thFin
  | _ => True

def opened (vc : Channel) (g : Segment) : Channel :=
  { synChannel vc g.pkt g.srcIp with
    ackSeq := ⟨jntohl g.pkt.hdr.seqNum + 1, jntohl g.pkt.hdr.seqNum + 1⟩
    state := .synReceived }

def kept (vc : Channel) (g : Segment) : Channel :=
  stored vc (vc.buffer.splice vc.dataLen.toNat g.payload) g.len

def finished (vc : Channel) : Channel :=
  { vc with ackSeq := { vc.ackSeq with ackNum := vc.ackSeq.ackNum + 1 } }

def copied (vc : Channel) (g : Segment) : Event := .copy vc.dataLen.toNat g.len.toNat

def parsed (vc : Channel) : Event := .parse vc.buffer vc.dataLen.toNat

/-- All that a segment can do to a channel: the channel after it, the return value and the
events. -/
inductive Transition (r : ℤ) (vc : Channel) (g : Segment) : Channel → ℤ → List Event → Prop
  | refuse (h : Refuses vc g) : Transition r vc g vc (-1) []
  | ignore (h : Ignores vc g) : Transition r vc g vc 0 []
  | syn (hs : vc.state = .listen) (hf : hasFlag g.pkt thSyn) :
      Transition r vc g (opened vc g) 0 [.send (synChannel vc g.pkt g.srcIp) (ackPkt thSyn) 0]
  | handshake (hs : vc.state = .synReceived) (ha : Accepted vc g) :
      Transition r vc g { vc with state := .established } 0 []
  | store (hs : vc.state = .established) (ha : Accepted vc g) (hw : Fits vc g)
      (hp : ¬hasFlag g.pkt thPsh) (hl : g.len ≠ 0) :
      Transition r vc g (kept vc g) 0 [copied vc g, .send (kept vc g) (ackPkt 0) 0]
  | storeNothing (hs : vc.state = .established) (ha : Accepted vc g) (hw : Fits vc g)
      (hp : ¬hasFlag g.pkt thPsh) (hl : g.len = 0) :
      Transition r vc g (kept vc g) 0 [copied vc g]
  | replyFails (hs : vc.state = .established) (ha : Accepted vc g) (hw : Fits vc g)
      (hp : hasFlag g.pkt thPsh) {reply : Arr tcpDataLen × ℕ}
      (hh : httpParse (kept vc g).buffer (kept vc g).dataLen.toNat (Arr.zero tcpDataLen) = .ok reply)
      (hr : r = -1) :
      Transition r vc g (kept vc g) (-1)
        [copied vc g, parsed (kept vc g), .send (kept vc g) (dataPkt reply.1) reply.2]
  | reply (hs : vc.state = .established) (ha : Accepted vc g) (hw : Fits vc g)
      (hp : hasFlag g.pkt thPsh) {reply : Arr tcpDataLen × ℕ}
      (hh : httpParse (kept vc g).buffer (kept vc g).dataLen.toNat (Arr.zero tcpDataLen) = .ok reply)
      (hr : r ≠ -1) :
      Transition r vc g (replied (kept vc g) reply.2) 0
        [copied vc g, parsed (kept vc g), .send (kept vc g) (dataPkt reply.1) reply.2]
  | fin (hs : vc.state = .closeWait) (ha : Accepted vc g) (hf : hasFlag g.pkt thFin) :
      Transition r vc g { finished vc with state := .listen } 0 [.send (finished vc) (ackPkt 0) 0]

lemma add_toNat_of_fits (h : Fits vc g) : (vc.dataLen + g.len.toUInt32).toNat = vc.dataLen.toNat + g.len.toNat := by
  have hsz := sizes
  unfold Fits at h
  rw [UInt32.toNat_add, UInt16.toNat_toUInt32, Nat.mod_eq_of_lt (by omega)]

lemma not_le_of_fits (h : Fits vc g) : ¬tcpWindowSize ≤ (vc.dataLen + g.len.toUInt32).toNat := by
  rw [add_toNat_of_fits h]
  exact not_le.mpr h

lemma kept_of_len_eq_zero (h : g.len = 0) : kept vc g = vc := by
  have hp : g.payload = [] := List.length_eq_zero_iff.mp (by rw [g.length_payload, h]; rfl)
  have h0 : g.len.toUInt32 = 0 := by rw [h]; rfl
  unfold kept stored
  rw [hp, h0, Arr.splice_nil, add_zero, add_zero]

lemma dataLen_kept_ne (hw : Fits vc g) (h : g.len ≠ 0) : (kept vc g).dataLen ≠ vc.dataLen := by
  intro hc
  have hnat := congrArg UInt32.toNat hc
  have hpos : 0 < g.len.toNat := by
    rcases Nat.eq_zero_or_pos g.len.toNat with h0 | h0
    · exact absurd (UInt16.toNat_inj.mp h0) h
    · exact h0
  rw [show (kept vc g).dataLen.toNat = _ from add_toNat_of_fits hw] at hnat
  omega

lemma fits_of_copy (hw : ¬tcpWindowSize ≤ (vc.dataLen + g.len.toUInt32).toNat)
    (hc : vc.dataLen.toNat + g.len.toNat ≤ tcpWindowSize) : Fits vc g := by
  have hsz := sizes
  rw [UInt32.toNat_add, UInt16.toNat_toUInt32, Nat.mod_eq_of_lt (by omega)] at hw
  exact not_le.mp hw

section Code

variable {σ : Type} (send : Send σ) (s : σ)

lemma ite_accepted {α : Type} (vc : Channel) (g : Segment) (x y : α) : (if hasFlag g.pkt thAck then
      if g.srcIp ≠ vc.guestSide.ip then y else if !checkAckSeq vc g.pkt.hdr then y else x
      else y) = if Accepted vc g then x else y := by
  by_cases h1 : hasFlag g.pkt thAck
  · rw [if_pos h1]
    by_cases h2 : g.srcIp = vc.guestSide.ip
    · rw [if_neg (not_not.mpr h2)]
      by_cases h3 : checkAckSeq vc g.pkt.hdr
      · rw [if_neg (by simp [h3]), if_pos ⟨h1, h2, h3⟩]
      · rw [if_pos (by simp [h3]), if_neg fun h => h3 h.2.2]
    · rw [if_pos h2, if_neg fun h => h2 h.2.1]
  · rw [if_neg h1, if_neg fun h => h1 h.1]

lemma tcpListen_eq (vc : Channel) (g : Segment) : tcpListen send s vc g.pkt g.srcIp =
      if hasFlag g.pkt thSyn then
        send s (synChannel vc g.pkt g.srcIp) (ackPkt thSyn) 0 >>= fun r =>
          .ok ⟨r.1, opened vc g, 0, [.send (synChannel vc g.pkt g.srcIp) (ackPkt thSyn) 0]⟩
      else .ok ⟨s, vc, -1, []⟩ := rfl

lemma tcpSynReceived_eq (vc : Channel) (g : Segment) : tcpSynReceived s vc g.pkt g.srcIp =
      if Accepted vc g then .ok ⟨s, { vc with state := .established }, 0, []⟩
      else .ok ⟨s, vc, -1, []⟩ := ite_accepted vc g _ _

/-- What is left of a segment that passed the tests of `ESTABLISHED`. -/
def takePayload (vc : Channel) (g : Segment) : Except Fault (Outcome σ) :=
  if hasFlag g.pkt thPsh then tcpReply send s (kept vc g) (copied vc g)
  else if g.len ≠ 0 then
    send s (kept vc g) (ackPkt 0) 0 >>= fun r =>
      .ok ⟨r.1, kept vc g, 0, [copied vc g, .send (kept vc g) (ackPkt 0) 0]⟩
  else .ok ⟨s, kept vc g, 0, [copied vc g]⟩

lemma tcpEstablished_eq (vc : Channel) (g : Segment) : tcpEstablished send s vc g.pkt g.srcIp g.len =
      if Accepted vc g then
        if tcpWindowSize ≤ (vc.dataLen + g.len.toUInt32).toNat then .ok ⟨s, vc, -1, []⟩
        else if Fits vc g then takePayload send s vc g
        else .error .outOfBounds
      else .ok ⟨s, vc, -1, []⟩ := by
  have h1 := g.fits
  rw [← ite_accepted]
  unfold tcpEstablished reject
  by_cases hw : tcpWindowSize ≤ (vc.dataLen + g.len.toUInt32).toNat
  · simp only [if_pos hw]
  by_cases hf : Fits vc g
  · rw [if_pos hf, Arr.memcpy_ok _ _ (le_of_lt hf)]
    rfl
  · have hc : tcpWindowSize < vc.dataLen.toNat + g.len.toNat := by
      by_contra hc
      exact hf (fits_of_copy hw (not_lt.mp hc))
    rw [if_neg hf, Arr.memcpy_fault _ _ (.inl hc)]
    rfl

lemma tcpEstablished_take (ha : Accepted vc g) (hw : Fits vc g) :
    tcpEstablished send s vc g.pkt g.srcIp g.len = takePayload send s vc g := by
  rw [tcpEstablished_eq, if_pos ha, if_neg (not_le_of_fits hw), if_pos hw]

lemma tcpCloseWait_eq (vc : Channel) (g : Segment) : tcpCloseWait send s vc g.pkt g.srcIp =
      if hasFlag g.pkt thAck then
        if hasFlag g.pkt thFin then
          if Accepted vc g then
            send s (finished vc) (ackPkt 0) 0 >>= fun r =>
              .ok ⟨r.1, { finished vc with state := .listen }, 0, [.send (finished vc) (ackPkt 0) 0]⟩
          else .ok ⟨s, vc, -1, []⟩
        else .ok ⟨s, vc, 0, []⟩
      else .ok ⟨s, vc, -1, []⟩ := by
  unfold tcpCloseWait reject
  by_cases hack : hasFlag g.pkt thAck
  · rw [if_pos hack, if_pos hack]
    by_cases hfin : hasFlag g.pkt thFin
    · rw [if_pos hfin, if_pos hfin, ← ite_accepted, if_pos hack]
      rfl
    · rw [if_neg hfin, if_neg hfin]
  · rw [if_neg hack, if_neg hack]

lemma tcpState_refuses (h : Refuses vc g) : tcpState send s vc g.pkt g.srcIp g.len = .ok ⟨s, vc, -1, []⟩ := by
  unfold tcpState
  unfold Refuses at h
  cases hs : vc.state with
  | listen => rw [hs] at h; rw [tcpListen_eq, if_neg h]
  | synReceived => rw [hs] at h; rw [tcpSynReceived_eq, if_neg h]
  | established =>
    rw [hs] at h
    rw [tcpEstablished_eq]
    rcases h with ha | hw
    · rw [if_neg ha]
    · rw [if_pos hw, ite_self]
  | closeWait =>
    rw [hs] at h
    rw [tcpCloseWait_eq]
    rcases h with hack | ⟨hfin, ha⟩
    · rw [if_neg hack]
    · rw [if_pos hfin, if_neg ha, ite_self]
  | closed | synSent | finWait1 | closing | finWait2 | timeWait | lastAck =>
    rw [hs] at h; exact h.elim

lemma tcpState_ignores (h : Ignores vc g) : tcpState send s vc g.pkt g.srcIp g.len = .ok ⟨s, vc, 0, []⟩ := by
  unfold tcpState
  unfold Ignores at h
  cases hs : vc.state with
  | listen | synReceived | established => rw [hs] at h; exact h.elim
  | closeWait =>
    rw [hs] at h
    rw [tcpCloseWait_eq, if_pos h.1, if_neg h.2]
  | closed | synSent | finWait1 | closing | finWait2 | timeWait | lastAck => rfl

end Code

variable {r ret : ℤ} {vc vc' : Channel} {g : Segment} {ev : List Event}

lemma tcpReply_iff {e : Event} : tcpReply (answer r) () vc e = .ok ⟨(), vc', ret, ev⟩ ↔
      ∃ reply, httpParse vc.buffer vc.dataLen.toNat (Arr.zero tcpDataLen) = .ok reply ∧
        ev = [e, parsed vc, .send vc (dataPkt reply.1) reply.2] ∧
        (r = -1 ∧ vc' = vc ∧ ret = -1 ∨ r ≠ -1 ∧ vc' = replied vc reply.2 ∧ ret = 0) := by
  unfold tcpReply
  rw [bind_eq_ok]
  refine exists_congr fun reply => and_congr_right fun _ => ?_
  rw [answer, ok_bind]
  by_cases hr : r = -1
  · rw [if_pos hr]
    constructor
    · intro h
      cases h
      exact ⟨rfl, .inl ⟨hr, rfl, rfl⟩⟩
    · rintro ⟨rfl, ⟨-, rfl, rfl⟩ | ⟨h, -⟩⟩
      · rfl
      · exact absurd hr h
  · rw [if_neg hr]
    constructor
    · intro h
      cases h
      exact ⟨rfl, .inr ⟨hr, rfl, rfl⟩⟩
    · rintro ⟨rfl, ⟨h, -⟩ | ⟨-, rfl, rfl⟩⟩
      · exact absurd h hr
      · rfl

lemma transition_of_tcpState (h : tcpState (answer r) () vc g.pkt g.srcIp g.len = .ok ⟨(), vc', ret, ev⟩) :
    Transition r vc g vc' ret ev := by
  unfold tcpState at h
  cases hs : vc.state with
  | listen =>
    rw [hs, tcpListen_eq] at h
    split_ifs at h with hf
    · cases h
      exact .syn hs hf
    · cases h
      exact .refuse (by rw [Refuses, hs]; exact hf)
  | synReceived =>
    rw [hs, tcpSynReceived_eq] at h
    split_ifs at h with ha
    · cases h
      exact .handshake hs ha
    · cases h
      exact .refuse (by rw [Refuses, hs]; exact ha)
  | established =>
    rw [hs, tcpEstablished_eq] at h
    split_ifs at h with ha hw hf
    · cases h
      exact .refuse (by rw [Refuses, hs]; exact .inr hw)
    · unfold takePayload at h
      split_ifs at h with hp hl
      · obtain ⟨reply, hh, rfl, ⟨hr, rfl, rfl⟩ | ⟨hr, rfl, rfl⟩⟩ := tcpReply_iff.mp h
        · exact .replyFails hs ha hf hp hh hr
        · exact .reply hs ha hf hp hh hr
      · cases h
        exact .store hs ha hf hp hl
      · cases h
        exact .storeNothing hs ha hf hp (not_not.mp hl)
    · cases h
      exact .refuse (by rw [Refuses, hs]; exact .inl ha)
  | closeWait =>
    rw [hs, tcpCloseWait_eq] at h
    split_ifs at h with hack hfin ha
    · cases h
      exact .fin hs ha hfin
    · cases h
      exact .refuse (by rw [Refuses, hs]; exact .inr ⟨hfin, ha⟩)
    · cases h
      exact .ignore (by rw [Ignores, hs]; exact ⟨hack, hfin⟩)
    · cases h
      exact .refuse (by rw [Refuses, hs]; exact .inl hack)
  | closed | synSent | finWait1 | closing | finWait2 | timeWait | lastAck =>
    rw [hs] at h
    cases h
    exact .ignore (by rw [Ignores, hs]; trivial)

/-- **The code of a state and its cases.** -/
theorem tcpState_ok_iff : tcpState (answer r) () vc g.pkt g.srcIp g.len = .ok ⟨(), vc', ret, ev⟩ ↔
      Transition r vc g vc' ret ev := by
  refine ⟨transition_of_tcpState, fun h => ?_⟩
  cases h with
  | refuse h => exact tcpState_refuses _ _ h
  | ignore h => exact tcpState_ignores _ _ h
  | syn hs hf => rw [tcpState, hs, tcpListen_eq, if_pos hf]; rfl
  | handshake hs ha => rw [tcpState, hs, tcpSynReceived_eq, if_pos ha]
  | store hs ha hw hp hl =>
    rw [tcpState, hs, tcpEstablished_take _ _ ha hw, takePayload, if_neg hp, if_pos hl]
    rfl
  | storeNothing hs ha hw hp hl =>
    rw [tcpState, hs, tcpEstablished_take _ _ ha hw, takePayload, if_neg hp, if_neg (not_not.mpr hl)]
  | replyFails hs ha hw hp hh hr =>
    rw [tcpState, hs, tcpEstablished_take _ _ ha hw, takePayload, if_pos hp]
    exact tcpReply_iff.mpr ⟨_, hh, rfl, .inl ⟨hr, rfl, rfl⟩⟩
  | reply hs ha hw hp hh hr =>
    rw [tcpState, hs, tcpEstablished_take _ _ ha hw, takePayload, if_pos hp]
    exact tcpReply_iff.mpr ⟨_, hh, rfl, .inr ⟨hr, rfl, rfl⟩⟩
  | fin hs ha hf =>
    rw [tcpState, hs, tcpCloseWait_eq, if_pos ha.1, if_pos hf, if_pos ha]
    rfl

/-- What a state decides to do: nothing more, or one call of the layer below and what follows from its
status. -/
inductive Plan
  | done (vc : Channel) (ret : ℤ) (events : List Event)
  | send (vc : Channel) (pkt : TcpPkt) (length : ℕ) (events : List Event) (after : ℤ → Channel × ℤ)

def Plan.exec {σ : Type} (send : Send σ) (s : σ) : Plan → Except Fault (Outcome σ)
  | .done vc ret events => .ok ⟨s, vc, ret, events⟩
  | .send vc pkt length events after =>
    send s vc pkt length >>= fun r =>
      .ok ⟨r.1, (after r.2).1, (after r.2).2, events ++ [.send vc pkt length]⟩

def Plan.Short : Plan → Prop
  | .done .. => True
  | .send _ _ length .. => length < 256

lemma httpParse_short {n : ℕ} {data : Arr n} {length : ℕ} {reply reply' : Arr tcpDataLen} {l : ℕ}
    (h : httpParse data length reply = .ok (reply', l)) : l < 256 := by
  obtain ⟨code, hc, h'⟩ := bind_eq_ok.mp h
  rw [httpParse_eq (by decide) hc] at h
  cases h
  exact length_replyText (httpStatus_cases hc)

def Planned (f : ∀ σ : Type, Send σ → σ → Except Fault (Outcome σ)) : Prop :=
  ∃ p : Except Fault Plan, (∀ q, p = .ok q → q.Short) ∧
    ∀ (σ : Type) (send : Send σ) (s : σ), f σ send s = p >>= Plan.exec send s

lemma planned_done (vc : Channel) (ret : ℤ) (events : List Event) : Planned fun _ _ s => .ok ⟨s, vc, ret, events⟩ :=
  ⟨.ok (.done vc ret events), fun q hq => by cases hq; trivial, fun _ _ _ => rfl⟩

lemma planned_error (f : Fault) : Planned fun _ _ _ => .error f := ⟨.error f, nofun, fun _ _ _ => rfl⟩

lemma planned_send (vc : Channel) (pkt : TcpPkt) {length : ℕ} (h : length < 256)
    (events : List Event) (after : ℤ → Channel × ℤ) :
    Planned fun _ send s => send s vc pkt length >>= fun r =>
      .ok ⟨r.1, (after r.2).1, (after r.2).2, events ++ [.send vc pkt length]⟩ :=
  ⟨.ok (.send vc pkt length events after), fun q hq => by cases hq; exact h, fun _ _ _ => rfl⟩

lemma planned_ite {c : Prop} [Decidable c] {f f' : ∀ σ : Type, Send σ → σ → Except Fault (Outcome σ)}
    (h : Planned f) (h' : Planned f') :
    Planned fun σ send s => if c then f σ send s else f' σ send s := by
  by_cases hc : c
  · simpa only [if_pos hc] using h
  · simpa only [if_neg hc] using h'

lemma planned_reply (vc : Channel) (e : Event) : Planned fun _ send s => tcpReply send s vc e := by
  unfold tcpReply
  cases hh : httpParse vc.buffer vc.dataLen.toNat (Arr.zero tcpDataLen) with
  | error f => exact planned_error f
  | ok reply =>
    have h := planned_send vc (dataPkt reply.1) (httpParse_short hh) [e, parsed vc]
      fun r => if r = -1 then (vc, -1) else (replied vc reply.2, 0)
    convert h using 4 with σ send s
    refine congrArg (send s vc (dataPkt reply.1) reply.2 >>= ·) (funext fun r => ?_)
    by_cases hr : r.2 = -1
    · simp only [if_pos hr]
      rfl
    · simp only [if_neg hr]
      rfl

lemma tcpState_planned (vc : Channel) (g : Segment) :
    Planned fun _ send s => tcpState send s vc g.pkt g.srcIp g.len := by
  unfold tcpState
  cases hs : vc.state with
  | listen =>
    exact planned_ite (planned_send _ _ (by decide) [] fun _ => (opened vc g, 0)) (planned_done _ _ _)
  | synReceived =>
    simp only [tcpSynReceived_eq]
    exact planned_ite (planned_done _ _ _) (planned_done _ _ _)
  | established =>
    simp only [tcpEstablished_eq, takePayload]
    refine planned_ite (planned_ite (planned_done _ _ _) (planned_ite (planned_ite ?_ (planned_ite ?_ ?_))
      (planned_error _))) (planned_done _ _ _)
    · exact planned_reply _ _
    · exact planned_send _ _ (by decide) [copied vc g] fun _ => (kept vc g, 0)
    · exact planned_done _ _ _
  | closeWait =>
    simp only [tcpCloseWait_eq]
    exact planned_ite (planned_ite (planned_ite
      (planned_send _ _ (by decide) [] fun _ => ({ finished vc with state := .listen }, 0))
        (planned_done _ _ _)) (planned_done _ _ _)) (planned_done _ _ _)
  | closed | synSent | finWait1 | closing | finWait2 | timeWait | lastAck =>
    exact planned_done _ _ _

/-- **A step asks the layer below at most once**, and what it asks does not depend on that
layer. -/
theorem tcpState_plan (vc : Channel) (g : Segment) : ∃ p : Except Fault Plan, (∀ q, p = .ok q → q.Short) ∧
      ∀ (σ : Type) (send : Send σ) (s : σ),
        tcpState send s vc g.pkt g.srcIp g.len = p >>= Plan.exec send s := tcpState_planned vc g

/-- `tcp_process` over a layer that answers `r`. -/
def process (r : ℤ) (tab : Table) (g : Segment) : Except Fault (Result Unit) :=
  tcpProcess (answer r) () tab g.pkt g.srcIp g.len

/-- **A step of the table** is a transition of the channel the segment is for. -/
theorem process_ok_iff {R : Result Unit} : process r tab g = .ok R ↔ ∃ i vc', matchTcpVc tab g.pkt = some i ∧
      Transition r (tab i) g vc' R.ret R.events ∧ R.tab = Function.update tab i vc' := by
  unfold process tcpProcess
  cases hm : matchTcpVc tab g.pkt with
  | none => simp
  | some i =>
    simp only [Option.some.injEq, ← tcpState_ok_iff]
    constructor
    · intro h
      obtain ⟨o, ho, h⟩ := bind_eq_ok.mp h
      cases h
      exact ⟨i, o.vc, rfl, ho, rfl⟩
    · rintro ⟨j, vc', rfl, ho, htab⟩
      rw [ho, ok_bind, ← htab]

lemma process_none (h : matchTcpVc tab g.pkt = none) : process r tab g = .error .nullPointer := by
  rw [process, tcpProcess, h]

lemma process_some {i : Fin 64} (h : matchTcpVc tab g.pkt = some i) (ht : Transition r (tab i) g vc' ret ev) :
    process r tab g = .ok ⟨(), Function.update tab i vc', ret, ev⟩ :=
  process_ok_iff.mpr ⟨i, vc', h, ht, rfl⟩

section Layer

variable {σ : Type} {send : Send σ} {s : σ} {tab : Table}

/-- **Whatever the layer below does, it does what a layer does that answers some status.** -/
theorem process_of_tcpProcess {R : Result σ} (h : tcpProcess send s tab g.pkt g.srcIp g.len = .ok R) :
    ∃ r, process r tab g = .ok ⟨(), R.tab, R.ret, R.events⟩ := by
  unfold process tcpProcess at *
  cases hm : matchTcpVc tab g.pkt with
  | none => rw [hm] at h; cases h
  | some i =>
    simp only [hm] at h ⊢
    obtain ⟨p, -, hp⟩ := tcpState_plan (tab i) g
    rw [hp] at h
    simp only [hp]
    obtain ⟨o, ho, hR⟩ := bind_eq_ok.mp h
    obtain ⟨q, rfl, hq⟩ := bind_eq_ok.mp ho
    cases hR
    cases q with
    | done vc ret events =>
      cases hq
      exact ⟨0, rfl⟩
    | send vc pkt length events after =>
      obtain ⟨x, -, hx⟩ := bind_eq_ok.mp hq
      cases hx
      exact ⟨x.2, rfl⟩

/-- A fault of a step is one of its own, or the layer below has failed on a short segment. -/
theorem tcpProcess_error {f : Fault} (h : tcpProcess send s tab g.pkt g.srcIp g.len = .error f) :
    (∀ r, process r tab g = .error f) ∨ ∃ vc pkt length, length < 256 ∧ send s vc pkt length = .error f := by
  unfold process tcpProcess at *
  cases hm : matchTcpVc tab g.pkt with
  | none =>
    rw [hm] at h
    cases h
    exact .inl fun _ => rfl
  | some i =>
    simp only [hm] at h ⊢
    obtain ⟨p, hshort, hp⟩ := tcpState_plan (tab i) g
    rw [hp] at h
    simp only [hp]
    cases p with
    | error f' =>
      cases h
      exact .inl fun _ => rfl
    | ok q =>
      cases q with
      | done vc ret events => cases h
      | send vc pkt length events after =>
        rw [ok_bind, Plan.exec] at h
        cases hs : send s vc pkt length with
        | ok x => rw [hs] at h; cases h
        | error f' =>
          rw [hs] at h
          cases h
          exact .inr ⟨vc, pkt, length, hshort _ rfl, hs⟩

end Layer

structure Entry where
  tab : Table
  seg : Segment
  result : Result Unit

/-- The table, and the steps that led to it. -/
structure Machine where
  tab : Table
  log : List Entry

def step (m : Machine) (x : Segment × ℤ) : Except Fault Machine := do
  let R ← process x.2 m.tab x.1
  .ok ⟨R.tab, m.log ++ [⟨m.tab, x.1, R⟩]⟩

def boot : Machine := ⟨bootVc, []⟩

example : (boot.tab 0).state = .listen := by decide +kernel

lemma step_eq_ok {m m' : Machine} {x : Segment × ℤ} (h : step m x = .ok m') :
    ∃ R, process x.2 m.tab x.1 = .ok R ∧ m' = ⟨R.tab, m.log ++ [⟨m.tab, x.1, R⟩]⟩ := by
  obtain ⟨R, hR, h⟩ := bind_eq_ok.mp h
  cases h
  exact ⟨R, hR, rfl⟩

/-- **What every transition keeps, every run keeps**, of each channel and of each event. -/
theorem run_channels {I : Fin 64 → Channel → Prop} {E : Event → Prop} {P : Segment → Prop} (h0 : ∀ i, I i (bootVc i))
    (htrans : ∀ i r vc g vc' ret ev, I i vc → P g → Transition r vc g vc' ret ev → I i vc' ∧ ∀ e ∈ ev, E e)
    {xs : List (Segment × ℤ)} {m : Machine} (hP : ∀ x ∈ xs, P x.1) (h : run step boot xs = .ok m) :
    (∀ i, I i (m.tab i)) ∧ ∀ n ∈ m.log, ∀ e ∈ n.result.events, E e := by
  have hstep : ∀ (m : Machine) (x : Segment × ℤ) (m' : Machine),
      ((∀ i, I i (m.tab i)) ∧ ∀ n ∈ m.log, ∀ e ∈ n.result.events, E e) → P x.1 →
      step m x = .ok m' →
      (∀ i, I i (m'.tab i)) ∧ ∀ n ∈ m'.log, ∀ e ∈ n.result.events, E e := by
    rintro m x m' ⟨hI, hE⟩ hx hm
    obtain ⟨R, hR, rfl⟩ := step_eq_ok hm
    obtain ⟨i, vc', -, ht, htab⟩ := process_ok_iff.mp hR
    obtain ⟨hi, he⟩ := htrans i _ _ _ _ _ _ (hI i) hx ht
    constructor
    · show ∀ j, I j (R.tab j)
      rw [htab]
      exact (Function.forall_update_iff m.tab I).mpr ⟨hi, fun j _ => hI j⟩
    · intro n hn
      rcases List.mem_append.mp hn with hn | hn
      · exact hE n hn
      · rw [List.mem_singleton.mp hn]
        exact he
  exact run_inv hstep (s := boot) ⟨h0, fun n hn => by cases hn⟩ hP h

end Jos.TcpStep
