import Jos.RecvBounds

/-!
What a frame is answered with.

`frameAnswer` says it in terms of the frame: the frame that is sent in response, if there is one.
Of what the stack keeps it needs the ARP table, the packet number and the TCP channels; of what
lies in the locals it shows what comes through. `monEthRecv_sent` connects it to the code.
-/

namespace Jos.Response

open CArray Inet Packets ArpTable E1000 Http Ip TcpModel
  TcpChecksum TcpStep Recv RecvBounds RecvSpec List

/-- The part of the stack's state that an answer depends on. -/
structure Shared where
  arpTable : ArpCache
  packetId : UInt16
  tcpVc : Table

def shared (st : Stack) : Shared := ⟨st.net.arpTable, st.net.packetId, st.tcpVc⟩

variable {n : ℕ} (stale : Stale) (k : Shared)

def replyTo (protocol : UInt8) (payload : List UInt8) : Option (List UInt8) :=
  (getMacByIp k.arpTable (jhtonl hostIp)).map fun mac => replyFrame k.packetId mac protocol payload

def icmpAnswer (pkt : IpPkt n) : Option (List UInt8) :=
  if LengthOk pkt ∧ (icmpCopy stale pkt).get 0 = echoRequest ∧ (icmpCopy stale pkt).get 1 = 0 then
    replyTo k ipProtoIcmp
      (echoBytes ((icmpCopy stale pkt).slice 0 (totalLength pkt - ipHeaderLen)))
  else none

def udpAnswer (pkt : IpPkt n) : Option (List UInt8) :=
  if LengthOk pkt ∧ UdpLengthOk stale pkt then
    replyTo k ipProtoUdp (udpBytes ((udpCopy stale pkt).slice udpHeaderLen
      (udpLength stale pkt - udpHeaderLen)))
  else none

/-- What a channel asks the layer below to send. -/
def asked (vc : Channel) (g : Segment) : Option (Channel × TcpPkt × ℕ) :=
  match vc.state with
  | .listen =>
    if hasFlag g.pkt thSyn then some (synChannel vc g.pkt g.srcIp, ackPkt thSyn, 0) else none
  | .established =>
    if Accepted vc g ∧ Fits vc g then
      if hasFlag g.pkt thPsh then
        match httpParse (kept vc g).buffer (kept vc g).dataLen.toNat (Arr.zero tcpDataLen) with
        | .ok reply => some (kept vc g, dataPkt reply.1, reply.2)
        | .error _ => none
      else if g.len ≠ 0 then some (kept vc g, ackPkt 0, 0)
      else none
    else none
  | .closeWait =>
    if hasFlag g.pkt thFin ∧ Accepted vc g then some (finished vc, ackPkt 0, 0) else none
  | _ => none

def segmentFrame (vc : Channel) (p : TcpPkt) (length : ℕ) : Option (List UInt8) :=
  (getMacByIp k.arpTable (jhtonl vc.guestSide.ip)).map fun mac =>
    tcpFrame k.packetId mac vc p length

def segmentAnswer (g : Segment) : Option (List UInt8) :=
  (matchTcpVc k.tcpVc g.pkt).bind fun i =>
    (asked (k.tcpVc i) g).bind fun x => segmentFrame k x.1 x.2.1 x.2.2

def tcpAnswer (pkt : IpPkt n) : Option (List UInt8) :=
  if h : LengthOk pkt ∧ ipHeaderLen + tcpHeaderLen ≤ totalLength pkt then
    segmentAnswer k (segmentOf stale pkt h.1)
  else none

instance (pkt : IpPkt n) : Decidable (Dispatched pkt) :=
  decidable_of_iff (_ ∧ _ ∧ (_ ∨ _ ∨ _)) ⟨fun h => ⟨h.1, h.2.1, h.2.2⟩, fun h => ⟨h.1, h.2, h.3⟩⟩

def ipAnswer (pkt : IpPkt n) : Option (List UInt8) :=
  if Dispatched pkt then
    if pkt.hdr.ipProtocol = ipProtoTcp then tcpAnswer stale k pkt
    else if pkt.hdr.ipProtocol = ipProtoUdp then udpAnswer stale k pkt
    else icmpAnswer stale k pkt
  else none

def IsArpRequest (h : ArpHdr) : Prop :=
  (arpHost h).hardwareType = arpEthernet ∧ (arpHost h).protocolType = arpIpv4 ∧
    (arpHost h).targetIp = myIp ∧ (arpHost h).opcode = arpRequest
  deriving Decidable

def arpAnswerFrame (h : ArpHdr) : Option (List UInt8) :=
  if IsArpRequest h then
    (getMacByIp (updateArpTable k.arpTable (arpHost h)).1 h.sourceIp).map fun mac =>
      (⟨mac, getMyMac, jhtons ethTypeArp⟩ : EthHdr).bytes ++ (arpAnswer (arpHost h)).bytes
  else none

/-- **The answer to a frame** of type `ethType` whose data lie in `data`. -/
def frameAnswer (ethType : UInt16) (data : Arr n) : Option (List UInt8) :=
  if ethType = ethTypeIp then ipAnswer stale k (IpPkt.ofArr data (n - ipHeaderLen))
  else if ethType = ethTypeArp then arpAnswerFrame k (ArpHdr.ofArr data)
  else none

/-- The frames handed to the card. A round that leaves an array or follows a null pointer ends there in the model, and
counts as one that sends nothing. -/
def sent {α : Type} (nic : Nic) (card : α → Nic) : Except Fault α → List (List UInt8)
  | .ok x => (card x).accepted.drop nic.accepted.length
  | .error _ => []

def emit (nic : Nic) (answer : Option (List UInt8)) : List (List UInt8) :=
  if TxFull nic then [] else answer.toList

variable {stale k} {α β : Type} {nic : Nic} {card : α → Nic} {net : Net} {st : Stack}

lemma emit_none (nic : Nic) : emit nic none = [] := ite_self _

lemma sent_error (f : Fault) : sent nic card (.error f) = emit nic none := (emit_none nic).symm

lemma sent_same {x : α} (h : (card x).accepted = nic.accepted) : sent nic card (.ok x) = emit nic none := by
  rw [emit_none, sent, h, drop_length]

lemma sent_transmit (net : Net) (frame : List UInt8) :
    sent net.nic (fun x : Net × ℤ => x.1.nic) (.ok (net.transmit frame)) = emit net.nic (some frame) := by
  unfold Net.transmit emit
  by_cases h : TxFull net.nic
  · rw [if_pos h, if_pos h]
    exact drop_length
  · rw [if_neg h, if_neg h]
    exact drop_left

lemma sent_bind {r : Except Fault α} {f : α → β} {card' : β → Nic} (h : ∀ x, card' (f x) = card x) :
    sent nic card' (r >>= fun x => .ok (f x)) = sent nic card r := by
  cases r with
  | error e => rfl
  | ok x => rw [ok_bind, sent, h, sent]

lemma reply_sent (net : Net) (tcpVc : Table) (protocol : UInt8) (payload : List UInt8) :
    sent net.nic (fun x : Net × ℤ => x.1.nic) (reply net protocol payload) =
      emit net.nic (replyTo ⟨net.arpTable, net.packetId, tcpVc⟩ protocol payload) := by
  unfold reply replyTo
  cases getMacByIp net.arpTable (jhtonl hostIp) with
  | none => exact sent_error _
  | some mac => exact sent_transmit { net with packetId := net.packetId + 1 } _

lemma icmpEchoReply_sent (pkt : IpPkt n) :
    sent st.net.nic (fun x : Net × ℤ => x.1.nic) (icmpEchoReply stale st.net pkt) =
      emit st.net.nic (icmpAnswer stale (shared st) pkt) := by
  unfold icmpAnswer
  by_cases hlen : LengthOk pkt
  · rw [icmpEchoReply_eq stale st.net hlen]
    by_cases ht : (icmpCopy stale pkt).get 0 = echoRequest
    · rw [if_neg (not_not.mpr ht)]
      by_cases hc : (icmpCopy stale pkt).get 1 = 0
      · rw [if_neg (not_not.mpr hc), if_pos ⟨hlen, ht, hc⟩]
        exact reply_sent st.net st.tcpVc _ _
      · rw [if_pos hc, if_neg fun h => hc h.2.2]
        exact sent_same rfl
    · rw [if_pos ht, if_neg fun h => ht h.2.1]
      exact sent_same rfl
  · rw [icmpEchoReply_fault stale st.net hlen, if_neg fun h => hlen h.1]
    exact sent_error _

lemma udpRecv_sent (pkt : IpPkt n) : sent st.net.nic (fun x : Net × ℤ => x.1.nic) (udpRecv stale st.net pkt) =
      emit st.net.nic (udpAnswer stale (shared st) pkt) := by
  unfold udpAnswer
  by_cases h : LengthOk pkt ∧ UdpLengthOk stale pkt
  · rw [udpRecv_eq stale st.net h.1 h.2, if_pos h, sent_bind fun _ => rfl]
    exact reply_sent st.net st.tcpVc _ _
  · rw [udpRecv_fault stale st.net h, if_neg h]
    exact sent_error _

lemma tcpReply_sent {σ : Type} (send : Send σ) (s : σ) (card : σ → Nic) (vc : Channel) (e : Event) :
    sent (card s) (fun o : Outcome σ => card o.low) (tcpReply send s vc e) =
      match httpParse vc.buffer vc.dataLen.toNat (Arr.zero tcpDataLen) with
      | .ok reply =>
        sent (card s) (fun y : σ × ℤ => card y.1) (send s vc (dataPkt reply.1) reply.2)
      | .error _ => [] := by
  unfold tcpReply
  cases httpParse vc.buffer vc.dataLen.toNat (Arr.zero tcpDataLen) with
  | error f => rfl
  | ok reply =>
    rw [ok_bind]
    show _ = sent (card s) (fun y : σ × ℤ => card y.1) (send s vc (dataPkt reply.1) reply.2)
    cases send s vc (dataPkt reply.1) reply.2 with
    | error f => rfl
    | ok r =>
      rw [ok_bind]
      split <;> rfl

/-- A state asks the layer below for what `asked` says, and for nothing else. -/
lemma tcpState_sent {σ : Type} (send : Send σ) (s : σ) (card : σ → Nic) (vc : Channel) (g : Segment) :
    sent (card s) (fun o : Outcome σ => card o.low) (tcpState send s vc g.pkt g.srcIp g.len) =
      match asked vc g with
      | none => []
      | some x => sent (card s) (fun y : σ × ℤ => card y.1) (send s x.1 x.2.1 x.2.2) := by
  have hsame : ∀ vc' ret ev, sent (card s) (fun o : Outcome σ => card o.low)
      (.ok ⟨s, vc', ret, ev⟩) = [] := fun _ _ _ => drop_length
  unfold tcpState asked
  cases vc.state with
  | listen =>
    simp only [tcpListen_eq]
    by_cases hf : hasFlag g.pkt thSyn
    · rw [if_pos hf, if_pos hf]
      exact sent_bind fun _ => rfl
    · rw [if_neg hf, if_neg hf]
      exact hsame _ _ _
  | synReceived =>
    simp only [tcpSynReceived_eq]
    split <;> exact hsame _ _ _
  | established =>
    simp only [tcpEstablished_eq]
    by_cases ha : Accepted vc g
    · by_cases hw : tcpWindowSize ≤ (vc.dataLen + g.len.toUInt32).toNat
      · rw [if_pos ha, if_pos hw, if_neg fun h => not_le_of_fits h.2 hw]
        exact hsame _ _ _
      · by_cases hf : Fits vc g
        · rw [if_pos ha, if_neg hw, if_pos hf, if_pos ⟨ha, hf⟩, takePayload]
          by_cases hp : hasFlag g.pkt thPsh
          · rw [if_pos hp, if_pos hp, tcpReply_sent]
            cases httpParse (kept vc g).buffer (kept vc g).dataLen.toNat (Arr.zero tcpDataLen) with
            | error f => rfl
            | ok reply => rfl
          · rw [if_neg hp, if_neg hp]
            by_cases hl : g.len ≠ 0
            · rw [if_pos hl, if_pos hl]
              exact sent_bind fun _ => rfl
            · rw [if_neg hl, if_neg hl]
              exact hsame _ _ _
        · rw [if_pos ha, if_neg hw, if_neg hf, if_neg fun h => hf h.2]
          rfl
    · rw [if_neg ha, if_neg fun h => ha h.1]
      exact hsame _ _ _
  | closeWait =>
    simp only [tcpCloseWait_eq]
    by_cases hack : hasFlag g.pkt thAck
    · by_cases hfin : hasFlag g.pkt thFin
      · by_cases ha : Accepted vc g
        · rw [if_pos hack, if_pos hfin, if_pos ha, if_pos ⟨hfin, ha⟩]
          exact sent_bind fun _ => rfl
        · rw [if_pos hack, if_pos hfin, if_neg ha, if_neg fun h => ha h.2]
          exact hsame _ _ _
      · rw [if_pos hack, if_neg hfin, if_neg fun h => hfin h.1]
        exact hsame _ _ _
    · rw [if_neg hack, if_neg fun h => hack h.2.1]
      exact hsame _ _ _
  | closed | synSent | finWait1 | closing | finWait2 | timeWait | lastAck => exact hsame _ _ _

lemma asked_short {vc : Channel} {g : Segment} {x : Channel × TcpPkt × ℕ} (h : asked vc g = some x) :
    x.2.2 ≤ tcpDataLen := by
  unfold asked at h
  split at h
  · split at h
    · cases h; exact Nat.zero_le _
    · cases h
  · split at h
    · split at h
      · split at h
        · rename_i reply hr
          cases h
          exact (httpParse_short hr).le.trans (by decide)
        · cases h
      · split at h
        · cases h; exact Nat.zero_le _
        · cases h
    · cases h
  · split at h
    · cases h; exact Nat.zero_le _
    · cases h
  · cases h

lemma tcpSend_sent (st : Stack) (vc : Channel) (p : TcpPkt) {length : ℕ} (h : length ≤ tcpDataLen) :
    sent st.net.nic (fun y : Net × ℤ => y.1.nic) (tcpSend stale st.net vc p length) =
      emit st.net.nic (segmentFrame (shared st) vc p length) := by
  unfold segmentFrame shared
  cases hmac : getMacByIp st.net.arpTable (jhtonl vc.guestSide.ip) with
  | none =>
    rw [tcpSend_null stale st.net vc p h hmac]
    exact sent_error _
  | some mac =>
    rw [tcpSend_eq stale st.net vc p h hmac]
    exact sent_transmit { st.net with packetId := st.net.packetId + 1 } _

lemma tcpRecv_sent (pkt : IpPkt n) : sent st.net.nic (fun x : Stack × ℤ => x.1.net.nic) (tcpRecv stale st pkt) =
      emit st.net.nic (tcpAnswer stale (shared st) pkt) := by
  unfold tcpAnswer
  by_cases hshort : ipHeaderLen ≤ totalLength pkt ∧ totalLength pkt < ipHeaderLen + tcpHeaderLen
  · rw [tcpRecv_short stale st hshort.1 hshort.2, dif_neg (by omega)]
    exact sent_same rfl
  by_cases hok : LengthOk pkt
  · have hle : ipHeaderLen + tcpHeaderLen ≤ totalLength pkt := by
      have := hok.1
      omega
    rw [tcpRecv_eq stale st hok hle, dif_pos ⟨hok, hle⟩, sent_bind fun _ => rfl]
    unfold tcpProcess segmentAnswer
    show _ = emit st.net.nic ((matchTcpVc st.tcpVc _).bind _)
    cases matchTcpVc st.tcpVc (segmentOf stale pkt hok).pkt with
    | none => exact sent_error _
    | some i =>
      rw [sent_bind fun _ => rfl]
      refine (tcpState_sent (tcpSend stale) st.net Net.nic (st.tcpVc i) _).trans ?_
      show _ = emit st.net.nic ((asked (st.tcpVc i) _).bind _)
      cases hx : asked (st.tcpVc i) (segmentOf stale pkt hok) with
      | none => exact (emit_none _).symm
      | some x => exact tcpSend_sent st x.1 x.2.1 (asked_short hx)
  · rw [tcpRecv_fault stale st hok (by omega), dif_neg fun h => hok h.1]
    exact sent_error _

lemma ipRecv_sent (pkt : IpPkt n) : sent st.net.nic (fun x : Stack × ℤ => x.1.net.nic) (ipRecv stale st pkt) =
      emit st.net.nic (ipAnswer stale (shared st) pkt) := by
  unfold ipAnswer
  by_cases hd : Dispatched pkt
  · rw [ipRecv_dispatched stale st hd, if_pos hd]
    split
    · exact tcpRecv_sent _
    · split
      · exact (sent_bind fun _ => rfl).trans (udpRecv_sent _)
      · exact (sent_bind fun _ => rfl).trans (icmpEchoReply_sent _)
  · obtain ⟨z, hz⟩ := ipRecv_other stale st hd
    rw [hz, if_neg hd]
    exact sent_same rfl

lemma arpReply_sent (net : Net) (h : ArpHdr) : sent net.nic (fun x : Net × ℤ => x.1.nic) (arpReply stale net h) =
      emit net.nic ((getMacByIp net.arpTable h.sourceIp).map fun mac => arpFrame mac h) := by
  cases hmac : getMacByIp net.arpTable h.sourceIp with
  | none =>
    rw [arpReply_null stale net hmac]
    exact sent_error _
  | some mac =>
    rw [arpReply_eq stale net hmac]
    exact sent_transmit net _

lemma arpResolve_sent (h : ArpHdr) : sent st.net.nic (fun x : Net × ℤ => x.1.nic) (arpResolve stale st.net h) =
      emit st.net.nic (arpAnswerFrame (shared st) h) := by
  unfold arpAnswerFrame
  by_cases ht : ArpTypesOk h
  · rw [arpResolve_learned stale st.net ht]
    by_cases hr : (arpHost h).targetIp = myIp ∧ (arpHost h).opcode = arpRequest
    · rw [if_pos hr, if_pos ⟨ht.1, ht.2, hr⟩]
      exact arpReply_sent (learned st.net h) _
    · rw [if_neg hr, if_neg fun h => hr h.2.2]
      exact sent_same rfl
  · rw [arpResolve_other stale st.net ht, if_neg fun h => ht ⟨h.1, h.2.1⟩]
    exact sent_same rfl

lemma ethDispatch_sent (st : Stack) (hdr : EthHdr) (data : Arr n) (size : ℤ) :
    sent st.net.nic (fun x : Stack × ℤ => x.1.net.nic) (ethDispatch stale st hdr data size) =
      emit st.net.nic (frameAnswer stale (shared st) hdr.ethType data) := by
  unfold ethDispatch frameAnswer
  split
  · exact (sent_bind fun _ => rfl).trans (ipRecv_sent _)
  · split
    · exact (sent_bind fun _ => rfl).trans (arpResolve_sent _)
    · exact sent_same rfl

/-- A frame is waiting that `eth_recv` can hand on. -/
def Arrives (nic : Nic) : Prop := Ready nic ∧ 0 < nic.rxLen ∧ nic.rxLen ≤ monBufSize
  deriving Decidable

/-- **What a round of the monitor sends.** -/
theorem monEthRecv_sent (tracePackets : Bool) (st : Stack) (buf : Arr monBufSize) :
    sent st.net.nic (fun st : Stack => st.net.nic) (monEthRecv stale tracePackets st buf) =
      if Arrives st.net.nic then
        emit st.net.nic (frameAnswer stale (shared st) (fetchedHdr stale st.net.nic).ethType
          (fetched stale st.net.nic buf))
      else [] := by
  have hsz := sizes
  have h3 := monBufSize_eq
  by_cases hready : Ready st.net.nic
  · by_cases h0 : st.net.nic.rxLen = 0
    · rw [monEthRecv_none (ethFetch_empty stale hready h0 buf), if_neg fun h => h.2.1.ne' h0]
      exact drop_length
    · by_cases hle : st.net.nic.rxLen ≤ monBufSize
      · rw [monEthRecv_some (ethFetch_ready stale hready (by omega) hle (by omega)) (by omega),
          if_pos ⟨hready, by omega, hle⟩, sent_bind fun _ => rfl]
        exact ethDispatch_sent (withNic st st.net.nic.taken) _ _ _
      · rw [monEthRecv, ethRecv, ethFetch_fault stale hready (.inl (by omega)), if_neg fun h => hle h.2.2]
        rfl
  · rw [monEthRecv_none (ethFetch_idle stale hready buf), if_neg fun h => hready h.1]
    exact drop_length

/-- **No amplification**: a round of the receive loop sends at most one frame, and none if no frame arrived. -/
theorem mon_eth_recv_sends_at_most_one (tracePackets : Bool) (st : Stack) (buf : Arr monBufSize) :
    (sent st.net.nic (fun st : Stack => st.net.nic) (monEthRecv stale tracePackets st buf)).length ≤
      if Arrives st.net.nic then 1 else 0 := by
  rw [monEthRecv_sent]
  split
  · unfold emit
    split
    · exact Nat.zero_le _
    · exact Option.length_toList_le
  · rfl

end Jos.Response
