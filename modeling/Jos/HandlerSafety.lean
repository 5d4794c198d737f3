import Jos.RecvSpec
import Jos.TcpInv

/-!
The handlers and the length a packet claims, which is the sender's.

TCP refuses a packet that ends inside the TCP header, but not one that ends inside the IP header;
UDP and ICMP refuse none, and none of the three asks whether the packet fits in its structure. UDP
trusts the length of the datagram as well.
-/

namespace Jos.HandlerSafety

open CArray Inet Packets ArpTable E1000 Ip Runs TcpModel
  TcpChecksum TcpStep TcpInv Recv RecvSpec

def status {α : Type} (r : Except Fault (α × ℤ)) : Except Fault ℤ := r.map Prod.snd

/-- No copy leaves its structure, no assertion fails, and a short packet is answered with a negative status.
-/
structure Harmless (short : Prop) (r : Except Fault ℤ) : Prop where
  inBounds : r ≠ .error .outOfBounds
  asserts : r ≠ .error .assertion
  refused : short → ∃ z, r = .ok z ∧ z < 0

/-- **The handlers are safe** on the packet. -/
def HandlersSafe (stale : Stale) (st : Stack) (pkt : IpPkt ipDataLen) : Prop :=
  Harmless (totalLength pkt < ipHeaderLen + transportHeaderLen pkt.hdr.ipProtocol)
    (status (ipRecv stale st pkt))

/-- The handler can take the claimed lengths. A short ICMP packet is refused only if what lies in the
structure is no echo request, or the ring is full. -/
def LengthsTaken (stale : Stale) (net : Net) (pkt : IpPkt ipDataLen) : Prop :=
  totalLength pkt ≤ ipHeaderLen + ipDataLen ∧
    if pkt.hdr.ipProtocol = ipProtoTcp then ipHeaderLen ≤ totalLength pkt
    else if pkt.hdr.ipProtocol = ipProtoUdp then
      ipHeaderLen + udpHeaderLen ≤ totalLength pkt ∧ udpHeaderLen ≤ datagramLength pkt ∧
        datagramLength pkt ≤ ipDataLen
    else
      ipHeaderLen ≤ totalLength pkt ∧
        (ipHeaderLen + icmpHeaderLen ≤ totalLength pkt ∨
          (icmpCopy stale pkt).get 0 ≠ echoRequest ∨ (icmpCopy stale pkt).get 1 ≠ 0 ∨
            (getMacByIp net.arpTable (jhtonl hostIp)).isSome ∧ TxFull net.nic)

variable {stale : Stale} {st : Stack} {net : Net} {pkt : IpPkt ipDataLen} {short : Prop}

lemma harmless_ok_iff {z : ℤ} : Harmless short (.ok z) ↔ (short → z < 0) := by
  constructor
  · intro h hs
    obtain ⟨z', hz, hneg⟩ := h.refused hs
    cases hz
    exact hneg
  · exact fun h => ⟨nofun, nofun, fun hs => ⟨z, rfl, h hs⟩⟩

lemma harmless_null_iff : Harmless short (.error .nullPointer) ↔ ¬short := by
  constructor
  · intro h hs
    obtain ⟨z, hz, -⟩ := h.refused hs
    cases hz
  · exact fun h => ⟨nofun, nofun, fun hs => absurd hs h⟩

lemma status_withNet (r : Except Fault (Net × ℤ)) : status (withNet st r) = status r := by
  cases r <;> rfl

lemma reply_cases (net : Net) (protocol : UInt8) (payload : List UInt8) :
    (getMacByIp net.arpTable (jhtonl hostIp) = none ∧ reply net protocol payload = .error .nullPointer) ∨
    (getMacByIp net.arpTable (jhtonl hostIp)).isSome ∧ ∃ x, reply net protocol payload = .ok x ∧
      x.2 = if TxFull net.nic then -1 else 0 := by
  unfold reply
  cases hmac : getMacByIp net.arpTable (jhtonl hostIp) with
  | none => exact .inl ⟨rfl, rfl⟩
  | some mac =>
    refine .inr ⟨rfl, _, rfl, ?_⟩
    unfold Net.transmit
    by_cases hf : TxFull net.nic
    · simp [hf]
    · simp [hf]

lemma reply_harmless_iff (net : Net) (protocol : UInt8) (payload : List UInt8) :
    Harmless short (status (reply net protocol payload)) ↔
      (short → (getMacByIp net.arpTable (jhtonl hostIp)).isSome ∧ TxFull net.nic) := by
  rcases reply_cases net protocol payload with ⟨hmac, hr⟩ | ⟨hmac, x, hr, hx⟩
  · rw [hr, hmac]
    exact harmless_null_iff.trans (imp_congr_right fun _ => by simp)
  · rw [hr]
    refine harmless_ok_iff.trans (imp_congr_right fun _ => ?_)
    rw [hx]
    by_cases hfull : TxFull net.nic
    · rw [if_pos hfull]
      exact iff_of_true (by decide) ⟨hmac, hfull⟩
    · rw [if_neg hfull]
      exact iff_of_false (by decide) fun h => hfull h.2

lemma tcpSend_error {vc : Channel} {p : TcpPkt} {length : ℕ} {f : Fault} (hl : length < 256)
    (h : tcpSend stale net vc p length = .error f) : f = .nullPointer := by
  have hle : length ≤ tcpDataLen := by
    have hsz := sizes
    omega
  cases hmac : getMacByIp net.arpTable (jhtonl vc.guestSide.ip) with
  | none =>
    rw [tcpSend_null stale net vc p hle hmac] at h
    cases h
    rfl
  | some mac =>
    rw [tcpSend_eq stale net vc p hle hmac] at h
    cases h

lemma tcpProcess_error_null (hinv : TableInv st.tcpVc) {g : Segment} {f : Fault}
    (h : tcpProcess (tcpSend stale) st.net st.tcpVc g.pkt g.srcIp g.len = .error f) :
    f = .nullPointer := by
  rcases tcpProcess_error h with hown | ⟨vc, p, length, hl, hsend⟩
  · rcases hinv.process_ok 0 g with ⟨R, hR⟩ | ⟨hnull, -⟩
    · rw [hown 0] at hR
      cases hR
    · rw [hown 0] at hnull
      cases hnull
      rfl
  · exact tcpSend_error hl hsend

lemma reply_inBounds (protocol : UInt8) (payload : List UInt8) :
    reply net protocol payload ≠ .error .outOfBounds := by
  rcases reply_cases net protocol payload with ⟨-, hr⟩ | ⟨-, x, hr, -⟩ <;>
  · rw [hr]
    nofun

lemma bind_inBounds {α β : Type} {r : Except Fault α} {k : α → β} (h : r ≠ .error .outOfBounds) :
    (r >>= fun a => .ok (k a)) ≠ .error .outOfBounds := by
  cases r with
  | error f => exact fun hf => h (congrArg Except.error (Except.error.inj hf))
  | ok a => nofun

/-- A packet whose lengths a handler can take is handled inside the arrays. -/
lemma ipRecv_inBounds {n : ℕ} {pkt : IpPkt n} (hinv : TableInv st.tcpVc) (hlen : LengthOk pkt)
    (hudp : pkt.hdr.ipProtocol = ipProtoUdp → UdpLengthOk stale pkt) : ipRecv stale st pkt ≠ .error .outOfBounds := by
  by_cases hd : Dispatched pkt
  swap
  · obtain ⟨z, hz⟩ := ipRecv_other stale st hd
    rw [hz]
    nofun
  rw [ipRecv_dispatched stale st hd]
  have hlen' : LengthOk { pkt with hdr := { pkt.hdr with ipHeaderChecksum := 0 } } := hlen
  split_ifs with ht hu
  · by_cases hs : ipHeaderLen + tcpHeaderLen ≤ totalLength pkt
    · rw [tcpRecv_eq stale st hlen' hs]
      refine bind_inBounds fun h => ?_
      cases tcpProcess_error_null hinv h
    · rw [tcpRecv_short stale st hlen'.1 (not_le.mp hs)]
      nofun
  · refine bind_inBounds ?_
    rw [udpRecv_eq stale st.net hlen' (hudp hu)]
    exact bind_inBounds (reply_inBounds _ _)
  · refine bind_inBounds ?_
    rw [icmpEchoReply_eq stale st.net hlen']
    split_ifs
    · nofun
    · nofun
    · exact reply_inBounds _ _

lemma arpResolve_inBounds (h : ArpHdr) : arpResolve stale net h ≠ .error .outOfBounds := by
  by_cases ht : ArpTypesOk h
  · rw [arpResolve_learned stale net ht]
    split_ifs
    · cases hmac : getMacByIp (learned net h).arpTable (arpHost h).sourceIp with
      | none =>
        rw [arpReply_null stale _ hmac]
        nofun
      | some mac =>
        rw [arpReply_eq stale _ hmac]
        nofun
    · nofun
  · rw [arpResolve_other stale net ht]
    nofun

lemma ethDispatch_inBounds {n : ℕ} {hdr : EthHdr} {data : Arr n} {size : ℤ}
    (h : hdr.ethType = ethTypeIp → ipRecv stale st (IpPkt.ofArr data (n - ipHeaderLen)) ≠ .error .outOfBounds) :
    ethDispatch stale st hdr data size ≠ .error .outOfBounds := by
  unfold ethDispatch
  split_ifs with hip
  · exact bind_inBounds (h hip)
  · exact bind_inBounds (arpResolve_inBounds _)
  · nofun

lemma tcpRecv_harmless_iff (hinv : TableInv st.tcpVc) :
    Harmless (totalLength pkt < ipHeaderLen + tcpHeaderLen) (status (tcpRecv stale st pkt)) ↔
      totalLength pkt ≤ ipHeaderLen + ipDataLen ∧ ipHeaderLen ≤ totalLength pkt := by
  have hsz := sizes
  by_cases hshort : ipHeaderLen ≤ totalLength pkt ∧ totalLength pkt < ipHeaderLen + tcpHeaderLen
  · rw [tcpRecv_short stale st hshort.1 hshort.2]
    exact iff_of_true (harmless_ok_iff.mpr fun _ => show (-1 : ℤ) < 0 by decide) ⟨by omega, hshort.1⟩
  by_cases hok : LengthOk pkt
  · have hle : ipHeaderLen + tcpHeaderLen ≤ totalLength pkt := by
      have := hok.1
      omega
    refine iff_of_true ?_ ⟨hok.2.1, hok.1⟩
    rw [tcpRecv_eq stale st hok hle]
    cases hp : tcpProcess (tcpSend stale) st.net st.tcpVc (segmentOf stale pkt hok).pkt
        (segmentOf stale pkt hok).srcIp (segmentOf stale pkt hok).len with
    | error f =>
      rw [error_bind, tcpProcess_error_null hinv hp]
      exact harmless_null_iff.mpr (by omega)
    | ok R => exact harmless_ok_iff.mpr fun hs => by omega
  · have hlong : totalLength pkt < ipHeaderLen ∨ ipHeaderLen + tcpHeaderLen ≤ totalLength pkt := by
      omega
    refine iff_of_false (fun h => h.inBounds (by rw [tcpRecv_fault stale st hok hlong]; rfl)) ?_
    rintro ⟨hmax, hmin⟩
    exact hok ⟨hmin, hmax, hmax⟩

lemma udpRecv_harmless_iff :
    Harmless (totalLength pkt < ipHeaderLen + udpHeaderLen) (status (udpRecv stale net pkt)) ↔
      totalLength pkt ≤ ipHeaderLen + ipDataLen ∧ ipHeaderLen + udpHeaderLen ≤ totalLength pkt ∧
        udpHeaderLen ≤ datagramLength pkt ∧ datagramLength pkt ≤ ipDataLen := by
  have hsz := sizes
  by_cases hok : LengthOk pkt ∧ UdpLengthOk stale pkt
  · obtain ⟨hlen, hudp⟩ := hok
    -- the handler returns zero, whatever the send has come to
    have hstatus : Harmless (totalLength pkt < ipHeaderLen + udpHeaderLen)
        (status (udpRecv stale net pkt)) ↔ ¬totalLength pkt < ipHeaderLen + udpHeaderLen := by
      rw [udpRecv_eq stale net hlen hudp]
      rcases reply_cases net ipProtoUdp (udpBytes ((udpCopy stale pkt).slice udpHeaderLen
        (udpLength stale pkt - udpHeaderLen))) with ⟨-, hr⟩ | ⟨-, x, hr, -⟩
      · rw [hr]
        exact harmless_null_iff
      · rw [hr]
        exact harmless_ok_iff.trans (imp_congr_right fun _ => iff_of_false (lt_irrefl 0) id)
    rw [hstatus]
    constructor
    · intro hle
      rw [← udpLength_eq stale (by omega) hlen.2.1]
      exact ⟨hlen.2.1, by omega, hudp.1, hudp.2⟩
    · rintro ⟨-, hle, -⟩
      omega
  · refine iff_of_false (fun h => h.inBounds (by rw [udpRecv_fault stale net hok]; rfl)) ?_
    rintro ⟨hmax, hmin, hd⟩
    rw [← udpLength_eq stale (by omega) hmax] at hd
    exact hok ⟨⟨by omega, hmax, hmax⟩, hd⟩

lemma icmpEchoReply_harmless_iff : Harmless (totalLength pkt < ipHeaderLen + icmpHeaderLen)
      (status (icmpEchoReply stale net pkt)) ↔
      totalLength pkt ≤ ipHeaderLen + ipDataLen ∧ ipHeaderLen ≤ totalLength pkt ∧
        (ipHeaderLen + icmpHeaderLen ≤ totalLength pkt ∨
          (icmpCopy stale pkt).get 0 ≠ echoRequest ∨ (icmpCopy stale pkt).get 1 ≠ 0 ∨
            (getMacByIp net.arpTable (jhtonl hostIp)).isSome ∧ TxFull net.nic) := by
  by_cases hlen : LengthOk pkt
  · rw [icmpEchoReply_eq stale net hlen]
    have hbounds := hlen.2.1
    have hmin := hlen.1
    by_cases ht : (icmpCopy stale pkt).get 0 ≠ echoRequest
    · rw [if_pos ht]
      exact iff_of_true (harmless_ok_iff.mpr fun _ => show -eUnsIcmpType < 0 by decide)
        ⟨hbounds, hmin, .inr (.inl ht)⟩
    rw [if_neg ht]
    by_cases hc : (icmpCopy stale pkt).get 1 ≠ 0
    · rw [if_pos hc]
      exact iff_of_true (harmless_ok_iff.mpr fun _ => show -eInvIcmpCode < 0 by decide)
        ⟨hbounds, hmin, .inr (.inr (.inl hc))⟩
    -- a request: the status is the one of the send
    rw [if_neg hc, reply_harmless_iff]
    constructor
    · intro h
      refine ⟨hbounds, hmin, ?_⟩
      by_cases hs : ipHeaderLen + icmpHeaderLen ≤ totalLength pkt
      · exact .inl hs
      · exact .inr (.inr (.inr (h (not_le.mp hs))))
    · rintro ⟨-, -, hle | h | h | hfull⟩ hs
      · exact absurd hs (not_lt.mpr hle)
      · exact absurd h ht
      · exact absurd h hc
      · exact hfull
  · refine iff_of_false (fun h => h.inBounds (by rw [icmpEchoReply_fault stale net hlen]; rfl)) ?_
    rintro ⟨hmax, hmin, -⟩
    exact hlen ⟨hmin, hmax, hmax⟩

/-- **The handlers are safe exactly on packets whose lengths they can take**, in every state of
the stack that the TCP channels can be in. -/
theorem handlers_safe_iff (stale : Stale) (net : Net) (xs : List (Segment × ℤ)) (m : Machine)
    (h : run step boot xs = .ok m) (pkt : IpPkt ipDataLen) (hd : Dispatched pkt) :
    HandlersSafe stale ⟨net, m.tab⟩ pkt ↔ LengthsTaken stale net pkt := by
  have hinv := tableInv_of_run h
  unfold HandlersSafe LengthsTaken transportHeaderLen
  rw [ipRecv_dispatched _ _ hd]
  by_cases ht : pkt.hdr.ipProtocol = ipProtoTcp
  · simp only [if_pos ht]
    exact tcpRecv_harmless_iff hinv
  simp only [if_neg ht]
  by_cases hu : pkt.hdr.ipProtocol = ipProtoUdp
  · simp only [if_pos hu, status_withNet]
    exact udpRecv_harmless_iff
  · simp only [if_neg hu, status_withNet]
    exact icmpEchoReply_harmless_iff

def packet (protocol : UInt8) (total : UInt16) (data : List UInt8) : IpPkt ipDataLen :=
  let hdr : IpHdr :=
    { ipVerlen := ipVerLen, ipTos := 0, ipTotalLength := jhtons total, ipId := 0
      ipFlagsOffset := 0, ipTtl := ipTtl, ipProtocol := protocol, ipHeaderChecksum := 0
      ipSourceAddress := jhtonl hostIp, ipDestinationAddress := jhtonl myIp }
  ⟨{ hdr with ipHeaderChecksum := ipChecksum hdr.bytes }, Arr.ofList _ data⟩

lemma dispatched_packet_icmp (total : UInt16) (data : List UInt8) :
    Dispatched (packet ipProtoIcmp total data) := ⟨rfl, rfl, .inr (.inr rfl)⟩

/-- An echo request without data. -/
theorem handlers_safe_echo :
    run step boot [] = .ok boot ∧ Dispatched (packet ipProtoIcmp 28 [8]) ∧
      HandlersSafe (staleFill 0) ⟨(bootStack []).net, boot.tab⟩ (packet ipProtoIcmp 28 [8]) := by
  have hd := dispatched_packet_icmp 28 [8]
  refine ⟨rfl, hd, (handlers_safe_iff _ _ [] boot rfl _ hd).mpr ?_⟩
  exact ⟨by decide, by decide, .inl (by decide)⟩

/-- An echo request that claims 1500 bytes: 1480 are copied into a structure of 1466. -/
theorem handlers_unsafe :
    ¬ ∀ (stale : Stale) (net : Net) (xs : List (Segment × ℤ)) (m : Machine),
      run step boot xs = .ok m → ∀ pkt, Dispatched pkt → HandlersSafe stale ⟨net, m.tab⟩ pkt := by
  intro h
  have hd := dispatched_packet_icmp 1500 [8]
  have hsafe := h (staleFill 0) (bootStack []).net [] boot rfl _ hd
  unfold HandlersSafe at hsafe
  rw [ipRecv_dispatched _ _ hd, if_neg (by decide), if_neg (by decide), status_withNet,
    icmpEchoReply_fault _ _ (fun hok => absurd hok.2.1 (by decide))] at hsafe
  exact hsafe.inBounds rfl

end Jos.HandlerSafety
