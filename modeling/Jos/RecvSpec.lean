import Jos.Recv
import Jos.TcpChecksum
import Jos.TcpStep

/-!
What the handlers do, one lemma for a packet that a handler can take and one for a packet on
which it leaves an array. A reply of UDP or ICMP goes to the same host, whoever has sent the packet.
-/

namespace Jos.RecvSpec

open CArray Inet Packets ArpTable Ip TcpModel TcpStep Recv List Arr

variable {n m : ℕ} (stale : Stale) {pkt : IpPkt n}

lemma totalLength_lt (pkt : IpPkt n) : totalLength pkt < 2 ^ 16 := (jntohs pkt.hdr.ipTotalLength).toNat_lt

def copySize (pkt : IpPkt n) : ℕ := intToSize (sizeToInt (sizeSub (totalLength pkt) ipHeaderLen))

lemma copySize_eq (h : ipHeaderLen ≤ totalLength pkt) : copySize pkt = totalLength pkt - ipHeaderLen := by
  have h1 := totalLength_lt pkt
  rw [copySize, sizeSub_of_le h, sizeToInt_of_lt, intToSize_of_nonneg]

lemma copySize_wrap (h : totalLength pkt < ipHeaderLen) : ipDataLen < copySize pkt := by
  have hsz := sizes
  rw [copySize, sizeSub_of_lt h (by omega), sizeToInt_of_wrap (by omega) (by omega), intToSize_of_neg]
  omega

def LengthOk (pkt : IpPkt n) : Prop :=
  ipHeaderLen ≤ totalLength pkt ∧ totalLength pkt ≤ ipHeaderLen + ipDataLen ∧
    totalLength pkt ≤ ipHeaderLen + n
  deriving Decidable

lemma copy_ok (h : LengthOk pkt) (a : Arr ipDataLen) : a.memcpy 0 pkt.data 0 (copySize pkt) =
      .ok (a.splice 0 (pkt.data.slice 0 (totalLength pkt - ipHeaderLen))) := by
  obtain ⟨h1, h2, h3⟩ := h
  rw [copySize_eq h1, memcpy_ok _ _]

lemma copy_fault (h : ¬LengthOk pkt) (a : Arr ipDataLen) :
    a.memcpy 0 pkt.data 0 (copySize pkt) = .error .outOfBounds := by
  unfold LengthOk at h
  by_cases h1 : ipHeaderLen ≤ totalLength pkt
  · rw [copySize_eq h1]
    exact memcpy_fault _ _
  · have := copySize_wrap (not_le.mp h1)
    exact memcpy_fault _ _

/-- The frame that carries `payload` to the host. -/
def replyFrame (packetId : UInt16) (mac : Mac) (protocol : UInt8) (payload : List UInt8) :
    List UInt8 :=
  (⟨mac, getMyMac, jhtons ethTypeIp⟩ : EthHdr).bytes ++
    (ipSendHdr packetId ⟨0, 0, 0, 0, 0, 0, protocol, 0, jhtonl myIp, jhtonl hostIp⟩
      payload.length.toUInt16).bytes ++ payload

/-- Sending `payload` to the host. -/
def reply (net : Net) (protocol : UInt8) (payload : List UInt8) : Except Fault (Net × ℤ) :=
  match getMacByIp net.arpTable (jhtonl hostIp) with
  | none => .error .nullPointer
  | some mac => .ok (({ net with packetId := net.packetId + 1 } : Net).transmit
      (replyFrame net.packetId mac protocol payload))

lemma ipSend_reply (net : Net) (hdr : IpHdr) (data : Arr ipDataLen) (protocol : UInt8)
    {payload : List UInt8} (h : payload.length ≤ ipDataLen) :
    ipSend stale net ⟨{ hdr with
          ipProtocol := protocol
          ipSourceAddress := jhtonl myIp
          ipDestinationAddress := jhtonl hostIp }, data.splice 0 payload⟩
      payload.length.toUInt16 = reply net protocol payload := by
  have hsz := sizes
  have hlen : payload.length.toUInt16.toNat = payload.length := toNat_toUInt16
  unfold reply
  cases hmac : getMacByIp net.arpTable (jhtonl hostIp) with
  | none => exact ipSend_null stale net _ (by omega) hmac
  | some mac =>
    rw [ipSend_eq stale net _ (by omega) hmac, ipFrame, hlen, slice_splice_same _ _ _ (by omega)]
    rfl

/-- The datagram `udp_send` makes of the data. -/
def udpBytes (data : List UInt8) : List UInt8 :=
  (⟨jhtons 8081, jhtons 1234, jhtons (data.length + udpHeaderLen).toUInt16, 0⟩ : UdpHdr).bytes ++ data

lemma length_udpBytes (data : List UInt8) : (udpBytes data).length = data.length + udpHeaderLen := by
  simp [udpBytes, Nat.add_comm]

lemma udp_toArr_slice (p : UdpPkt) {length : ℕ} (h : length ≤ udpDataLength) :
    p.toArr.slice 0 (length + udpHeaderLen) = p.hdr.bytes ++ p.data.slice 0 length := by
  have hsz := sizes
  have hslice := slice_ofList_append p.hdr.bytes p.data
    (show p.hdr.bytes.length + length ≤ ipDataLen by rw [UdpHdr.length_bytes]; omega) h
  rwa [UdpHdr.length_bytes, Nat.add_comm] at hslice

lemma udpSend_eq (net : Net) (data : Arr m) {size : ℕ} (h : size ≤ udpDataLength) (hm : size ≤ m) :
    udpSend stale net data size = reply net ipProtoUdp (udpBytes (data.slice 0 size)) := by
  have hsz := sizes
  have hlen : size + udpHeaderLen = (udpBytes (data.slice 0 size)).length := by
    rw [length_udpBytes, length_slice]
  unfold udpSend
  rw [intToSize_of_nonneg]
  dsimp only
  rw [memcpy_ok _ _, ok_bind, memcpy_ok _ _, ok_bind, udp_toArr_slice _ h]
  have hdata : (stale.pkt.data.splice 0 (data.slice 0 size)).slice 0 size = data.slice 0 size := by
    have := slice_splice_same stale.pkt.data 0 (data.slice 0 size) (by simp; omega)
    rwa [length_slice] at this
  rw [hdata]
  have hbytes : (⟨jhtons 8081, jhtons 1234, jhtons (size + udpHeaderLen).toUInt16, 0⟩ : UdpHdr).bytes
      ++ data.slice 0 size = udpBytes (data.slice 0 size) := by
    rw [udpBytes, length_slice]
  rw [hbytes, hlen]
  exact ipSend_reply stale net _ _ _ (by rw [← hlen]; omega)

/-- The structure `udp_recv` has copied the packet into. -/
def udpCopy (pkt : IpPkt n) : Arr ipDataLen :=
  stale.upkt.splice 0 (pkt.data.slice 0 (totalLength pkt - ipHeaderLen))

/-- The length field of the datagram, as `udp_recv` reads it. -/
def udpLength (pkt : IpPkt n) : ℕ := (jntohs (get16 (udpCopy stale pkt) 4)).toNat

def datagramLength (pkt : IpPkt n) : ℕ := (jntohs (get16 pkt.data 4)).toNat

lemma udpLength_eq (h : ipHeaderLen + 6 ≤ totalLength pkt := by omega)
    (hmax : totalLength pkt ≤ ipHeaderLen + ipDataLen := by omega) :
    udpLength stale pkt = datagramLength pkt := by
  have hget : ∀ k < 6, (udpCopy stale pkt).get k = pkt.data.get k := by
    intro k hk
    rw [udpCopy, get_splice_inside _ (by omega) (by omega) (by simp; omega), getD_slice _ _ _ _ (by omega)]
    congr 1
    omega
  rw [udpLength, datagramLength, get16_congr (fun k hk => hget k (by omega))]

/-- The length field of a datagram that `udp_recv` can take. -/
def UdpLengthOk (pkt : IpPkt n) : Prop :=
  udpHeaderLen ≤ udpLength stale pkt ∧ udpLength stale pkt ≤ ipDataLen
  deriving Decidable

lemma udpRecv_eq (net : Net) (h : LengthOk pkt) (hl : UdpLengthOk stale pkt) :
    udpRecv stale net pkt = (reply net ipProtoUdp (udpBytes ((udpCopy stale pkt).slice udpHeaderLen
        (udpLength stale pkt - udpHeaderLen))) >>= fun r => .ok (r.1, 0)) := by
  obtain ⟨hl1, hl2⟩ := hl
  have hsz := sizes
  have hcopy := copy_ok h stale.upkt
  have hslice : (UdpPkt.ofArr (udpCopy stale pkt)).data.slice 0 (udpLength stale pkt - udpHeaderLen) =
      (udpCopy stale pkt).slice udpHeaderLen (udpLength stale pkt - udpHeaderLen) :=
    slice_sub _ _ (by omega)
  unfold copySize at hcopy
  unfold udpRecv
  dsimp only
  rw [hcopy, ok_bind]
  change ((UdpPkt.ofArr (udpCopy stale pkt)).data.read 0
    (sizeSub (udpLength stale pkt) udpHeaderLen) >>= fun _ => udpSend stale net
      (UdpPkt.ofArr (udpCopy stale pkt)).data
        (sizeToInt (sizeSub (udpLength stale pkt) udpHeaderLen)) >>= fun r => .ok (r.1, 0)) = _
  rw [sizeSub_of_le hl1, read_ok _, ok_bind, sizeToInt_of_lt, udpSend_eq stale net _ (by omega) (by omega), hslice]

lemma udpRecv_fault (net : Net) (h : ¬(LengthOk pkt ∧ UdpLengthOk stale pkt)) :
    udpRecv stale net pkt = .error .outOfBounds := by
  have hsz := sizes
  unfold udpRecv
  dsimp only
  by_cases hok : LengthOk pkt
  · have hcopy := copy_ok hok stale.upkt
    have hl : ¬UdpLengthOk stale pkt := fun hl => h ⟨hok, hl⟩
    unfold copySize at hcopy
    rw [hcopy, ok_bind]
    change ((UdpPkt.ofArr (udpCopy stale pkt)).data.read 0
      (sizeSub (udpLength stale pkt) udpHeaderLen) >>= fun _ => _) = _
    have hlt : udpLength stale pkt < 2 ^ 16 := UInt16.toNat_lt _
    have hlong : udpDataLength < sizeSub (udpLength stale pkt) udpHeaderLen := by
      unfold UdpLengthOk at hl
      by_cases hle : udpHeaderLen ≤ udpLength stale pkt
      · rw [sizeSub_of_le hle]
        omega
      · rw [sizeSub_of_lt (not_le.mp hle) (by omega)]
        omega
    rw [Arr.read, if_neg (by omega), error_bind]
  · have hcopy := copy_fault hok stale.upkt
    unfold copySize at hcopy
    rw [hcopy, error_bind]

/-- The structure `icmp_echo_reply` has copied the packet into. -/
def icmpCopy (pkt : IpPkt n) : Arr ipDataLen :=
  stale.icmpPacket.splice 0 (pkt.data.slice 0 (totalLength pkt - ipHeaderLen))

/-- The echo of a message: another type, and the checksum with the difference in its high byte. -/
def echoBytes (msg : List UInt8) : List UInt8 := (msg.set 0 echoReply).modify 2 (· + 8)

example : echoBytes [8, 0, 0xf7, 0xff] = [0, 0, 0xff, 0xff] := by decide +kernel

@[simp] lemma length_echoBytes (msg : List UInt8) : (echoBytes msg).length = msg.length := by
  simp [echoBytes]

lemma take_echoBytes (msg : List UInt8) (k : ℕ) : (echoBytes msg).take k = echoBytes (msg.take k) := by
  rw [echoBytes, take_modify, take_set, echoBytes]

lemma le16_echo_checksum (a b : UInt8) : le16 (jhtons (jntohs (of16 a b) + 0x0800)) = [a + 8, b] := by
  have hb := b.toNat_lt
  have hw : (jntohs (of16 a b)).toNat = a.toNat * 256 + b.toNat := jntohs_of16_toNat a b
  rw [le16_jhtons]
  simp only [cons.injEq, and_true]
  constructor
  · refine UInt8.toNat_inj.mp ?_
    simp [Nat.shiftRight_eq_div_pow, UInt16.toNat_add, hw]
    omega
  · refine UInt8.toNat_inj.mp ?_
    simp [hw]

lemma echoed_slice (a : Arr ipDataLen) {size : ℕ} (h : size ≤ ipDataLen) :
    (echoed (IcmpPkt.ofArr a)).toArr.slice 0 size = echoBytes (a.slice 0 size) := by
  have hsz := sizes
  have hhdr : (echoed (IcmpPkt.ofArr a)).hdr.bytes = [echoReply, a.get 1, a.get 2 + 8, a.get 3,
      a.get 4, a.get 5, a.get 6, a.get 7] := by
    have hcs := le16_echo_checksum (a.get 2) (a.get 3)
    have hid := le16_of16 (a.get 4) (a.get 5)
    have hseq := le16_of16 (a.get 6) (a.get 7)
    simp only [IcmpHdr.bytes, echoed, IcmpPkt.ofArr, IcmpHdr.ofArr, get16] at *
    rw [hcs, hid, hseq]
    rfl
  have hdata : (echoed (IcmpPkt.ofArr a)).data.slice 0 icmpDataLen = a.slice icmpHeaderLen icmpDataLen :=
    slice_sub _ _ (by omega)
  have hall : echoBytes (a.slice 0 (icmpHeaderLen + icmpDataLen)) =
      (echoed (IcmpPkt.ofArr a)).hdr.bytes ++ (echoed (IcmpPkt.ofArr a)).data.slice 0 icmpDataLen := by
    rw [slice_add, hhdr, hdata]
    rfl
  rw [IcmpPkt.toArr, slice_ofList _ (by omega) (by simp; omega), drop_zero, ← hall,
    take_echoBytes, take_slice _ _ (by omega)]

lemma icmpEchoReply_eq (net : Net) (h : LengthOk pkt) : icmpEchoReply stale net pkt =
      if (icmpCopy stale pkt).get 0 ≠ echoRequest then .ok (net, -eUnsIcmpType)
      else if (icmpCopy stale pkt).get 1 ≠ 0 then .ok (net, -eInvIcmpCode)
      else reply net ipProtoIcmp (echoBytes ((icmpCopy stale pkt).slice 0 (totalLength pkt - ipHeaderLen))) := by
  have hcopy := copy_ok h stale.icmpPacket
  obtain ⟨hle, hmax, -⟩ := h
  have hsize := copySize_eq hle
  unfold copySize at hcopy hsize
  unfold icmpEchoReply
  dsimp only
  rw [hcopy, ok_bind, hsize]
  refine if_congr Iff.rfl rfl ?_
  refine if_congr Iff.rfl rfl ?_
  rw [memcpy_ok _ _, ok_bind, echoed_slice _ (by omega)]
  have hlen : (echoBytes ((icmpCopy stale pkt).slice 0 (totalLength pkt - ipHeaderLen))).length =
      totalLength pkt - ipHeaderLen := by simp
  have hsend := ipSend_reply stale net stale.result.hdr stale.result.data ipProtoIcmp
    (show (echoBytes ((icmpCopy stale pkt).slice 0 (totalLength pkt - ipHeaderLen))).length ≤ _ by
      omega)
  rw [hlen] at hsend
  exact hsend

lemma icmpEchoReply_fault (net : Net) (h : ¬LengthOk pkt) : icmpEchoReply stale net pkt = .error .outOfBounds := by
  have hcopy := copy_fault h stale.icmpPacket
  unfold copySize at hcopy
  unfold icmpEchoReply
  dsimp only
  rw [hcopy, error_bind]

/-- The structure `tcp_recv` has copied the packet into. -/
def tcpCopy (pkt : IpPkt n) : Arr ipDataLen :=
  stale.tcpPkt.splice 0 (pkt.data.slice 0 (totalLength pkt - ipHeaderLen))

/-- The segment `tcp_recv` hands to `tcp_process`. -/
def segmentOf (pkt : IpPkt n) (h : LengthOk pkt) : Segment where
  pkt := TcpPkt.ofArr (tcpCopy stale pkt)
  srcIp := jntohl pkt.hdr.ipSourceAddress
  len := (totalLength pkt - ipHeaderLen - tcpHeaderLen).toUInt16
  fits := by
    obtain ⟨h1, h2, -⟩ := h
    have hsz := sizes
    rw [toNat_toUInt16]
    omega

/-- The stack after `tcp_process`. -/
def afterTcp (r : Result Net) : Stack × ℤ := (⟨r.low, r.tab⟩, r.ret)

lemma tcpRecv_short (st : Stack) (h : ipHeaderLen ≤ totalLength pkt)
    (hs : totalLength pkt < ipHeaderLen + tcpHeaderLen) : tcpRecv stale st pkt = .ok (st, -1) := by
  have h1 := totalLength_lt pkt
  unfold tcpRecv
  rw [if_pos (by rw [sizeSub_of_le h]; omega)]

lemma tcpRecv_eq (st : Stack) (h : LengthOk pkt) (hs : ipHeaderLen + tcpHeaderLen ≤ totalLength pkt) :
    tcpRecv stale st pkt = (tcpProcess (tcpSend stale) st.net st.tcpVc (segmentOf stale pkt h).pkt
        (segmentOf stale pkt h).srcIp (segmentOf stale pkt h).len >>= fun r => .ok (afterTcp r)) := by
  obtain ⟨hle, hmax, hn⟩ := h
  have h1 := totalLength_lt pkt
  unfold tcpRecv
  rw [sizeSub_of_le hle, if_neg (by omega), memcpy_ok _ _, ok_bind, sizeSub_of_le]
  rfl

lemma tcpRecv_fault (st : Stack) (h : ¬LengthOk pkt)
    (hs : totalLength pkt < ipHeaderLen ∨ ipHeaderLen + tcpHeaderLen ≤ totalLength pkt) :
    tcpRecv stale st pkt = .error .outOfBounds := by
  have h1 := totalLength_lt pkt
  have hsz := sizes
  unfold LengthOk at h
  unfold tcpRecv
  by_cases hle : ipHeaderLen ≤ totalLength pkt
  · rw [sizeSub_of_le hle, if_neg (by omega), memcpy_fault _ _, error_bind]
  · rw [sizeSub_of_lt (not_le.mp hle) (by omega), if_neg (by omega), memcpy_fault _ _, error_bind]

def transportHeaderLen (protocol : UInt8) : ℕ :=
  if protocol = ipProtoTcp then tcpHeaderLen
  else if protocol = ipProtoUdp then udpHeaderLen
  else icmpHeaderLen

/-- `ip_recv` hands the packet to a handler. -/
structure Dispatched (pkt : IpPkt n) : Prop where
  verlen : pkt.hdr.ipVerlen = ipVerLen
  checksum : pkt.hdr.ipHeaderChecksum = ipChecksum { pkt.hdr with ipHeaderChecksum := 0 }.bytes
  protocol : pkt.hdr.ipProtocol = ipProtoTcp ∨ pkt.hdr.ipProtocol = ipProtoUdp ∨
    pkt.hdr.ipProtocol = ipProtoIcmp

lemma ipRecv_dispatched (st : Stack) (hd : Dispatched pkt) : ipRecv stale st pkt =
      if pkt.hdr.ipProtocol = ipProtoTcp then
        tcpRecv stale st { pkt with hdr := { pkt.hdr with ipHeaderChecksum := 0 } }
      else if pkt.hdr.ipProtocol = ipProtoUdp then
        withNet st (udpRecv stale st.net { pkt with hdr := { pkt.hdr with ipHeaderChecksum := 0 } })
      else
        withNet st (icmpEchoReply stale st.net
          { pkt with hdr := { pkt.hdr with ipHeaderChecksum := 0 } }) := by
  unfold ipRecv
  rw [if_neg (not_not.mpr hd.verlen)]
  rw [if_neg (not_not.mpr hd.checksum)]
  by_cases ht : pkt.hdr.ipProtocol = ipProtoTcp
  · rw [if_pos ht, if_pos ht]
  · rw [if_neg ht, if_neg ht]
    by_cases hu : pkt.hdr.ipProtocol = ipProtoUdp
    · rw [if_pos hu, if_pos hu]
    · rw [if_neg hu, if_neg hu, if_pos ((hd.protocol.resolve_left ht).resolve_left hu)]

lemma ipRecv_other (st : Stack) (hd : ¬Dispatched pkt) : ∃ z, ipRecv stale st pkt = .ok (st, z) := by
  unfold ipRecv
  by_cases hv : pkt.hdr.ipVerlen = ipVerLen
  · rw [if_neg (not_not.mpr hv)]
    by_cases hc : pkt.hdr.ipHeaderChecksum = ipChecksum { pkt.hdr with ipHeaderChecksum := 0 }.bytes
    · rw [if_neg (not_not.mpr hc), if_neg fun h => hd ⟨hv, hc, .inl h⟩,
        if_neg fun h => hd ⟨hv, hc, .inr (.inl h)⟩, if_neg fun h => hd ⟨hv, hc, .inr (.inr h)⟩]
      exact ⟨_, rfl⟩
    · rw [if_pos hc]
      exact ⟨_, rfl⟩
  · rw [if_pos hv]
    exact ⟨_, rfl⟩

lemma ipRecv_fault (st : Stack) (hd : Dispatched pkt)
    (h : ¬(LengthOk pkt ∧ (pkt.hdr.ipProtocol = ipProtoUdp → UdpLengthOk stale pkt))) (hn : tcpHeaderLen ≤ n) :
    ipRecv stale st pkt = .error .outOfBounds := by
  have hsz := sizes
  rw [ipRecv_dispatched stale st hd]
  split_ifs with ht hu
  · have hlen : ¬LengthOk pkt := fun hlen => h ⟨hlen, fun hu => absurd (ht.symm.trans hu) (by decide)⟩
    refine tcpRecv_fault stale st hlen (by_contra fun hmid => hlen ?_)
    -- a packet of a header or less is inside the buffer
    change ¬(totalLength pkt < ipHeaderLen ∨ ipHeaderLen + tcpHeaderLen ≤ totalLength pkt) at hmid
    exact ⟨by omega, by omega, by omega⟩
  · exact congrArg (withNet st) (udpRecv_fault stale st.net fun h' => h ⟨h'.1, fun _ => h'.2⟩)
  · exact congrArg (withNet st) (icmpEchoReply_fault stale st.net fun hlen => h ⟨hlen, fun hu' => absurd hu' hu⟩)

lemma arpReply_null (net : Net) {h : ArpHdr} (hmac : getMacByIp net.arpTable h.sourceIp = none) :
    arpReply stale net h = .error .nullPointer := by
  unfold arpReply
  dsimp only
  rw [show (arpAnswer h).targetIp = h.sourceIp from rfl, hmac]

def arpFrame (mac : Mac) (h : ArpHdr) : List UInt8 :=
  (⟨mac, getMyMac, jhtons ethTypeArp⟩ : EthHdr).bytes ++ (arpAnswer h).bytes

lemma arpReply_eq (net : Net) {h : ArpHdr} {mac : Mac} (hmac : getMacByIp net.arpTable h.sourceIp = some mac) :
    arpReply stale net h =
      .ok ((net.transmit (arpFrame mac h)).1, if (net.transmit (arpFrame mac h)).2 < 0 then -1 else 0) := by
  have hslice : (ofList arpHeaderLen (arpAnswer h).bytes).slice 0 arpHeaderLen = (arpAnswer h).bytes := by
    rw [slice_ofList _ (by omega) (by simp), drop_zero, take_of_length_le (by simp)]
  have hdst : ethDestination net { stale.replyHeader with
      ethDestinationMac := mac, ethType := jhtons ethTypeArp }
      (ofList arpHeaderLen (arpAnswer h).bytes) = .ok mac :=
    if_neg (show ¬jhtons ethTypeArp = jhtons ethTypeIp by decide)
  unfold arpReply
  dsimp only
  rw [show (arpAnswer h).targetIp = h.sourceIp from rfl, hmac]
  dsimp only
  rw [ethSend_eq stale net _ _ (by decide) (le_refl _) hdst, ok_bind, hslice, ← arpFrame]
  split <;> rfl

/-- The packet is of the types `arp_resolve` handles. -/
def ArpTypesOk (h : ArpHdr) : Prop :=
  (arpHost h).hardwareType = arpEthernet ∧ (arpHost h).protocolType = arpIpv4
  deriving Decidable

def learned (net : Net) (h : ArpHdr) : Net :=
  { net with arpTable := (updateArpTable net.arpTable (arpHost h)).1 }

lemma arpResolve_other (net : Net) {h : ArpHdr} (ht : ¬ArpTypesOk h) : arpResolve stale net h = .ok (net, -1) := by
  unfold arpResolve
  by_cases hw : (arpHost h).hardwareType = arpEthernet
  · rw [if_neg (not_not.mpr hw), if_pos fun hp => ht ⟨hw, hp⟩]
  · rw [if_pos hw]

lemma arpResolve_learned (net : Net) {h : ArpHdr} (ht : ArpTypesOk h) : arpResolve stale net h =
      if (arpHost h).targetIp = myIp ∧ (arpHost h).opcode = arpRequest then
        arpReply stale (learned net h) (arpHost h)
      else .ok (learned net h, -1) := by
  unfold arpResolve
  rw [if_neg (not_not.mpr ht.1), if_neg (not_not.mpr ht.2)]
  by_cases hm : (arpHost h).targetIp = myIp
  · rw [if_neg (not_not.mpr hm)]
    by_cases ho : (arpHost h).opcode = arpRequest
    · rw [if_neg (not_not.mpr ho), if_pos ⟨hm, ho⟩]
      rfl
    · rw [if_pos ho, if_neg fun h => ho h.2]
      rfl
  · rw [if_pos hm, if_neg fun h => hm h.1]
    rfl

end Jos.RecvSpec
