import Jos.TcpModel

/-!
The segment that is sent, and its checksum.

`tcp_send` sums a buffer in which the source port has been wiped out, and takes the port off
the complement of the sum with an ordinary 16-bit subtraction, without the end-around carry.
-/

namespace Jos.TcpChecksum

open CArray OnesSum Inet Packets ArpTable Ip TcpModel List Arr

def pseudoHeader (hdr : IpHdr) (tcpLength : ℕ) : List UInt8 :=
  le32 hdr.ipSourceAddress ++ le32 hdr.ipDestinationAddress ++ [0, ipProtoTcp] ++
    le16 (jhtons tcpLength.toUInt16)

def Verifies (p : IpPkt ipDataLen) (tcpLength : ℕ) : Prop :=
  rfcSum (pseudoHeader p.hdr tcpLength ++ p.data.slice 0 tcpLength) = 0xffff

def sumWithoutPort (channel : Channel) (pkt : TcpPkt) (length : ℕ) : ℕ :=
  rfcSum (pseudoHeader (sendIpHdr channel) (tcpHeaderLen + length) ++
    ({ sendHdr channel pkt.hdr with srcPort := 0 } : TcpHdr).bytes ++ pkt.data.slice 0 length)

def midBytes (h : TcpHdr) : List UInt8 :=
  le16 h.dstPort ++ le32 h.seqNum ++ le32 h.ackNum ++
    [UInt8.ofBitVec (h.dataOffset ++ h.reserved ++ h.ns), h.flags] ++ le16 h.winSize

@[simp] lemma length_midBytes (h : TcpHdr) : (midBytes h).length = 14 := by simp [midBytes]

lemma bytes_eq (h : TcpHdr) : h.bytes = le16 h.srcPort ++ (midBytes h ++ (le16 h.checksum ++ le16 h.urgent)) := by
  simp [TcpHdr.bytes, midBytes]

@[simp] lemma length_pseudoHeader (hdr : IpHdr) (l : ℕ) : (pseudoHeader hdr l).length = 12 := by
  simp [pseudoHeader]

variable {length : ℕ}

lemma toArr_slice_zero (p : TcpPkt) (h : length ≤ tcpDataLen) :
    p.toArr.slice 0 (tcpHeaderLen + length) = p.hdr.bytes ++ p.data.slice 0 length := by
  have hsz := sizes
  have hslice := slice_ofList_append p.hdr.bytes p.data
    (show p.hdr.bytes.length + length ≤ ipDataLen by rw [TcpHdr.length_bytes]; omega) h
  rwa [TcpHdr.length_bytes] at hslice

lemma toArr_slice_two (p : TcpPkt) (h : length ≤ tcpDataLen) : p.toArr.slice 2 (18 + length) =
      midBytes p.hdr ++ (le16 p.hdr.checksum ++ (le16 p.hdr.urgent ++ p.data.slice 0 length)) := by
  have hall := toArr_slice_zero p h
  rw [show tcpHeaderLen + length = 2 + (18 + length) by have hsz := sizes; omega,
    slice_add, bytes_eq, append_assoc] at hall
  have hdrop := (append_inj hall (by simp)).2
  rw [Nat.zero_add] at hdrop
  simpa using hdrop

lemma le32_toUInt32 (w : UInt16) : le32 w.toUInt32 = le16 w ++ [0, 0] := by
  have hlt := w.toNat_lt
  simp only [le32, le16, cons_append, nil_append, cons.injEq, and_true]
  refine ⟨?_, ?_, ?_, ?_⟩ <;> refine UInt8.toNat_inj.mp ?_ <;>
    simp [Nat.shiftRight_eq_div_pow] <;> omega

lemma checksumBuf_eq (channel : Channel) (p : TcpPkt) (h : length ≤ tcpDataLen) :
    checksumBuf channel p (tcpHeaderLen + length) =
      .ok (pseudoHeader (sendIpHdr channel) (tcpHeaderLen + length) ++ ([0, 0] ++
        (midBytes p.hdr ++ (le16 p.hdr.checksum ++ (le16 p.hdr.urgent ++ p.data.slice 0 length))))) := by
  have hsz := sizes
  obtain ⟨dl, hdl⟩ : ∃ dl, dl = tcpHeaderLen + length := ⟨_, rfl⟩
  obtain ⟨len32, hlen32⟩ : ∃ x, x = (jhtons dl.toUInt16).toUInt32 := ⟨_, rfl⟩
  rw [← hdl]
  unfold checksumBuf
  dsimp only
  rw [memcpy_ok _ _, ok_bind, write_ok _ (by simp), ok_bind,
    write_ok _ (by simp), ok_bind, write_ok _ (by simp), ok_bind, write_ok _ (by simp),
    ok_bind, ← hlen32, write_ok _ (by simp; omega), ok_bind, read_ok _]
  congr 1
  set b1 := (zero (ipDataLen + 12)).splice 12 (p.toArr.slice 0 dl) with hb1
  set b2 := b1.splice 0 (le32 (sendIpHdr channel).ipSourceAddress) with hb2
  set b3 := b2.splice 4 (le32 (sendIpHdr channel).ipDestinationAddress) with hb3
  set b4 := b3.splice 8 [0] with hb4
  set b5 := b4.splice 9 [(sendIpHdr channel).ipProtocol] with hb5
  set b6 := b5.splice 10 (le32 len32) with hb6
  -- each write extends the part of the buffer that is finished
  have r4 : b2.slice 0 4 = _ := slice_splice_append b1 0 _ (by simp)
  have r8 : b3.slice 0 8 = _ := slice_splice_append b2 4 _ (by simp)
  have r9 : b4.slice 0 9 = _ := slice_splice_append b3 8 _ (by simp)
  have r10 : b5.slice 0 10 = _ := slice_splice_append b4 9 _ (by simp)
  have r14 : b6.slice 0 14 = _ := slice_splice_append b5 10 _ (by simp; omega)
  -- and the rest is the packet from its third byte on
  have rest : b6.slice 14 (18 + length) = p.toArr.slice 2 (18 + length) := by
    rw [hb6, slice_splice_outside _ (by simp), hb5, slice_splice_outside _ (by simp), hb4,
      slice_splice_outside _ (by simp), hb3, slice_splice_outside _ (by simp), hb2,
      slice_splice_outside _ (by simp), hb1]
    refine slice_congr fun k hk => ?_
    rw [get_splice_inside _ (by omega) (by omega) (by simp; omega), getD_slice _ _ _ _]
    congr 1; omega
  rw [show dl + 12 = 14 + (18 + length) by omega, slice_add, Nat.zero_add, rest, r14, r10, r9,
    r8, r4, toArr_slice_two p h, hlen32, le32_toUInt32, pseudoHeader]
  simp [sendIpHdr]

/-- The checksum `tcp_send` puts into the segment. -/
def sendChecksum (channel : Channel) (pkt : TcpPkt) (length : ℕ) : UInt16 :=
  jhtons (jntohs (ipChecksum (pseudoHeader (sendIpHdr channel) (tcpHeaderLen + length) ++
    ({ sendHdr channel pkt.hdr with srcPort := 0 } : TcpHdr).bytes ++ pkt.data.slice 0 length)) -
      channel.hostSide.port)

/-- The packet `tcp_send` hands on. -/
def sentPkt (channel : Channel) (pkt : TcpPkt) (length : ℕ) : IpPkt ipDataLen :=
  ⟨sendIpHdr channel, (Arr.zero ipDataLen).splice 0
    (({ sendHdr channel pkt.hdr with checksum := sendChecksum channel pkt length } : TcpHdr).bytes
      ++ pkt.data.slice 0 length)⟩

lemma tcpSegment_eq (channel : Channel) (pkt : TcpPkt) (h : length ≤ tcpDataLen) :
    tcpSegment channel pkt length = .ok (sentPkt channel pkt length) := by
  have hsz := sizes
  have hbuf := checksumBuf_eq channel { pkt with hdr := sendHdr channel pkt.hdr } h
  have hbytes : pseudoHeader (sendIpHdr channel) (tcpHeaderLen + length) ++ ([0, 0] ++
      (midBytes (sendHdr channel pkt.hdr) ++ (le16 (sendHdr channel pkt.hdr).checksum ++
        (le16 (sendHdr channel pkt.hdr).urgent ++ pkt.data.slice 0 length)))) =
      pseudoHeader (sendIpHdr channel) (tcpHeaderLen + length) ++
        ({ sendHdr channel pkt.hdr with srcPort := 0 } : TcpHdr).bytes ++ pkt.data.slice 0 length := by
    have h0 : le16 0 = [0, 0] := by decide
    rw [bytes_eq, append_assoc, append_assoc, append_assoc, append_assoc, ← h0]
    rfl
  unfold tcpSegment
  dsimp only
  rw [hbuf, ok_bind, hbytes, memcpy_ok _ _, ok_bind, toArr_slice_zero _ h]
  rfl

lemma tcpSegment_slice (hdr : TcpHdr) (pkt : TcpPkt) (h : length ≤ tcpDataLen) :
    ((Arr.zero ipDataLen).splice 0 (hdr.bytes ++ pkt.data.slice 0 length)).slice 0
      (tcpHeaderLen + length) = hdr.bytes ++ pkt.data.slice 0 length := by
  have hsz := sizes
  have hsame := slice_splice_same (zero ipDataLen) 0 (hdr.bytes ++ pkt.data.slice 0 length) (by simp; omega)
  rwa [length_append, TcpHdr.length_bytes, length_slice] at hsame

def tcpFrame (packetId : UInt16) (mac : Mac) (channel : Channel) (pkt : TcpPkt) (length : ℕ) :
    List UInt8 :=
  ipFrame packetId mac (sentPkt channel pkt length) (tcpHeaderLen + length).toUInt16

lemma segmentLen_le (h : length ≤ tcpDataLen) : (tcpHeaderLen + length).toUInt16.toNat ≤ ipDataLen := by
  have hsz := sizes
  rw [toNat_toUInt16]
  omega

section

variable (stale : Stale) (net : Net) (channel : Channel) (pkt : TcpPkt) (h : length ≤ tcpDataLen)
include stale net channel pkt h

/-- **What `tcp_send` does**, once the address of the peer is known. -/
theorem tcpSend_eq {mac : Mac} (hmac : getMacByIp net.arpTable (jhtonl channel.guestSide.ip) = some mac) :
    tcpSend stale net channel pkt length =
      .ok (({ net with packetId := net.packetId + 1 } : Net).transmit
        (tcpFrame net.packetId mac channel pkt length)) := by
  rw [tcpSend, tcpSegment_eq channel pkt h, ok_bind]
  exact ipSend_eq stale net (sentPkt channel pkt length) (segmentLen_le h) hmac

lemma tcpSend_null (hmac : getMacByIp net.arpTable (jhtonl channel.guestSide.ip) = none) :
    tcpSend stale net channel pkt length = .error .nullPointer := by
  rw [tcpSend, tcpSegment_eq channel pkt h, ok_bind]
  exact ipSend_null stale net (sentPkt channel pkt length) (segmentLen_le h) hmac

end

lemma wordSum_le16 (w : UInt16) : wordSum (le16 w) = (jntohs w).toNat := by
  rw [← wordSum_le16_jhtons, jhtons_jntohs]

lemma wordSum_segment (hdr : IpHdr) (l : ℕ) (h : TcpHdr) (payload : List UInt8) :
    wordSum (pseudoHeader hdr l ++ h.bytes ++ payload) =
      wordSum (pseudoHeader hdr l) + wordSum (midBytes h) + wordSum (le16 h.urgent ++ payload) +
        (jntohs h.srcPort).toNat + (jntohs h.checksum).toNat := by
  rw [bytes_eq, append_assoc, wordSum_append (by simp; decide)]
  simp only [append_assoc]
  rw [wordSum_append (by simp), wordSum_append (by simp; decide), wordSum_append (by simp),
    wordSum_le16, wordSum_le16]
  omega

lemma wordSum_pseudoHeader_pos (hdr : IpHdr) (l : ℕ) : 0 < wordSum (pseudoHeader hdr l) := by
  unfold pseudoHeader
  rw [wordSum_append (by simp; decide), wordSum_append (by simp; decide)]
  have : wordSum [0, ipProtoTcp] = 6 := by decide
  omega

lemma rep_total_iff {w p c : ℕ} (hw : 0 < w) (hp : p ≤ 0xffff)
    (hc : c = (0xffff - rep 0xffff w + 0x10000 - p) % 0x10000) :
    rep 0xffff (w + p + c) = 0xffff ↔ rep 0xffff w + p ≤ 0xffff := by
  have hle := rep_le (M := 0xffff) (by norm_num) w
  have hpos := rep_pos (M := 0xffff) hw
  obtain ⟨k, hk⟩ : ∃ k, w = 0xffff * k + rep 0xffff w := by
    refine ⟨(w - 1) / 0xffff, ?_⟩
    rw [rep_of_pos hw]; omega
  rw [rep_eq_max_iff (by norm_num)]
  generalize rep 0xffff w = a at *
  constructor
  · rintro ⟨-, hd⟩
    omega
  · intro h
    exact ⟨by omega, by omega⟩

/-- **The checksum `tcp_send` computes verifies exactly when adding the source port to the sum of
the rest of the segment needs no end-around carry.** -/
theorem tcp_send_checksum_verifies_iff (channel : Channel) (pkt : TcpPkt) (length : ℕ)
    (h : length ≤ tcpDataLen) :
    (∃ r, tcpSegment channel pkt length = .ok r ∧ Verifies r (tcpHeaderLen + length)) ↔
      sumWithoutPort channel pkt length + channel.hostSide.port.toNat ≤ 0xffff := by
  obtain ⟨W, hW⟩ : ∃ W, W = wordSum (pseudoHeader (sendIpHdr channel) (tcpHeaderLen + length)) +
      wordSum (midBytes (sendHdr channel pkt.hdr)) +
      wordSum (le16 pkt.hdr.urgent ++ pkt.data.slice 0 length) := ⟨_, rfl⟩
  have hpos : 0 < W := by
    have := wordSum_pseudoHeader_pos (sendIpHdr channel) (tcpHeaderLen + length)
    omega
  have hport := channel.hostSide.port.toNat_lt
  -- the words without the port, which both the code and the condition add up
  have hrest : wordSum (pseudoHeader (sendIpHdr channel) (tcpHeaderLen + length) ++
      ({ sendHdr channel pkt.hdr with srcPort := 0 } : TcpHdr).bytes ++
        pkt.data.slice 0 length) = W := by
    have hm : midBytes { sendHdr channel pkt.hdr with srcPort := 0 } =
        midBytes (sendHdr channel pkt.hdr) := rfl
    have hu : (sendHdr channel pkt.hdr).urgent = pkt.hdr.urgent := rfl
    have hk : (sendHdr channel pkt.hdr).checksum = 0 := rfl
    have h0 : (jntohs 0).toNat = 0 := by decide
    rw [wordSum_segment, hm, hu, hk, h0, hW]
    omega
  have hsum : sumWithoutPort channel pkt length = rep 0xffff W := by
    rw [sumWithoutPort, rfcSum_eq, hrest]
  have hc : (jntohs (sendChecksum channel pkt length)).toNat =
      (0xffff - rep 0xffff W + 0x10000 - channel.hostSide.port.toNat) % 0x10000 := by
    have hle := rep_le (M := 0xffff) (by norm_num) W
    rw [sendChecksum, jntohs_jhtons, UInt16.toNat_sub, ipChecksum_toNat, hrest, Nat.add_comm 0xffff W,
      rep_add_self hpos]
    omega
  have hall : wordSum (pseudoHeader (sendIpHdr channel) (tcpHeaderLen + length) ++
      ({ sendHdr channel pkt.hdr with checksum := sendChecksum channel pkt length } : TcpHdr).bytes ++
        pkt.data.slice 0 length) =
      W + channel.hostSide.port.toNat + (jntohs (sendChecksum channel pkt length)).toNat := by
    have hp : jntohs (sendHdr channel pkt.hdr).srcPort = channel.hostSide.port := jntohs_jhtons _
    have hm : midBytes { sendHdr channel pkt.hdr with checksum := sendChecksum channel pkt length } =
        midBytes (sendHdr channel pkt.hdr) := rfl
    have hu : (sendHdr channel pkt.hdr).urgent = pkt.hdr.urgent := rfl
    rw [wordSum_segment, hm, hu, hp, hW]
  have htotal : ∀ r, tcpSegment channel pkt length = .ok r →
      (Verifies r (tcpHeaderLen + length) ↔ rep 0xffff W + channel.hostSide.port.toNat ≤ 0xffff) := by
    intro r hr
    rw [tcpSegment_eq channel pkt h] at hr
    cases hr
    rw [Verifies, sentPkt, tcpSegment_slice _ pkt h, ← append_assoc, rfcSum_eq, hall,
      rep_total_iff hpos (by omega) hc]
  rw [hsum]
  constructor
  · rintro ⟨r, hr, hv⟩
    exact (htotal r hr).mp hv
  · intro hle
    exact ⟨_, tcpSegment_eq channel pkt h, (htotal _ (tcpSegment_eq channel pkt h)).mpr hle⟩

/-- The answer to a SYN with sequence number `0` that comes from the default peer. -/
theorem tcp_send_checksum_verifies_syn_zero :
    ∃ r, tcpSegment { bootVc 0 with ackSeq := ⟨0, 1⟩ } (ackPkt thSyn) 0 = .ok r ∧
      Verifies r (tcpHeaderLen + 0) :=
  (tcp_send_checksum_verifies_iff _ _ 0 (by decide)).mpr (by decide)

/-- The answer to a SYN with sequence number `0x7038` from that peer: the sum without the port
is `0xffff`, and the checksum is off by one. -/
theorem tcp_send_checksum_wrong :
    ¬ ∀ (channel : Channel) (pkt : TcpPkt) (length : ℕ), length ≤ tcpDataLen →
      ∃ r, tcpSegment channel pkt length = .ok r ∧ Verifies r (tcpHeaderLen + length) := by
  intro h
  obtain ⟨r, hr, hv⟩ :=
    h { bootVc 0 with ackSeq := ⟨0x7038, 0x7039⟩ } (ackPkt thSyn) 0 (by decide)
  rw [tcpSegment_eq _ _ (by decide)] at hr
  cases hr
  rw [Verifies, sentPkt, tcpSegment_slice _ _ (by decide)] at hv
  revert hv
  decide +kernel

end Jos.TcpChecksum
