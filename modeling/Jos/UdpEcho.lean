import Jos.EchoReply

/-!
The datagram `udp_recv` sends back.

The length of the payload is the one of the datagram's own header, less eight. Nothing compares
it with what has been received: below eight it wraps, and above what has been received the echo
goes on with what lay in the structure before.
-/

namespace Jos.UdpEcho

open CArray Inet Packets ArpTable Ip Recv RecvSpec List

variable {n : ℕ} (stale : Stale) (net : Net) {pkt : IpPkt n}

def WholeDatagram (pkt : IpPkt n) : Prop :=
  LengthOk pkt ∧ udpHeaderLen ≤ datagramLength pkt ∧ datagramLength pkt ≤ totalLength pkt - ipHeaderLen
  deriving Decidable

def payload (pkt : IpPkt n) : List UInt8 :=
  pkt.data.slice udpHeaderLen (datagramLength pkt - udpHeaderLen)

def number16 (frame : List UInt8) (off : ℕ) : ℕ :=
  (frame.getD off 0).toNat * 256 + (frame.getD (off + 1) 0).toNat

structure CarriesDatagram (frame data : List UInt8) : Prop where
  total : number16 frame (ethHeaderLen + 2) = ipHeaderLen + udpHeaderLen + data.length
  length : number16 frame (ethHeaderLen + ipHeaderLen + 4) = udpHeaderLen + data.length
  data : frame.drop (ethHeaderLen + ipHeaderLen + udpHeaderLen) = data

/-- **The echo is right**: a whole datagram comes back with its payload, and any other is dropped. -/
def EchoesRight (pkt : IpPkt n) : Prop :=
  if WholeDatagram pkt then
    ∃ frame, CarriesDatagram frame (payload pkt) ∧ udpRecv stale net pkt =
      .ok ((({ net with packetId := net.packetId + 1 } : Net).transmit frame).1, 0)
  else ∃ z, udpRecv stale net pkt = .ok (net, z)

lemma number16_le16 {u v : List UInt8} {off : ℕ} (hu : u.length = off) (w : UInt16) :
    number16 (u ++ (le16 (jhtons w) ++ v)) off = w.toNat := by
  subst hu
  have h := jntohs_of16_toNat (w >>> 8).toUInt8 w.toUInt8
  rw [← jhtons_of16, of16_bytes, jntohs_jhtons] at h
  rw [number16, le16_jhtons, getD_append_right _ _ _ _ le_rfl,
    getD_append_right _ _ _ _ (Nat.le_add_right _ _), Nat.sub_self, Nat.add_sub_cancel_left, h]
  rfl

lemma toNat_total {l : ℕ} (h : l ≤ ipDataLen) : (l.toUInt16 + ipHeaderLen.toUInt16).toNat = l + ipHeaderLen := by
  have hsz := sizes
  rw [UInt16.toNat_add, toNat_toUInt16, toNat_toUInt16, Nat.mod_eq_of_lt (by omega)]

lemma carries_replyFrame (packetId : UInt16) (mac : Mac) {data : List UInt8} (h : data.length ≤ udpDataLength) :
    CarriesDatagram (replyFrame packetId mac ipProtoUdp (udpBytes data)) data := by
  have hsz := sizes
  have hl := length_udpBytes data
  refine ⟨?_, ?_, ?_⟩
  · rw [replyFrame, IpHdr.bytes, ipSendHdr]
    simp only [append_assoc]
    rw [← append_assoc, number16_le16 (by simp), toNat_total (by omega)]
    omega
  · rw [replyFrame, udpBytes, UdpHdr.bytes]
    simp only [append_assoc]
    rw [← append_assoc _ (le16 _), ← append_assoc _ (le16 _), ← append_assoc,
      number16_le16 (by simp; omega), toNat_toUInt16]
    omega
  · rw [replyFrame, udpBytes, ← append_assoc, drop_left' (by simp; omega)]

section

variable (h : WholeDatagram pkt)
include h

lemma WholeDatagram.udpLength_eq : udpLength stale pkt = datagramLength pkt := by
  obtain ⟨⟨h1, h2, -⟩, h3, h4⟩ := h
  have hsz := sizes
  exact RecvSpec.udpLength_eq stale (by omega) h2

lemma WholeDatagram.copy_slice :
    (udpCopy stale pkt).slice udpHeaderLen (datagramLength pkt - udpHeaderLen) = payload pkt := by
  obtain ⟨⟨h1, h2, -⟩, h3, h4⟩ := h
  refine Arr.slice_congr fun k hk => ?_
  rw [udpCopy, Arr.get_splice_inside _ (by omega) (by omega) (by simp; omega), Arr.getD_slice _ _ _ _]
  congr 1
  omega

lemma WholeDatagram.length_payload : (payload pkt).length ≤ udpDataLength := by
  obtain ⟨⟨h1, h2, -⟩, h3, h4⟩ := h
  have hsz := sizes
  rw [payload, Arr.length_slice]
  omega

lemma WholeDatagram.udpRecv : udpRecv stale net pkt =
      (reply net ipProtoUdp (udpBytes (payload pkt)) >>= fun r => .ok (r.1, 0)) := by
  have hl : UdpLengthOk stale pkt := by
    rw [UdpLengthOk, h.udpLength_eq]
    obtain ⟨⟨h1, h2, -⟩, h3, h4⟩ := h
    omega
  rw [udpRecv_eq stale net h.1 hl, h.udpLength_eq, h.copy_slice]

end

lemma reply_ne_ok (protocol : UInt8) (data : List UInt8) (z : ℤ) :
    (reply net protocol data >>= fun r => .ok (r.1, 0)) ≠ .ok (net, z) := by
  intro h
  unfold reply at h
  split at h
  · cases h
  · rw [ok_bind] at h
    have hid := congrArg (fun x : Net × ℤ => x.1.packetId) (Except.ok.inj h)
    have hkeep : ∀ (net : Net) (frame : List UInt8), (net.transmit frame).1.packetId = net.packetId := by
      intro net frame
      unfold Net.transmit
      split <;> rfl
    simp [hkeep] at hid

/-- **`udp_recv` echoes right exactly the whole datagrams**, once the address of the host is known. -/
theorem udp_echo_right_iff (pkt : IpPkt n) :
    EchoesRight stale net pkt ↔
      WholeDatagram pkt ∧ (getMacByIp net.arpTable (jhtonl hostIp)).isSome := by
  unfold EchoesRight
  split
  · rename_i h
    rw [h.udpRecv]
    cases hmac : getMacByIp net.arpTable (jhtonl hostIp) with
    | none =>
      refine iff_of_false ?_ (by simp)
      rintro ⟨frame, -, hr⟩
      rw [reply, hmac] at hr
      cases hr
    | some mac =>
      refine iff_of_true ⟨_, carries_replyFrame net.packetId mac h.length_payload, ?_⟩ ⟨h, rfl⟩
      rw [reply, hmac, ok_bind]
  · rename_i h
    refine iff_of_false ?_ fun hw => h hw.1
    rintro ⟨z, hr⟩
    by_cases hok : LengthOk pkt ∧ UdpLengthOk stale pkt
    · rw [udpRecv_eq stale net hok.1 hok.2] at hr
      exact reply_ne_ok net _ _ z hr
    · rw [udpRecv_fault stale net hok] at hr
      cases hr

def greeting : IpPkt ipDataLen :=
  HandlerSafety.packet ipProtoUdp 30 [0x04, 0xd2, 0x1f, 0x91, 0, 10, 0, 0, 104, 105]

theorem udp_echo_right_greeting :
    EchoesRight (staleFill 0) (bootStack []).net greeting :=
  (udp_echo_right_iff (staleFill 0) (bootStack []).net greeting).mpr ⟨by decide, by decide⟩

def overlong : IpPkt ipDataLen :=
  HandlerSafety.packet ipProtoUdp 30 [0x04, 0xd2, 0x1f, 0x91, 0, 20, 0, 0, 104, 105]

theorem udp_echo_overlong :
    ¬ ∀ (stale : Stale) (net : Net) (pkt : IpPkt ipDataLen), EchoesRight stale net pkt := by
  intro hall
  have h := hall (staleFill 0) (bootStack []).net overlong
  rw [EchoesRight, if_neg (by decide)] at h
  obtain ⟨z, hz⟩ := h
  rw [udpRecv_eq _ _ ⟨by decide, by decide, by decide⟩ ⟨by decide, by decide⟩] at hz
  exact reply_ne_ok _ _ _ z hz

end Jos.UdpEcho
