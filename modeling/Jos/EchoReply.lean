import Jos.HandlerSafety
import Jos.IpVerify

/-!
The answer to an echo request, and its checksum.

`icmp_echo_reply` does not compute the checksum of the reply: it adds the difference the type
makes to the one it has received, without the end-around carry.
-/

namespace Jos.EchoReply

open CArray OnesSum Inet Packets Ip Recv RecvSpec

variable {n : ℕ} (stale : Stale) (net : Net) {pkt : IpPkt n}

def message (pkt : IpPkt n) : List UInt8 := pkt.data.slice 0 (totalLength pkt - ipHeaderLen)

def msgChecksum (msg : List UInt8) : ℕ := (msg.getD 2 0).toNat * 256 + (msg.getD 3 0).toNat

/-- An echo request that has a header, fits in a packet and verifies. -/
structure IsRequest (pkt : IpPkt n) : Prop where
  header : ipHeaderLen + icmpHeaderLen ≤ totalLength pkt
  fits : totalLength pkt ≤ ipHeaderLen + (icmpHeaderLen + icmpDataLen)
  inside : totalLength pkt ≤ ipHeaderLen + n
  type : (message pkt).getD 0 0 = echoRequest
  code : (message pkt).getD 1 0 = 0
  verifies : rfcSum (message pkt) = 0xffff

lemma IsRequest.lengthOk (h : IsRequest pkt) : LengthOk pkt := by
  have hsz := sizes
  have := h.header
  have := h.fits
  exact ⟨by omega, by omega, h.inside⟩

lemma IsRequest.length_message (h : IsRequest pkt) : 8 ≤ (message pkt).length := by
  have hsz := sizes
  have := h.header
  rw [message, Arr.length_slice]
  omega

lemma icmpCopy_slice (h : LengthOk pkt) :
    (icmpCopy stale pkt).slice 0 (totalLength pkt - ipHeaderLen) = message pkt := by
  obtain ⟨h1, h2, h3⟩ := h
  have hslice := Arr.slice_splice_same stale.icmpPacket 0
    (pkt.data.slice 0 (totalLength pkt - ipHeaderLen)) (by rw [Arr.length_slice]; omega)
  rwa [Arr.length_slice] at hslice

lemma icmpCopy_get (h : LengthOk pkt) {k : ℕ} (hk : ipHeaderLen + k < totalLength pkt) :
    (icmpCopy stale pkt).get k = (message pkt).getD k 0 := by
  rw [← icmpCopy_slice stale h, Arr.getD_slice _ _ _ _, Nat.zero_add]

lemma echoBytes_cons (a b c d : UInt8) (t : List UInt8) :
    echoBytes (a :: b :: c :: d :: t) = echoReply :: b :: (c + 8) :: d :: t := by
  simp [echoBytes]

lemma rfcSum_echo_iff (c d : UInt8) (t : List UInt8) (h : rfcSum (echoRequest :: 0 :: c :: d :: t) = 0xffff) :
    rfcSum (echoReply :: 0 :: (c + 8) :: d :: t) = 0xffff ↔ c.toNat * 256 + d.toNat + 0x0800 < 0x10000 := by
  have hc : (c + 8).toNat = (c.toNat + 8) % 256 := UInt8.toNat_add c 8
  have hc' := c.toNat_lt
  have hd' := d.toNat_lt
  have hreq : echoRequest.toNat = 8 := rfl
  have hrep : echoReply.toNat = 0 := rfl
  rw [rfcSum_eq, rep_eq_max_iff (by norm_num)] at h ⊢
  simp only [wordSum, beWords, List.sum_cons, hc, hreq, hrep, UInt8.toNat_zero] at h ⊢
  obtain ⟨-, q, hq⟩ := h
  rcases Nat.lt_or_ge (c.toNat + 8) 256 with hlt | hge
  · rw [Nat.mod_eq_of_lt hlt]
    refine iff_of_true ⟨by omega, q, by omega⟩ (by omega)
  · refine iff_of_false ?_ (by omega)
    rintro ⟨-, r, hr⟩
    omega

lemma message_cons {msg : List UInt8} (h : 8 ≤ msg.length) :
    ∃ t, msg = msg.getD 0 0 :: msg.getD 1 0 :: msg.getD 2 0 :: msg.getD 3 0 :: t := by
  match msg, h with
  | a :: b :: c :: d :: t, _ => exact ⟨t, rfl⟩

lemma icmpEchoReply_echo (h : IsRequest pkt) :
    icmpEchoReply stale net pkt = reply net ipProtoIcmp (echoBytes (message pkt)) := by
  have hsz := sizes
  have hh := h.header
  rw [icmpEchoReply_eq stale net h.lengthOk, icmpCopy_get stale h.lengthOk (by omega),
    icmpCopy_get stale h.lengthOk (by omega), h.type, h.code, icmpCopy_slice stale h.lengthOk,
    if_neg (not_not.mpr rfl), if_neg (not_not.mpr rfl)]

/-- **The reply to an echo request** is the request with another type, and with a checksum that
verifies exactly when adding the difference to the old one needs no carry. -/
theorem echo_reply_verifies_iff (h : IsRequest pkt) :
    icmpEchoReply stale net pkt = reply net ipProtoIcmp (echoBytes (message pkt)) ∧
      (echoBytes (message pkt)).length = (message pkt).length ∧
      (echoBytes (message pkt)).getD 0 0 = echoReply ∧
      (echoBytes (message pkt)).getD 1 0 = 0 ∧
      (echoBytes (message pkt)).drop 4 = (message pkt).drop 4 ∧
      (rfcSum (echoBytes (message pkt)) = 0xffff ↔ msgChecksum (message pkt) + 0x0800 < 0x10000) := by
  refine ⟨icmpEchoReply_echo stale net h, length_echoBytes _, ?_⟩
  obtain ⟨t, ht⟩ := message_cons h.length_message
  have hver := h.verifies
  rw [h.type, h.code] at ht
  rw [ht] at hver
  have hiff := rfcSum_echo_iff _ _ _ hver
  rw [← echoBytes_cons echoRequest, ← ht] at hiff
  refine ⟨?_, ?_, ?_, hiff⟩ <;> rw [ht, echoBytes_cons] <;> rfl

def ping : IpPkt ipDataLen :=
  HandlerSafety.packet ipProtoIcmp 28 [8, 0, 0xf7, 0xff, 0, 0, 0, 0]

theorem echo_reply_verifies_ping :
    IsRequest ping ∧ icmpEchoReply (staleFill 0) (bootStack []).net ping =
      reply (bootStack []).net ipProtoIcmp (echoBytes (message ping)) ∧
      rfcSum (echoBytes (message ping)) = 0xffff := by
  have h : IsRequest ping := ⟨by decide, by decide, by decide, by decide, by decide, by decide⟩
  have he := echo_reply_verifies_iff (staleFill 0) (bootStack []).net h
  exact ⟨h, he.1, he.2.2.2.2.2.mpr (by decide)⟩

section

variable {net : Net} {mac : Mac} (hmac : ArpTable.getMacByIp net.arpTable (jhtonl hostIp) = some mac)
  (hfree : ¬ E1000.TxFull net.nic)
include hmac hfree

lemma reply_free (protocol : UInt8) (msg : List UInt8) :
    reply net protocol msg = .ok ({ net with
      packetId := net.packetId + 1
      nic := net.nic.accept (replyFrame net.packetId mac protocol msg) }, 0) := by
  rw [reply, hmac]
  exact congrArg _ (if_neg hfree)

lemma reply_injective {protocol : UInt8} {msg msg' : List UInt8}
    (h : reply net protocol msg = reply net protocol msg') : msg = msg' := by
  rw [reply_free hmac hfree, reply_free hmac hfree] at h
  have hacc := congrArg (fun x : Net × ℤ => x.1.nic.accepted) (Except.ok.inj h)
  have hframe : replyFrame net.packetId mac protocol msg = replyFrame net.packetId mac protocol msg' :=
    List.singleton_inj.mp (List.append_cancel_left hacc)
  have htail : ∀ x, (replyFrame net.packetId mac protocol x).drop (ethHeaderLen + ipHeaderLen) = x := by
    intro x
    rw [replyFrame, List.drop_left' (by simp)]
  rw [← htail msg, hframe, htail]

end

def pingCarry : IpPkt ipDataLen :=
  HandlerSafety.packet ipProtoIcmp 28 [8, 0, 0xf8, 0, 0, 0, 0xff, 0xfe]

theorem echo_reply_loses_carry :
    ¬ ∀ (stale : Stale) (net : Net) (pkt : IpPkt ipDataLen), IsRequest pkt →
      ∃ msg, icmpEchoReply stale net pkt = reply net ipProtoIcmp msg ∧ rfcSum msg = 0xffff := by
  intro hall
  have hr : IsRequest pingCarry := ⟨by decide, by decide, by decide, by decide, by decide, by decide⟩
  obtain ⟨msg, hmsg, hver⟩ := hall (staleFill 0) (bootStack []).net pingCarry hr
  have hsent : icmpEchoReply (staleFill 0) (bootStack []).net pingCarry =
      reply (bootStack []).net ipProtoIcmp (echoBytes (message pingCarry)) := icmpEchoReply_echo _ _ hr
  have hmac : ∃ mac, ArpTable.getMacByIp (bootStack []).net.arpTable (jhtonl hostIp) = some mac :=
    Option.isSome_iff_exists.mp (by decide)
  obtain ⟨mac, hmac⟩ := hmac
  have heq := reply_injective hmac (by decide) (hsent.symm.trans hmsg)
  rw [← heq] at hver
  exact absurd hver (by decide)

end Jos.EchoReply
