import Jos.HttpPrefix
import Jos.Response
import Jos.TcpInv

/-!
Packets that determine their answer.

Only the first `n` bytes of a packet have come with the frame; what follows them in the buffer,
and what a handler finds in its structure, is left over from earlier. What decides are the lengths:
the one the packet claims, the one of the datagram, and for a request to the HTTP server whether the
bytes that have come decide the status of the reply.
-/

namespace Jos.Determined

open CArray Inet Packets ArpTable Http HttpPrefix Ip TcpModel
  TcpChecksum TcpStep TcpInv Recv RecvSpec Response List Nat Option Arr

variable {m n : ℕ}

structure Agree (n : ℕ) (pkt pkt' : IpPkt m) : Prop where
  hdr : pkt.hdr = pkt'.hdr
  data : ∀ i, ipHeaderLen + i < n → pkt.data.get i = pkt'.data.get i

/-- **The first `n` bytes of the packet determine the answer.** -/
def Determines (answer : Stale → Shared → IpPkt m → Option (List UInt8)) (k : Shared) (n : ℕ)
    (pkt : IpPkt m) : Prop :=
  ∀ stale stale' pkt', Agree n pkt pkt' → answer stale k pkt = answer stale' k pkt'

def EchoContained (pkt : IpPkt m) (n : ℕ) : Prop :=
  ipHeaderLen + 1 ≤ totalLength pkt ∧ pkt.data.get 0 ≠ echoRequest ∨
    ipHeaderLen + 2 ≤ totalLength pkt ∧ (pkt.data.get 1 ≠ 0 ∨ totalLength pkt ≤ n)

/-- A datagram lies within the packet and within the bytes that have come, or `udp_recv` cannot
take its length. -/
def DatagramContained (pkt : IpPkt m) (n : ℕ) : Prop :=
  ipHeaderLen + 5 ≤ totalLength pkt ∧ ipDataLen < 256 * (pkt.data.get 4).toNat ∨
    ipHeaderLen + 6 ≤ totalLength pkt ∧
      (datagramLength pkt ≤ udpHeaderLen ∨ ipDataLen < datagramLength pkt ∨
        ipHeaderLen + datagramLength pkt ≤ totalLength pkt ∧ ipHeaderLen + datagramLength pkt ≤ n)

/-- The length field of a datagram is one that `udp_recv` can take, also if its low byte is left over. -/
def DatagramBounded (pkt : IpPkt m) (n : ℕ) : Prop :=
  ipHeaderLen + udpHeaderLen ≤ n ∧
    (ipHeaderLen + 6 ≤ totalLength pkt ∧ udpHeaderLen ≤ datagramLength pkt ∧ datagramLength pkt ≤ ipDataLen ∨
      totalLength pkt = ipHeaderLen + 5 ∧ 1 ≤ (pkt.data.get 4).toNat ∧ (pkt.data.get 4).toNat ≤ 4)

/-- A segment that pushes data to the HTTP server, to a peer whose address is known. -/
structure Pushes (k : Shared) (g : Segment) (i : Fin 64) : Prop where
  found : matchTcpVc k.tcpVc g.pkt = some i
  state : (k.tcpVc i).state = .established
  accepted : Accepted (k.tcpVc i) g
  fits : Fits (k.tcpVc i) g
  push : hasFlag g.pkt thPsh
  mac : (getMacByIp k.arpTable (jhtonl (k.tcpVc i).guestSide.ip)).isSome

/-- A segment lies within the bytes that have come, or it is not for the HTTP server, or the request is
decided. -/
def SegmentContained (k : Shared) (pkt : IpPkt m) (h : LengthOk pkt) (n : ℕ) : Prop :=
  totalLength pkt < ipHeaderLen + tcpHeaderLen ∨ totalLength pkt ≤ n ∨
    ∀ i, Pushes k (segmentOf (staleFill 0) pkt h) i →
      let q := (k.tcpVc i).dataLen.toNat + (n - (ipHeaderLen + tcpHeaderLen))
      httpMethod.length ≤ q ∧
        Decided (kept (k.tcpVc i) (segmentOf (staleFill 0) pkt h)).buffer q
          (kept (k.tcpVc i) (segmentOf (staleFill 0) pkt h)).dataLen.toNat

/-- What the packet says lies within the bytes that have come. -/
def PacketContained (k : Shared) (pkt : IpPkt m) (n : ℕ) : Prop :=
  Dispatched pkt → ∀ h : LengthOk pkt,
    ipHeaderLen + transportHeaderLen pkt.hdr.ipProtocol ≤ n ∧
      if pkt.hdr.ipProtocol = ipProtoTcp then SegmentContained k pkt h n
      else (getMacByIp k.arpTable (jhtonl hostIp)).isSome →
        if pkt.hdr.ipProtocol = ipProtoUdp then DatagramContained pkt n else EchoContained pkt n

variable {stale stale' : Stale} {k : Shared} {pkt pkt' : IpPkt m}

lemma Agree.refl (n : ℕ) (pkt : IpPkt m) : Agree n pkt pkt := ⟨rfl, fun _ _ => rfl⟩

lemma Agree.totalLength (h : Agree n pkt pkt') : totalLength pkt = totalLength pkt' := by
  rw [Recv.totalLength, h.hdr, Recv.totalLength]

lemma Agree.lengthOk (h : Agree n pkt pkt') : LengthOk pkt ↔ LengthOk pkt' := by
  rw [LengthOk, LengthOk, h.totalLength]

lemma agree_set {i : ℕ} (h : n ≤ ipHeaderLen + i) (b : UInt8) :
    Agree n pkt { pkt with data := pkt.data.splice i [b] } :=
  ⟨rfl, fun j hj => (get_splice_outside _ (.inl (by omega))).symm⟩

lemma get_set_self (a : Arr m) {i : ℕ} (h : i < m) (b : UInt8) : (a.splice i [b]).get i = b := by
  rw [get_splice_inside _ h (le_refl i) (by simp)]
  simp

lemma add_one_ne (b : UInt8) : b + 1 ≠ b := by
  simp

lemma get_copy (a : Arr ipDataLen) (h : LengthOk pkt) {j : ℕ} (hj : j < totalLength pkt - ipHeaderLen := by omega) :
    (a.splice 0 (pkt.data.slice 0 (totalLength pkt - ipHeaderLen))).get j = pkt.data.get j := by
  have hmax := h.2.1
  rw [get_splice_inside _ (by omega) (Nat.zero_le j) (by simpa using hj), Nat.sub_zero,
    getD_slice _ _ _ _ hj, zero_add]

lemma get_copy_rest (a : Arr ipDataLen) {j : ℕ} (hj : totalLength pkt - ipHeaderLen ≤ j := by omega) :
    (a.splice 0 (pkt.data.slice 0 (totalLength pkt - ipHeaderLen))).get j = a.get j :=
  get_splice_outside _ (.inr (by simpa using hj))

lemma replyFrame_injective (packetId : UInt16) (mac : Mac) (protocol : UInt8) :
    Function.Injective (replyFrame packetId mac protocol) := fun p p' h =>
  (append_inj h (by simp)).2

section

variable (hmac : (getMacByIp k.arpTable (jhtonl hostIp)).isSome) (protocol : UInt8)
include hmac protocol

lemma replyTo_injective : Function.Injective (replyTo k protocol) := by
  obtain ⟨mac, hmac⟩ := isSome_iff_exists.mp hmac
  intro p p' h
  unfold replyTo at h
  rw [hmac] at h
  exact replyFrame_injective _ _ _ (some.inj h)

lemma replyTo_ne_none (payload : List UInt8) : replyTo k protocol payload ≠ none := by
  unfold replyTo
  simpa [isSome_iff_ne_none] using hmac

end

lemma getElem?_echoBytes (msg : List UInt8) {i : ℕ} (h : 3 ≤ i) : (echoBytes msg)[i]? = msg[i]? := by
  rw [echoBytes, getElem?_modify, getElem?_set_ne (by omega)]
  simp [show 2 ≠ i by omega]

lemma icmp_determined (h : LengthOk pkt) (hn : ipHeaderLen + icmpHeaderLen ≤ n)
    (hc : EchoContained pkt n) : Determines icmpAnswer k n pkt := by
  intro stale stale' pkt' hag
  have hsz := sizes
  have h' := hag.lengthOk.mp h
  have hT := hag.totalLength
  have hcopy : ∀ {j}, j < totalLength pkt - ipHeaderLen → ipHeaderLen + j < n →
      (icmpCopy stale pkt).get j = (icmpCopy stale' pkt').get j := by
    intro j hj hjn
    rw [icmpCopy, icmpCopy, get_copy _ h hj, get_copy _ h', hag.data j hjn]
  unfold icmpAnswer
  rcases hc with ⟨hlen, ht⟩ | ⟨hlen, hcode | hle⟩
  · have hget : (icmpCopy stale pkt).get 0 = pkt.data.get 0 := get_copy _ h
    have hsame := hcopy (j := 0) (by omega) (by omega)
    rw [if_neg fun hq => ht (hget.symm.trans hq.2.1), if_neg fun hq => ht (hget.symm.trans (hsame.trans hq.2.1))]
  · have hget : (icmpCopy stale pkt).get 1 = pkt.data.get 1 := get_copy _ h
    have hsame := hcopy (j := 1) (by omega) (by omega)
    rw [if_neg fun hq => hcode (hget.symm.trans hq.2.2),
      if_neg fun hq => hcode (hget.symm.trans (hsame.trans hq.2.2))]
  · have hslice : (icmpCopy stale pkt).slice 0 (totalLength pkt - ipHeaderLen) =
        (icmpCopy stale' pkt').slice 0 (totalLength pkt' - ipHeaderLen) := by
      rw [← hT]
      exact slice_congr fun j hj => hcopy (by omega) (by omega)
    rw [hslice, hcopy (j := 0) (by omega) (by omega), hcopy (j := 1) (by omega) (by omega)]
    simp only [h, h']

def staleEcho (code : UInt8) : Stale :=
  { staleFill 0 with icmpPacket := Arr.ofList _ [echoRequest, code] }

example : (staleEcho 3).icmpPacket.get 1 = 3 := by decide +kernel

lemma icmpAnswer_staleEcho (h : LengthOk pkt) (ht : ipHeaderLen + 1 ≤ totalLength pkt → pkt.data.get 0 = echoRequest)
    (hcode : ipHeaderLen + 2 ≤ totalLength pkt → pkt.data.get 1 = 0) :
    icmpAnswer (staleEcho 0) k pkt = replyTo k ipProtoIcmp (echoBytes
      ((icmpCopy (staleEcho 0) pkt).slice 0 (totalLength pkt - ipHeaderLen))) := by
  refine if_pos ⟨h, ?_, ?_⟩
  · by_cases hlen : ipHeaderLen + 1 ≤ totalLength pkt
    · exact (get_copy _ h).trans (ht hlen)
    · exact (get_copy_rest _).trans rfl
  · by_cases hlen : ipHeaderLen + 2 ≤ totalLength pkt
    · exact (get_copy _ h).trans (hcode hlen)
    · exact (get_copy_rest _).trans rfl

lemma echoContained_of_determines (h : LengthOk pkt)
    (hmac : (getMacByIp k.arpTable (jhtonl hostIp)).isSome) (hn : ipHeaderLen + icmpHeaderLen ≤ n)
    (hd : Determines icmpAnswer k n pkt) : EchoContained pkt n := by
  have hsz := sizes
  by_contra hc
  obtain ⟨ht, hcode⟩ := not_or.mp hc
  have ht' : ipHeaderLen + 1 ≤ totalLength pkt → pkt.data.get 0 = echoRequest :=
    fun hlen => not_not.mp fun hne => ht ⟨hlen, hne⟩
  have hcode' : ipHeaderLen + 2 ≤ totalLength pkt → pkt.data.get 1 = 0 :=
    fun hlen => not_not.mp fun hne => hcode ⟨hlen, .inl hne⟩
  have hans := icmpAnswer_staleEcho (k := k) h ht' hcode'
  by_cases hlen : ipHeaderLen + 2 ≤ totalLength pkt
  · -- the request goes on behind the bytes that have come: change the next one
    have hmax := h.2.2
    have hag : Agree n pkt _ := agree_set (i := n - ipHeaderLen) (by omega) (pkt.data.get (n - ipHeaderLen) + 1)
    have h' := hag.lengthOk.mp h
    have hans' := icmpAnswer_staleEcho (k := k) h' (fun _ => (hag.data 0 (by omega)).symm.trans (ht' (by omega)))
      (fun _ => (hag.data 1 (by omega)).symm.trans (hcode' hlen))
    have hsame := hd (staleEcho 0) (staleEcho 0) _ hag
    rw [hans, hans'] at hsame
    have hbytes := congrArg (·[n - ipHeaderLen]?) (replyTo_injective hmac _ hsame)
    simp only [getElem?_echoBytes _ (show 3 ≤ n - ipHeaderLen by omega)] at hbytes
    rw [getElem?_slice _ _ (by omega), getElem?_slice _ _ (by rw [← hag.totalLength]; omega),
      zero_add, icmpCopy, icmpCopy, get_copy _ h,
      get_copy _ h' (by rw [← hag.totalLength]; omega), get_set_self _ (by omega)] at hbytes
    exact add_one_ne _ (some.inj hbytes).symm
  · have hnone : icmpAnswer (staleEcho 1) k pkt = none := by
      refine if_neg fun hq => ?_
      have hget : (icmpCopy (staleEcho 1) pkt).get 1 = 1 := (get_copy_rest _).trans rfl
      exact absurd (hget.symm.trans hq.2.2) (by decide)
    have hsame := hd (staleEcho 0) (staleEcho 1) pkt (Agree.refl n pkt)
    rw [hans, hnone] at hsame
    exact replyTo_ne_none hmac _ _ hsame

lemma udpBytes_injective : Function.Injective udpBytes := fun d d' h =>
  (append_inj h (by simp)).2

lemma udpLength_bytes (stale : Stale) (pkt : IpPkt m) : udpLength stale pkt =
      256 * ((udpCopy stale pkt).get 4).toNat + ((udpCopy stale pkt).get 5).toNat := by
  rw [udpLength, get16, jntohs_of16_toNat, mul_comm]

lemma Agree.datagramLength (h : Agree n pkt pkt') (hn : ipHeaderLen + udpHeaderLen ≤ n) :
    datagramLength pkt = datagramLength pkt' := by
  have hsz := sizes
  rw [RecvSpec.datagramLength, RecvSpec.datagramLength, get16_congr fun i hi => h.data i (by omega)]

lemma udp_determined (h : LengthOk pkt) (hn : ipHeaderLen + udpHeaderLen ≤ n)
    (hc : DatagramContained pkt n) : Determines udpAnswer k n pkt := by
  intro stale stale' pkt' hag
  have hsz := sizes
  have h' := hag.lengthOk.mp h
  have hT := hag.totalLength
  have hmax := h.2.1
  unfold udpAnswer
  rcases hc with ⟨hlen, hbig⟩ | ⟨hlen, hc⟩
  · -- the high byte alone makes the length too large
    have hget : (udpCopy stale pkt).get 4 = pkt.data.get 4 := get_copy _ h
    have hget' : (udpCopy stale' pkt').get 4 = pkt.data.get 4 := (get_copy _ h').trans (hag.data 4 (by omega)).symm
    have hno : ∀ (s : Stale) (p : IpPkt m), (udpCopy s p).get 4 = pkt.data.get 4 →
        ¬(LengthOk p ∧ UdpLengthOk s p) := by
      intro s p hp hq
      have hle := hq.2.2
      rw [udpLength_bytes, hp] at hle
      omega
    rw [if_neg (hno _ _ hget), if_neg (hno _ _ hget')]
  · have hL : udpLength stale pkt = datagramLength pkt := udpLength_eq stale (by omega) hmax
    have hL' : udpLength stale' pkt' = datagramLength pkt := by
      rw [udpLength_eq stale', hag.datagramLength hn]
    have hok : (LengthOk pkt ∧ UdpLengthOk stale pkt) ↔ (LengthOk pkt' ∧ UdpLengthOk stale' pkt') := by
      simp only [h, h', UdpLengthOk, hL, hL']
    by_cases hq : LengthOk pkt ∧ UdpLengthOk stale pkt
    · rw [if_pos hq, if_pos (hok.mp hq), hL, hL']
      have hle := hq.2.2
      refine congrArg (fun d => replyTo k ipProtoUdp (udpBytes d)) (slice_congr fun j hj => ?_)
      rw [udpCopy, udpCopy, get_copy _ h, get_copy _ h', hag.data _ (by omega)]
    · rw [if_neg hq, if_neg fun hq' => hq (hok.mpr hq')]

def staleLength (b : UInt8) : Stale := { staleFill 0 with upkt := Arr.ofList _ [0, 0, 0, 0, 0, b] }

example : (staleLength 9).upkt.get 5 = 9 := by decide +kernel

lemma DatagramBounded.udpLengthOk (hb : DatagramBounded pkt n) (h : LengthOk pkt) (hag : Agree n pkt pkt')
    (stale : Stale) : UdpLengthOk stale pkt' := by
  have hsz := sizes
  have hT := hag.totalLength
  have h' := hag.lengthOk.mp h
  have hmax := h'.2.1
  obtain ⟨hn, ⟨hlen, hmin, hle⟩ | ⟨hlen, hmin, hle⟩⟩ := hb
  · rw [UdpLengthOk, udpLength_eq stale, ← hag.datagramLength hn]
    exact ⟨hmin, hle⟩
  · have h4 : (udpCopy stale pkt').get 4 = pkt.data.get 4 := (get_copy _ h').trans (hag.data 4 (by omega)).symm
    have h5 := ((udpCopy stale pkt').get 5).toNat_lt
    rw [UdpLengthOk, udpLength_bytes, h4]
    omega

lemma datagramBounded_of_udpLengthOk (h : LengthOk pkt) (hn : ipHeaderLen + udpHeaderLen ≤ n)
    (hok : ∀ stale, UdpLengthOk stale pkt) : DatagramBounded pkt n := by
  have hsz := sizes
  have hmax := h.2.1
  refine ⟨hn, ?_⟩
  by_cases hlen : ipHeaderLen + 6 ≤ totalLength pkt
  · have hfirst := hok (staleFill 0)
    rw [UdpLengthOk, udpLength_eq _] at hfirst
    exact .inl ⟨hlen, hfirst⟩
  -- the low byte is the one of the structure
  have h5 : ∀ b, (udpCopy (staleLength b) pkt).get 5 = b := fun b => get_copy_rest _
  have hlow := (hok (staleLength 0)).1
  have hhigh := (hok (staleLength 255)).2
  rw [udpLength_bytes, h5] at hlow hhigh
  have h255 : (255 : UInt8).toNat = 255 := rfl
  have h0 : (0 : UInt8).toNat = 0 := rfl
  by_cases hlen' : totalLength pkt = ipHeaderLen + 5
  · have h4 : ∀ b, (udpCopy (staleLength b) pkt).get 4 = pkt.data.get 4 := fun b => get_copy _ h
    rw [h4] at hlow hhigh
    exact .inr ⟨hlen', by omega, by omega⟩
  · have h4 : (udpCopy (staleLength 0) pkt).get 4 = 0 := get_copy_rest _
    rw [h4] at hlow
    omega

section

variable (h : LengthOk pkt) (hmac : (getMacByIp k.arpTable (jhtonl hostIp)).isSome)
include h hmac

/-- The length is the sender's, and one `udp_recv` can take: then the last byte of the datagram
has come with the frame. -/
lemma datagram_within (hn : ipHeaderLen + udpHeaderLen ≤ n) (hd : Determines udpAnswer k n pkt)
    (hlen : ipHeaderLen + 6 ≤ totalLength pkt) (hpos : udpHeaderLen < datagramLength pkt)
    (hle : datagramLength pkt ≤ ipDataLen) :
    ipHeaderLen + datagramLength pkt ≤ totalLength pkt ∧ ipHeaderLen + datagramLength pkt ≤ n := by
  have hmax := h.2.1
  have hm := h.2.2
  have hans : ∀ (s : Stale) (p : IpPkt m), Agree n pkt p → udpAnswer s k p =
      replyTo k ipProtoUdp (udpBytes ((udpCopy s p).slice udpHeaderLen (datagramLength pkt - udpHeaderLen))) := by
    intro s p hag
    have hT := hag.totalLength
    have hL : udpLength s p = datagramLength pkt := by
      rw [udpLength_eq s, hag.datagramLength hn]
    unfold udpAnswer
    rw [if_pos ⟨hag.lengthOk.mp h, by unfold UdpLengthOk; omega⟩, hL]
  have hlast : ∀ (s s' : Stale) (p : IpPkt m), Agree n pkt p →
      (udpCopy s pkt).get (datagramLength pkt - 1) = (udpCopy s' p).get (datagramLength pkt - 1) := by
    intro s s' p hag
    have hsame := hd s s' p hag
    rw [hans s pkt (Agree.refl n pkt), hans s' p hag] at hsame
    have hbytes := congrArg (·[datagramLength pkt - udpHeaderLen - 1]?)
      (udpBytes_injective (replyTo_injective hmac _ hsame))
    rw [getElem?_slice _ _ (by omega), getElem?_slice _ _ (by omega),
      show udpHeaderLen + (datagramLength pkt - udpHeaderLen - 1) = datagramLength pkt - 1 by
        omega] at hbytes
    exact some.inj hbytes
  -- the byte is neither left over in the structure nor in the buffer
  have hin : ipHeaderLen + datagramLength pkt ≤ totalLength pkt := by
    by_contra hshort
    have hl := hlast (staleFill 0) (staleFill 1) pkt (Agree.refl n pkt)
    rw [udpCopy, udpCopy, get_copy_rest _, get_copy_rest _, get_of_lt _ (by omega), get_of_lt _ (by omega)] at hl
    exact absurd hl (show ¬(0 : UInt8) = 1 by decide)
  refine ⟨hin, ?_⟩
  by_contra hshort
  have hag : Agree n pkt _ := agree_set (i := datagramLength pkt - 1) (by omega)
    (pkt.data.get (datagramLength pkt - 1) + 1)
  have hl := hlast (staleFill 0) (staleFill 0) _ hag
  rw [udpCopy, udpCopy, get_copy _ h, get_copy _ (hag.lengthOk.mp h) (by rw [← hag.totalLength]; omega),
    get_set_self _ (by omega)] at hl
  exact add_one_ne _ hl.symm

lemma not_determines_of_low (hlen : totalLength pkt < ipHeaderLen + 6)
    (hhigh : ipHeaderLen + 5 ≤ totalLength pkt → 256 * (pkt.data.get 4).toNat ≤ ipDataLen) :
    ¬Determines udpAnswer k n pkt := by
  intro hd
  have hsz := sizes
  -- the high byte is the same in both
  obtain ⟨c, hc, h4⟩ : ∃ c : UInt8, 256 * c.toNat ≤ ipDataLen ∧ ∀ b, (udpCopy (staleLength b) pkt).get 4 = c := by
    by_cases h5 : ipHeaderLen + 5 ≤ totalLength pkt
    · exact ⟨_, hhigh h5, fun b => get_copy _ h⟩
    · exact ⟨0, zero_le _, fun b => get_copy_rest _⟩
  have hL : ∀ b, udpLength (staleLength b) pkt = 256 * c.toNat + b.toNat := by
    intro b
    have hb : (udpCopy (staleLength b) pkt).get 5 = b := get_copy_rest _
    rw [udpLength_bytes, hb, h4]
  have hL8 : udpLength (staleLength 8) pkt = 256 * c.toNat + 8 := hL 8
  have hL0 : udpLength (staleLength 0) pkt = 256 * c.toNat := hL 0
  have hok : UdpLengthOk (staleLength 8) pkt := by
    unfold UdpLengthOk
    omega
  have hsame := hd (staleLength 8) (staleLength 0) pkt (Agree.refl n pkt)
  unfold udpAnswer at hsame
  rw [if_pos ⟨h, hok⟩] at hsame
  by_cases hok0 : UdpLengthOk (staleLength 0) pkt
  · rw [if_pos ⟨h, hok0⟩] at hsame
    have hbytes := congrArg length (udpBytes_injective (replyTo_injective hmac _ hsame))
    rw [length_slice, length_slice] at hbytes
    have := hok0.1
    omega
  · rw [if_neg fun hq => hok0 hq.2] at hsame
    exact replyTo_ne_none hmac _ _ hsame

lemma datagramContained_of_determines (hn : ipHeaderLen + udpHeaderLen ≤ n)
    (hd : Determines udpAnswer k n pkt) : DatagramContained pkt n := by
  by_cases hlen : ipHeaderLen + 6 ≤ totalLength pkt
  · refine .inr ⟨hlen, ?_⟩
    by_cases hpos : datagramLength pkt ≤ udpHeaderLen
    · exact .inl hpos
    by_cases hle : ipDataLen < datagramLength pkt
    · exact .inr (.inl hle)
    · exact .inr (.inr (datagram_within h hmac hn hd hlen (not_le.mp hpos) (not_lt.mp hle)))
  · refine .inl (not_not.mp fun hc => not_determines_of_low h hmac (not_le.mp hlen) ?_ hd)
    exact fun h5 => not_lt.mp fun hlt => hc ⟨h5, hlt⟩

end

/-- The segments differ at most in their payload. -/
structure SameHead (g g' : Segment) : Prop where
  hdr : g.pkt.hdr = g'.pkt.hdr
  srcIp : g.srcIp = g'.srcIp
  len : g.len = g'.len

variable {g g' : Segment} {i : Fin 64}

section SameHead

variable {vc : Channel}

section

variable (hs : SameHead g g')
include hs

lemma SameHead.matchTcpVc_eq (tab : Table) : matchTcpVc tab g.pkt = matchTcpVc tab g'.pkt := by
  unfold matchTcpVc
  rw [hs.hdr]

lemma SameHead.hasFlag_eq (flag : UInt8) : hasFlag g.pkt flag = hasFlag g'.pkt flag := by
  unfold hasFlag
  rw [hs.hdr]

lemma SameHead.accepted_iff : Accepted vc g ↔ Accepted vc g' := by
  unfold Accepted
  rw [hs.hasFlag_eq, hs.srcIp, hs.hdr]

lemma SameHead.fits_iff : Fits vc g ↔ Fits vc g' := by
  unfold Fits
  rw [hs.len]

lemma SameHead.segmentFrame_kept (p : TcpPkt) (length : ℕ) :
    segmentFrame k (kept vc g) p length = segmentFrame k (kept vc g') p length := by
  unfold kept
  rw [hs.len]
  rfl

end

lemma asked_guestSide (hst : vc.state = .established) {x : Channel × TcpPkt × ℕ}
    (hx : asked vc g = some x) : x.1.guestSide = vc.guestSide := by
  unfold asked at hx
  rw [hst] at hx
  dsimp only at hx
  split_ifs at hx
  · split at hx
    · cases hx
      rfl
    · cases hx
  · cases hx
    rfl

lemma asked_null (hst : vc.state = .established) (hmac : getMacByIp k.arpTable (jhtonl vc.guestSide.ip) = none) :
    ((asked vc g).bind fun x => segmentFrame k x.1 x.2.1 x.2.2) = none := by
  refine bind_eq_none_iff.mpr fun x hx => ?_
  rw [segmentFrame, asked_guestSide hst hx, hmac, map_none]

lemma SameHead.asked_frame (hs : SameHead g g')
    (hhttp : vc.state = .established → Accepted vc g → Fits vc g → hasFlag g.pkt thPsh →
      (getMacByIp k.arpTable (jhtonl vc.guestSide.ip)).isSome →
      httpParse (kept vc g).buffer (kept vc g).dataLen.toNat (Arr.zero tcpDataLen) =
        httpParse (kept vc g').buffer (kept vc g').dataLen.toNat (Arr.zero tcpDataLen)) :
    ((asked vc g).bind fun x => segmentFrame k x.1 x.2.1 x.2.2) =
      (asked vc g').bind fun x => segmentFrame k x.1 x.2.1 x.2.2 := by
  cases hst : vc.state with
  | established =>
    cases hmac : getMacByIp k.arpTable (jhtonl vc.guestSide.ip) with
    | none => rw [asked_null hst hmac, asked_null hst hmac]
    | some mac =>
      unfold asked
      simp only [hst, ← hs.accepted_iff, ← hs.fits_iff, ← hs.hasFlag_eq, ← hs.len]
      split_ifs with ha hp hl
      · rw [hhttp hst ha.1 ha.2 hp (by rw [hmac]; rfl)]
        cases httpParse (kept vc g').buffer (kept vc g').dataLen.toNat (zero tcpDataLen) with
        | error e => rfl
        | ok reply => exact hs.segmentFrame_kept _ _
      · exact hs.segmentFrame_kept _ _
      · rfl
      · rfl
  | listen =>
    unfold asked synChannel
    simp only [hst, hs.hasFlag_eq, hs.hdr, hs.srcIp]
  | closeWait =>
    unfold asked
    simp only [hst, hs.hasFlag_eq, hs.accepted_iff]
  | synReceived | closed | synSent | finWait1 | closing | finWait2 | timeWait | lastAck =>
    unfold asked
    simp only [hst]

lemma segmentAnswer_congr (hs : SameHead g g') (hhttp : ∀ i, Pushes k g i →
      httpParse (kept (k.tcpVc i) g).buffer (kept (k.tcpVc i) g).dataLen.toNat (Arr.zero tcpDataLen) =
        httpParse (kept (k.tcpVc i) g').buffer (kept (k.tcpVc i) g').dataLen.toNat (Arr.zero tcpDataLen)) :
    segmentAnswer k g = segmentAnswer k g' := by
  unfold segmentAnswer
  rw [← hs.matchTcpVc_eq]
  cases hm : matchTcpVc k.tcpVc g.pkt with
  | none => rfl
  | some i =>
    exact hs.asked_frame fun hst ha hf hp hmac => hhttp i ⟨hm, hst, ha, hf, hp, hmac⟩

lemma SameHead.pushes (hs : SameHead g g') (hp : Pushes k g i) : Pushes k g' i where
  found := hs.matchTcpVc_eq k.tcpVc ▸ hp.found
  state := hp.state
  accepted := hs.accepted_iff.mp hp.accepted
  fits := hs.fits_iff.mp hp.fits
  push := hs.hasFlag_eq thPsh ▸ hp.push
  mac := hp.mac

end SameHead

lemma tcpHdr_ofArr_congr {a : Arr m} {b : Arr n} (h : ∀ j < tcpHeaderLen, a.get j = b.get j) :
    TcpHdr.ofArr a = TcpHdr.ofArr b := by
  have hsz := sizes
  unfold TcpHdr.ofArr
  rw [get16_congr fun j hj => h j (by omega), get16_congr fun j hj => h j (by omega),
    get32_congr fun j hj => h j (by omega), get32_congr fun j hj => h j (by omega),
    h 12 (by omega), h 13 (by omega), get16_congr fun j hj => h j (by omega),
    get16_congr fun j hj => h j (by omega), get16_congr fun j hj => h j (by omega)]

section

variable (h : LengthOk pkt)
include h

lemma segmentOf_hdr (hT : ipHeaderLen + tcpHeaderLen ≤ totalLength pkt) :
    (segmentOf stale pkt h).pkt.hdr = TcpHdr.ofArr pkt.data :=
  tcpHdr_ofArr_congr fun _ hj => get_copy _ h

lemma segmentOf_len : (segmentOf stale pkt h).len.toNat = totalLength pkt - (ipHeaderLen + tcpHeaderLen) := by
  have hlt := totalLength_lt pkt
  show (totalLength pkt - ipHeaderLen - tcpHeaderLen).toUInt16.toNat = _
  rw [toNat_toUInt16]
  omega

lemma segmentOf_payload {j : ℕ} (hj : j < (segmentOf stale pkt h).len.toNat) :
    (segmentOf stale pkt h).payload.getD j 0 = pkt.data.get (tcpHeaderLen + j) := by
  have hfits := hj.trans_le (segmentOf stale pkt h).fits
  rw [Segment.payload, getD_slice _ _ _ _ hj, zero_add]
  rw [segmentOf_len] at hj
  show ((tcpCopy stale pkt).sub tcpHeaderLen tcpDataLen).get j = _
  rw [get_sub _ _ (by omega)]
  exact get_copy _ h

lemma sameHead_segmentOf (h' : LengthOk pkt') (hag : Agree n pkt pkt')
    (hn : ipHeaderLen + tcpHeaderLen ≤ n) (hT : ipHeaderLen + tcpHeaderLen ≤ totalLength pkt) :
    SameHead (segmentOf stale pkt h) (segmentOf stale' pkt' h') where
  hdr := by
    rw [segmentOf_hdr h hT, segmentOf_hdr h' (hag.totalLength ▸ hT)]
    exact tcpHdr_ofArr_congr fun j hj => hag.data j (by omega)
  srcIp := by
    show jntohl pkt.hdr.ipSourceAddress = jntohl pkt'.hdr.ipSourceAddress
    rw [hag.hdr]
  len := by
    refine UInt16.toNat_inj.mp ?_
    rw [segmentOf_len, segmentOf_len, hag.totalLength]

lemma sameOff_kept (h' : LengthOk pkt') (hag : Agree n pkt pkt') (vc : Channel) :
    SameOff (vc.dataLen.toNat + (n - (ipHeaderLen + tcpHeaderLen)))
      (vc.dataLen.toNat + (totalLength pkt - (ipHeaderLen + tcpHeaderLen)))
      (kept vc (segmentOf stale pkt h)).buffer (kept vc (segmentOf stale' pkt' h')).buffer := by
  have hl : (segmentOf stale pkt h).len.toNat = _ := segmentOf_len h
  have hl' : (segmentOf stale' pkt' h').len.toNat = _ := segmentOf_len h'
  rw [← hag.totalLength] at hl'
  intro j hj
  show (vc.buffer.splice _ _).get j = (vc.buffer.splice _ _).get j
  rw [get_splice, get_splice, Segment.length_payload, Segment.length_payload, hl, hl']
  split
  · rename_i hin
    rw [segmentOf_payload h (by omega), segmentOf_payload h' (by omega), hag.data _ (by omega)]
  · rfl

end

lemma kept_dataLen_eq (hs : SameHead g g') (vc : Channel) : (kept vc g).dataLen = (kept vc g').dataLen := by
  show vc.dataLen + g.len.toUInt32 = vc.dataLen + g'.len.toUInt32
  rw [hs.len]

lemma Pushes.httpStatus (hinv : TableInv k.tcpVc) (hp : Pushes k g i) :
    httpStatus (kept (k.tcpVc i) g).buffer (kept (k.tcpVc i) g).dataLen.toNat =
      .ok (answerTo (kept (k.tcpVc i) g).buffer (kept (k.tcpVc i) g).dataLen.toNat) := by
  have hk := (hinv i).kept hp.state hp.fits
  exact httpStatus_eq ⟨hk.room, .inl hk.last⟩

lemma tcp_determined (hinv : TableInv k.tcpVc) (h : LengthOk pkt)
    (hn : ipHeaderLen + tcpHeaderLen ≤ n) (hc : SegmentContained k pkt h n) :
    Determines tcpAnswer k n pkt := by
  by_cases hT : totalLength pkt < ipHeaderLen + tcpHeaderLen
  · intro stale stale' pkt' hag
    have hT' := hag.totalLength
    unfold tcpAnswer
    rw [dif_neg (by omega), dif_neg (by omega)]
  -- each segment is answered like the one with nothing but zeros left over
  have hbase : ∀ (s : Stale) (p : IpPkt m), Agree n pkt p →
      tcpAnswer s k p = segmentAnswer k (segmentOf (staleFill 0) pkt h) := by
    intro s p hag
    have hT' := hag.totalLength
    have hp := hag.lengthOk.mp h
    have hsame : SameHead (segmentOf (staleFill 0) pkt h) (segmentOf s p hp) :=
      sameHead_segmentOf h hp hag hn (by omega)
    unfold tcpAnswer
    rw [dif_pos ⟨hp, by omega⟩]
    refine (segmentAnswer_congr hsame fun i hpush => ?_).symm
    have hoff : SameOff _ _ (kept (k.tcpVc i) (segmentOf (staleFill 0) pkt h)).buffer
      (kept (k.tcpVc i) (segmentOf s p hp)).buffer := sameOff_kept h hp hag (k.tcpVc i)
    have hlen := kept_dataLen hpush.fits
    rw [segmentOf_len] at hlen
    rw [← hlen] at hoff
    have hst := hpush.httpStatus hinv
    have hst' := (hsame.pushes hpush).httpStatus hinv
    rw [← kept_dataLen_eq hsame] at hst'
    rw [← kept_dataLen_eq hsame, httpParse, httpParse, hst, hst']
    suffices heq : answerTo (kept (k.tcpVc i) (segmentOf s p hp)).buffer _ =
        answerTo (kept (k.tcpVc i) (segmentOf (staleFill 0) pkt h)).buffer _ by rw [heq]
    by_cases hle : totalLength pkt ≤ n
    · rw [ext_get fun j _ => hoff j (by omega)]
    · obtain ⟨h3, hdec⟩ := (hc.resolve_left hT).resolve_left hle i hpush
      exact answerTo_of_decided h3 (by omega) hdec hoff
  intro stale stale' pkt' hag
  rw [hbase stale pkt (Agree.refl n pkt), hbase stale' pkt' hag]

def replyLength (code : ℤ) : ℕ := (replyText code (if code = 200 then some okPage else none)).length

set_option maxRecDepth 4000 in
lemma replyLength_injective {code code' : ℤ} (h : code = 200 ∨ code = 400 ∨ code = 505)
    (h' : code' = 200 ∨ code' = 400 ∨ code' = 505) (heq : replyLength code = replyLength code') :
    code = code' := by
  rcases h with rfl | rfl | rfl <;> rcases h' with rfl | rfl | rfl <;> first
    | rfl
    | exact absurd heq (by decide)

example : replyLength 200 = 126 := by decide +kernel

lemma Pushes.answer (hinv : TableInv k.tcpVc) (hp : Pushes k g i) :
    (segmentAnswer k g).map List.length = some (ethHeaderLen + ipHeaderLen + (tcpHeaderLen +
      replyLength (answerTo (kept (k.tcpVc i) g).buffer (kept (k.tcpVc i) g).dataLen.toNat))) := by
  have hst := hp.httpStatus hinv
  have hlt := length_replyText (httpStatus_cases hst)
  have hsz := sizes
  obtain ⟨mac, hmac⟩ := isSome_iff_exists.mp hp.mac
  obtain ⟨data, hasked⟩ : ∃ data, asked (k.tcpVc i) g = some (kept (k.tcpVc i) g, dataPkt data,
      replyLength (answerTo (kept (k.tcpVc i) g).buffer (kept (k.tcpVc i) g).dataLen.toNat)) := by
    unfold asked
    rw [hp.state]
    dsimp only
    rw [if_pos ⟨hp.accepted, hp.fits⟩, if_pos hp.push, httpParse_eq (by decide) hst]
    exact ⟨_, rfl⟩
  rw [segmentAnswer, hp.found, bind_some, hasked, bind_some, segmentFrame]
  show (Option.map _ (getMacByIp k.arpTable (jhtonl (k.tcpVc i).guestSide.ip))).map _ = _
  rw [hmac, map_some, map_some, tcpFrame, ipFrame]
  simp only [length_append, EthHdr.length_bytes, IpHdr.length_bytes, length_slice]
  unfold replyLength
  rw [toNat_toUInt16]

lemma segmentContained_of_determines (hinv : TableInv k.tcpVc) (h : LengthOk pkt)
    (hn : ipHeaderLen + tcpHeaderLen + httpMethod.length ≤ n) (hd : Determines tcpAnswer k n pkt) :
    SegmentContained k pkt h n := by
  have hm := h.2.2
  refine or_iff_not_imp_left.mpr fun hT => or_iff_not_imp_left.mpr fun hle i hp => ?_
  have hlen := kept_dataLen hp.fits
  have hroom := ((hinv i).kept hp.state hp.fits).room
  rw [segmentOf_len] at hlen
  refine ⟨by omega, (decided_iff (by omega) (by omega) hroom).mp fun a' hoff => ?_⟩
  -- a frame that brings the bytes of `a'`
  obtain ⟨q, hq⟩ : ∃ q, q = (k.tcpVc i).dataLen.toNat + (n - (ipHeaderLen + tcpHeaderLen)) := ⟨_, rfl⟩
  let pkt' : IpPkt m :=
    { pkt with data := pkt.data.splice (n - ipHeaderLen) (a'.slice q (totalLength pkt - n)) }
  have hag : Agree n pkt pkt' := ⟨rfl, fun j hj => (get_splice_outside _ (.inl (by omega))).symm⟩
  have h' := hag.lengthOk.mp h
  have hsame : SameHead (segmentOf (staleFill 0) pkt h) (segmentOf (staleFill 0) pkt' h') :=
    sameHead_segmentOf h h' hag (by omega) (by omega)
  have hbuf : (kept (k.tcpVc i) (segmentOf (staleFill 0) pkt' h')).buffer = a' := by
    have hkept : SameOff _ _ (kept (k.tcpVc i) (segmentOf (staleFill 0) pkt h)).buffer
      (kept (k.tcpVc i) (segmentOf (staleFill 0) pkt' h')).buffer := sameOff_kept h h' hag (k.tcpVc i)
    have hlen' : (segmentOf (staleFill 0) pkt' h').len.toNat = _ := segmentOf_len h'
    rw [← hag.totalLength] at hlen'
    refine ext_get fun j hj => ?_
    by_cases hin : q ≤ j ∧ j < (kept (k.tcpVc i) (segmentOf (staleFill 0) pkt h)).dataLen.toNat
    · show ((k.tcpVc i).buffer.splice _ _).get j = a'.get j
      rw [get_splice_inside _ hj (by omega) (by rw [Segment.length_payload]; omega), segmentOf_payload h' (by omega)]
      rw [get_splice_inside _ (by omega) (by omega) (by rw [length_slice]; omega), getD_slice _ _ _ _]
      congr 1
      omega
    · rw [← hkept j (by omega), hoff j (by omega)]
  have hans := hd (staleFill 0) (staleFill 0) pkt' hag
  unfold tcpAnswer at hans
  rw [dif_pos ⟨h, by omega⟩, dif_pos ⟨h', by rw [← hag.totalLength]; omega⟩] at hans
  have hans' := hp.answer hinv
  rw [hans, (hsame.pushes hp).answer hinv, ← kept_dataLen_eq hsame, hbuf] at hans'
  have hcode := httpStatus_cases ((hsame.pushes hp).httpStatus hinv)
  rw [← kept_dataLen_eq hsame, hbuf] at hcode
  have hl := some.inj hans'
  exact replyLength_injective hcode (httpStatus_cases (hp.httpStatus hinv)) (by omega)

lemma Agree.dispatched (h : Agree n pkt pkt') : Dispatched pkt ↔ Dispatched pkt' := by
  obtain ⟨hdr, data⟩ := pkt
  obtain ⟨hdr', data'⟩ := pkt'
  obtain rfl : hdr = hdr' := h.hdr
  exact ⟨fun hd => ⟨hd.1, hd.2, hd.3⟩, fun hd => ⟨hd.1, hd.2, hd.3⟩⟩

def handlerAnswer (protocol : UInt8) : Stale → Shared → IpPkt m → Option (List UInt8) :=
  if protocol = ipProtoTcp then tcpAnswer
  else if protocol = ipProtoUdp then udpAnswer
  else icmpAnswer

lemma determines_ipAnswer_iff : Determines ipAnswer k n pkt ↔
      (Dispatched pkt → Determines (handlerAnswer pkt.hdr.ipProtocol) k n pkt) := by
  have hans : ∀ (s : Stale) (p : IpPkt m), Agree n pkt p →
      ipAnswer s k p = if Dispatched pkt then handlerAnswer pkt.hdr.ipProtocol s k p else none := by
    intro s p hag
    unfold ipAnswer handlerAnswer
    rw [hag.hdr]
    simp only [hag.dispatched, ite_apply]
  constructor
  · intro hd hdisp stale stale' pkt' hag
    have := hd stale stale' pkt' hag
    rwa [hans stale pkt (Agree.refl n pkt), hans stale' pkt' hag, if_pos hdisp, if_pos hdisp] at this
  · intro hd stale stale' pkt' hag
    rw [hans stale pkt (Agree.refl n pkt), hans stale' pkt' hag]
    by_cases hdisp : Dispatched pkt
    · rw [if_pos hdisp, if_pos hdisp]
      exact hd hdisp stale stale' pkt' hag
    · rw [if_neg hdisp, if_neg hdisp]

lemma handlerAnswer_of_not_lengthOk (h : ¬LengthOk pkt) (protocol : UInt8) :
    handlerAnswer protocol stale k pkt = none := by
  unfold handlerAnswer
  split
  · exact dif_neg fun hq => h hq.1
  · split <;> exact if_neg fun hq => h hq.1

lemma handlerAnswer_of_no_mac (hmac : ¬(getMacByIp k.arpTable (jhtonl hostIp)).isSome)
    {protocol : UInt8} (hp : protocol ≠ ipProtoTcp) : handlerAnswer protocol stale k pkt = none := by
  have hreply : ∀ p payload, replyTo k p payload = none := by
    intro p payload
    unfold replyTo
    rw [not_isSome_iff_eq_none.mp hmac]
    rfl
  unfold handlerAnswer
  rw [if_neg hp]
  split
  · simp only [udpAnswer, hreply, ite_self]
  · simp only [icmpAnswer, hreply, ite_self]

/-- **A packet that is contained in the frame determines its answer.** -/
theorem ip_determined (hinv : TableInv k.tcpVc) (hc : PacketContained k pkt n) : Determines ipAnswer k n pkt := by
  refine determines_ipAnswer_iff.mpr fun hdisp => ?_
  by_cases h : LengthOk pkt
  · obtain ⟨hn, hc⟩ := hc hdisp h
    unfold transportHeaderLen at hn
    by_cases ht : pkt.hdr.ipProtocol = ipProtoTcp
    · rw [if_pos ht] at hn hc
      rw [handlerAnswer, if_pos ht]
      exact tcp_determined hinv h hn hc
    rw [if_neg ht] at hn hc
    by_cases hmac : (getMacByIp k.arpTable (jhtonl hostIp)).isSome
    · have hc := hc hmac
      by_cases hu : pkt.hdr.ipProtocol = ipProtoUdp
      · rw [if_pos hu] at hn hc
        rw [handlerAnswer, if_neg ht, if_pos hu]
        exact udp_determined h hn hc
      · rw [if_neg hu] at hn hc
        rw [handlerAnswer, if_neg ht, if_neg hu]
        exact icmp_determined h hn hc
    · intro stale stale' pkt' hag
      rw [handlerAnswer_of_no_mac hmac ht, handlerAnswer_of_no_mac hmac ht]
  · intro stale stale' pkt' hag
    rw [handlerAnswer_of_not_lengthOk h, handlerAnswer_of_not_lengthOk fun h' => h (hag.lengthOk.mpr h')]

/-- **And only such a packet does**, if the frame reaches behind the headers. -/
theorem packetContained_of_determines (hinv : TableInv k.tcpVc)
    (hn : ipHeaderLen + tcpHeaderLen + httpMethod.length ≤ n) (hd : Determines ipAnswer k n pkt) :
    PacketContained k pkt n := by
  have hsz := sizes
  intro hdisp h
  have hd := determines_ipAnswer_iff.mp hd hdisp
  unfold handlerAnswer at hd
  unfold transportHeaderLen
  by_cases ht : pkt.hdr.ipProtocol = ipProtoTcp
  · rw [if_pos ht] at hd
    rw [if_pos ht, if_pos ht]
    exact ⟨by omega, segmentContained_of_determines hinv h hn hd⟩
  rw [if_neg ht] at hd
  rw [if_neg ht, if_neg ht]
  by_cases hu : pkt.hdr.ipProtocol = ipProtoUdp
  · rw [if_pos hu] at hd
    rw [if_pos hu, if_pos hu]
    exact ⟨by omega, fun hmac => datagramContained_of_determines h hmac (by omega) hd⟩
  · rw [if_neg hu] at hd
    rw [if_neg hu, if_neg hu]
    exact ⟨by omega, fun hmac => echoContained_of_determines h hmac (by omega) hd⟩

end Jos.Determined
