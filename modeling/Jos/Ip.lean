import Jos.ArpTable
import Jos.E1000

/-!
Sending: `ip_checksum` and `ip_send` of `ip.c`, and `eth_send` of `ethernet.c`.

The structures a function declares without initializing them start with whatever is on the
stack. `Stale` holds these contents, so that what is sent can be compared for two of them.
-/

namespace Jos.Ip

open CArray OnesSum Inet Packets ArpTable E1000 Arr

/-- What the stack below TCP keeps between packets. -/
structure Net where
  arpTable : ArpCache
  packetId : UInt16
  nic : Nic

/-- The earlier contents of the uninitialized locals, under the names of the source. -/
structure Stale where
  /-- `buf` of `eth_recv` -/
  recvBuf : Arr (ethMaxPacketSize + 1)
  /-- `tcp_pkt` of `tcp_recv` -/
  tcpPkt : Arr ipDataLen
  /-- `icmp_packet` of `icmp_echo_reply` -/
  icmpPacket : Arr ipDataLen
  /-- `upkt` of `udp_recv` -/
  upkt : Arr ipDataLen
  /-- `pkt` of `udp_send` -/
  pkt : UdpPkt
  /-- `result` of `icmp_echo_reply` and `udp_send` -/
  result : IpPkt ipDataLen
  /-- `e_hdr` of `ip_send` -/
  eHdr : EthHdr
  /-- `reply_header` of `arp_reply` -/
  replyHeader : EthHdr
  /-- `buf` of `eth_send` -/
  sendBuf : Arr (ethMaxPacketSize + 1)

/-- The accumulator of `ip_checksum` after the remaining bytes. -/
def checksumLoop : UInt32 → List UInt8 → UInt32
  | acc, a :: b :: t =>
    let acc := acc + (jntohs (of16 a b)).toUInt32
    checksumLoop (if 0xffff < acc then acc - 0xffff else acc) t
  | acc, [a] =>
    let acc := acc + (jntohs (of16 a 0)).toUInt32
    if 0xffff < acc then acc - 0xffff else acc
  | acc, [] => acc

def ipChecksum (data : List UInt8) : UInt16 :=
  jhtons (~~~(checksumLoop 0xffff data)).toUInt16

lemma checksum_step {acc : UInt32} (hacc : acc.toNat ≤ 0xffff) (w : UInt16) :
    (if 0xffff < acc + w.toUInt32 then acc + w.toUInt32 - 0xffff else acc + w.toUInt32).toNat =
      eac 0xffff acc.toNat w.toNat := by
  have hw := w.toNat_lt
  have hsum : (acc + w.toUInt32).toNat = acc.toNat + w.toNat := by
    rw [UInt32.toNat_add, UInt16.toNat_toUInt32, Nat.mod_eq_of_lt (by omega)]
  have hlt : (0xffff : UInt32) < acc + w.toUInt32 ↔ 0xffff < acc.toNat + w.toNat := by
    rw [UInt32.lt_iff_toNat_lt, hsum]; rfl
  unfold eac
  by_cases h : 0xffff < acc.toNat + w.toNat
  · rw [if_pos (hlt.mpr h), if_pos h, UInt32.toNat_sub, hsum]
    simp only [UInt32.reduceToNat]; omega
  · rw [if_neg (fun hc => h (hlt.mp hc)), if_neg h, hsum]

lemma checksumLoop_toNat (acc : UInt32) (hacc : acc.toNat ≤ 0xffff) (data : List UInt8) :
    (checksumLoop acc data).toNat = (beWords data).foldl (eac 0xffff) acc.toNat := by
  induction data using beWords.induct generalizing acc with
  | case1 a b t ih =>
    have hs := checksum_step hacc (jntohs (of16 a b))
    have hle : eac 0xffff acc.toNat (jntohs (of16 a b)).toNat ≤ 0xffff := by
      have hw := (jntohs (of16 a b)).toNat_lt
      unfold eac; split <;> omega
    rw [checksumLoop, beWords, List.foldl_cons, ih _ (by rw [hs]; exact hle), hs, jntohs_of16_toNat]
  | case2 a =>
    rw [checksumLoop, beWords, List.foldl_cons, List.foldl_nil, checksum_step hacc,
      jntohs_of16_toNat, UInt8.toNat_zero, Nat.add_zero]
  | case3 => simp only [checksumLoop, beWords, List.foldl_nil]

/-- **`ip_checksum` is the complement of the sum of the words**, the zero sum counted as all
ones. -/
theorem ipChecksum_toNat (data : List UInt8) :
    (jntohs (ipChecksum data)).toNat = 0xffff - rep 0xffff (0xffff + wordSum data) := by
  have hM : (0xffff : UInt32).toNat = rep 0xffff 0xffff := by decide
  have hloop := checksumLoop_toNat 0xffff (by decide) data
  rw [hM, foldl_eac (by norm_num) _ _ (beWords_le data)] at hloop
  have hle := rep_le (M := 0xffff) (by norm_num) (0xffff + wordSum data)
  rw [ipChecksum, jntohs_jhtons, UInt32.toNat_toUInt16, UInt32.toNat_not, hloop]
  simp only [UInt32.size, wordSum] at hle ⊢
  omega

def getMyMac : Mac := Arr.ofList 6 [0x52, 0x54, 0x0, 0x12, 0x34, 0x56]

variable {m : ℕ}

/-- The address found is copied without asking whether there is one. -/
def ethDestination (net : Net) (hdr : EthHdr) (data : Arr m) : Except Fault Mac :=
  if hdr.ethType = jhtons ethTypeIp then
    match getMacByIp net.arpTable (get32 data 16) with
    | some mac => .ok mac
    | none => .error .nullPointer
  else .ok hdr.ethDestinationMac

def ethSend (stale : Stale) (net : Net) (hdr : EthHdr) (data : Arr m) (len : ℕ) :
    Except Fault (Net × ℤ) :=
  if ethMaxPacketSize - ethHeaderLen < len then .error .assertion
  else do
    let mac ← ethDestination net hdr data
    let hdr : EthHdr := ⟨mac, getMyMac, htons hdr.ethType⟩
    let buf ← stale.sendBuf.write 0 hdr.bytes
    let buf ← buf.memcpy ethHeaderLen data 0 len
    let (nic, r) ← e1000Transmit net.nic buf (len + ethHeaderLen).toUInt16
    .ok ({ net with nic := nic }, r)

def Net.transmit (net : Net) (frame : List UInt8) : Net × ℤ :=
  if TxFull net.nic then (net, -1) else ({ net with nic := net.nic.accept frame }, 0)

variable {len : ℕ} {mac : Mac}

section

variable (stale : Stale) (net : Net) (hdr : EthHdr) (data : Arr m)
include stale net hdr data

section

variable (hlen : len ≤ ethMaxPacketSize - ethHeaderLen) (hm : len ≤ m)
include hlen hm

lemma ethSend_passes (hmac : ethDestination net hdr data = .ok mac) : ∃ buf : Arr (ethMaxPacketSize + 1),
      buf.slice 0 (ethHeaderLen + len) = (⟨mac, getMyMac, hdr.ethType⟩ : EthHdr).bytes ++ data.slice 0 len ∧
      ethSend stale net hdr data len =
        e1000Transmit net.nic buf (len + ethHeaderLen).toUInt16 >>= fun r => .ok ({ net with nic := r.1 }, r.2) := by
  have hsz := sizes
  set h : EthHdr := ⟨mac, getMyMac, hdr.ethType⟩ with hh
  refine ⟨(stale.sendBuf.splice 0 h.bytes).splice ethHeaderLen (data.slice 0 len), ?_, ?_⟩
  · have e1 := slice_splice_append (stale.sendBuf.splice 0 h.bytes) ethHeaderLen (data.slice 0 len) (by simp; omega)
    have e2 := slice_splice_same stale.sendBuf 0 h.bytes (by simp; omega)
    rw [EthHdr.length_bytes] at e2
    rw [length_slice] at e1
    rw [e1, e2]
  · rw [ethSend, if_neg (by omega), hmac, ok_bind]
    simp only [htons]
    rw [← hh, write_ok _ (by simp; omega), ok_bind, memcpy_ok _ _, ok_bind]

lemma ethSend_eq (hmac : ethDestination net hdr data = .ok mac) : ethSend stale net hdr data len =
      .ok (net.transmit ((⟨mac, getMyMac, hdr.ethType⟩ : EthHdr).bytes ++ data.slice 0 len)) := by
  have hsz := sizes
  have hl : (len + ethHeaderLen).toUInt16.toNat = ethHeaderLen + len := by
    rw [toNat_toUInt16, Nat.add_comm]
  obtain ⟨buf, hframe, hsend⟩ := ethSend_passes stale net hdr data hlen hm hmac
  rw [hsend, Net.transmit]
  by_cases hf : TxFull net.nic
  · rw [e1000Transmit_full hf, ok_bind, if_pos hf]
  · rw [e1000Transmit_free hf _ (by omega) (by omega), hl, hframe, ok_bind, if_neg hf]

end

lemma ethSend_null {f : Fault}
    (hlen : len ≤ ethMaxPacketSize - ethHeaderLen) (hmac : ethDestination net hdr data = .error f) :
    ethSend stale net hdr data len = .error f := by
  rw [ethSend, if_neg (by omega), hmac, error_bind]

end

/-- The header `ip_send` completes: everything but the protocol and the addresses. -/
def ipSendHdr (packetId : UInt16) (hdr : IpHdr) (length : UInt16) : IpHdr :=
  let hdr : IpHdr :=
    { hdr with
      ipVerlen := ipVerLen
      ipTos := 0
      ipTotalLength := jhtons (length + ipHeaderLen.toUInt16)
      ipId := jhtons packetId
      ipFlagsOffset := 0
      ipTtl := ipTtl
      ipHeaderChecksum := 0 }
  { hdr with ipHeaderChecksum := ipChecksum hdr.bytes }

def ipSend (stale : Stale) (net : Net) (pkt : IpPkt ipDataLen) (length : UInt16) :
    Except Fault (Net × ℤ) :=
  let pkt := { pkt with hdr := ipSendHdr net.packetId pkt.hdr length }
  ethSend stale { net with packetId := net.packetId + 1 }
    { stale.eHdr with ethType := jhtons ethTypeIp } pkt.toArr (ipHeaderLen + length.toNat)

def ipFrame (packetId : UInt16) (mac : Mac) (pkt : IpPkt ipDataLen) (length : UInt16) :
    List UInt8 :=
  (⟨mac, getMyMac, jhtons ethTypeIp⟩ : EthHdr).bytes ++ (ipSendHdr packetId pkt.hdr length).bytes ++
    pkt.data.slice 0 length.toNat

lemma toArr_slice {n : ℕ} (p : IpPkt n) (h : len ≤ n) :
    p.toArr.slice 0 (ipHeaderLen + len) = p.hdr.bytes ++ p.data.slice 0 len := by
  have hslice := slice_ofList_append p.hdr.bytes p.data
    (show p.hdr.bytes.length + len ≤ ipHeaderLen + n by rw [IpHdr.length_bytes]; omega) h
  rwa [IpHdr.length_bytes] at hslice

lemma toArr_destination {n : ℕ} (p : IpPkt n) : get32 p.toArr 16 = p.hdr.ipDestinationAddress := by
  have hlt : ∀ k < 4, 16 + k < ipHeaderLen + n := fun k hk => by
    have hsz := sizes
    omega
  unfold get32 IpPkt.toArr
  rw [get_ofList _ (hlt 0 (by omega)), get_ofList _ (hlt 1 (by omega)),
    get_ofList _ (hlt 2 (by omega)), get_ofList _ (hlt 3 (by omega))]
  exact of32_bytes p.hdr.ipDestinationAddress

lemma ethDestination_toArr {n : ℕ} {net : Net} {hdr : EthHdr} (h : hdr.ethType = jhtons ethTypeIp)
    {p : IpPkt n} (ho : getMacByIp net.arpTable p.hdr.ipDestinationAddress = o) :
    ethDestination net hdr p.toArr = o.elim (.error .nullPointer) .ok := by
  rw [ethDestination, if_pos h, toArr_destination, ho]
  cases o <;> rfl

lemma ipSendHdr_destination (packetId : UInt16) (hdr : IpHdr) (length : UInt16) :
    (ipSendHdr packetId hdr length).ipDestinationAddress = hdr.ipDestinationAddress := rfl

lemma ipSend_destination (stale : Stale) {net : Net} {pkt : IpPkt ipDataLen} (length : UInt16)
    (ho : getMacByIp net.arpTable pkt.hdr.ipDestinationAddress = o) :
    ethDestination { net with packetId := net.packetId + 1 } { stale.eHdr with ethType := jhtons ethTypeIp }
      ({ pkt with hdr := ipSendHdr net.packetId pkt.hdr length } : IpPkt ipDataLen).toArr =
        o.elim (.error .nullPointer) .ok := by
  refine ethDestination_toArr rfl ?_
  rw [ipSendHdr_destination]
  exact ho

/-- **What `ip_send` does**, for a packet that is not too long. -/
theorem ipSend_eq (stale : Stale) (net : Net) (pkt : IpPkt ipDataLen) {length : UInt16}
    (hlen : length.toNat ≤ ipDataLen)
    (hmac : getMacByIp net.arpTable pkt.hdr.ipDestinationAddress = some mac) :
    ipSend stale net pkt length =
      .ok (({ net with packetId := net.packetId + 1 } : Net).transmit (ipFrame net.packetId mac pkt length)) := by
  have hsz := sizes
  have hdst := ipSend_destination stale length hmac
  rw [ipSend, ethSend_eq stale _ _ _ (by omega) (by omega) hdst, toArr_slice _ hlen, ipFrame, List.append_assoc]

lemma ipSend_null (stale : Stale) (net : Net) (pkt : IpPkt ipDataLen) {length : UInt16}
    (hlen : length.toNat ≤ ipDataLen)
    (hmac : getMacByIp net.arpTable pkt.hdr.ipDestinationAddress = none) :
    ipSend stale net pkt length = .error .nullPointer := by
  have hsz := sizes
  exact ethSend_null stale _ _ _ (by omega) (ipSend_destination stale length hmac)

end Jos.Ip
