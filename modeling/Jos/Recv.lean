import Jos.TcpModel

/-!
Receiving: from the card through `eth_recv` to the handlers of ARP, ICMP, UDP and TCP.

A handler copies the packet into a structure of its own, which it has not initialized, and by
the length that the IP header claims. Lengths are computed in `size_t`, so that a packet that
claims less than its header leads to a huge one.
-/

namespace Jos.Recv

open CArray Inet Packets ArpTable E1000 Ip TcpModel

/-- What the network stack keeps between packets. -/
structure Stack where
  net : Net
  tcpVc : Table

/-- The error codes of `error.h` that the stack returns. -/
def eBadEthType : ℤ := 20
def eUnsVer : ℤ := 21
def eInvChs : ℤ := 22
def eUnsIcmpType : ℤ := 23
def eInvIcmpCode : ℤ := 24

variable {n m : ℕ} (stale : Stale)

/-- `JNTOHS(pkt->hdr.ip_total_length)` -/
def totalLength (pkt : IpPkt n) : ℕ := (jntohs pkt.hdr.ipTotalLength).toNat

def udpSend (net : Net) (data : Arr m) (length : ℤ) : Except Fault (Net × ℤ) := do
  let size := intToSize length
  let hdr : UdpHdr :=
    { sourcePort := jhtons 8081
      destinationPort := jhtons 1234
      length := jhtons (size + udpHeaderLen).toUInt16
      checksum := 0 }
  let pktData ← stale.pkt.data.memcpy 0 data 0 size
  let pkt : UdpPkt := ⟨hdr, pktData⟩
  let resultHdr : IpHdr :=
    { stale.result.hdr with
      ipProtocol := ipProtoUdp
      ipSourceAddress := jhtonl myIp
      ipDestinationAddress := jhtonl hostIp }
  let resultData ← stale.result.data.memcpy 0 pkt.toArr 0 (size + udpHeaderLen)
  ipSend stale net ⟨resultHdr, resultData⟩ (size + udpHeaderLen).toUInt16

def udpRecv (net : Net) (pkt : IpPkt n) : Except Fault (Net × ℤ) := do
  let size := sizeToInt (sizeSub (totalLength pkt) ipHeaderLen)
  let upkt ← stale.upkt.memcpy 0 pkt.data 0 (intToSize size)
  let upkt := UdpPkt.ofArr upkt
  let dataLength := sizeSub (jntohs upkt.hdr.length).toNat udpHeaderLen
  -- the loop that prints the data reads every byte of it
  let _ ← upkt.data.read 0 dataLength
  let r ← udpSend stale net upkt.data (sizeToInt dataLength)
  .ok (r.1, 0)

def echoRequest : UInt8 := 8
def echoReply : UInt8 := 0

def echoed (icmpPacket : IcmpPkt) : IcmpPkt :=
  { icmpPacket with
    hdr := { icmpPacket.hdr with
      msgType := echoReply
      checksum := jhtons (jntohs icmpPacket.hdr.checksum + 0x0800) } }

def icmpEchoReply (net : Net) (pkt : IpPkt n) : Except Fault (Net × ℤ) := do
  let size := sizeToInt (sizeSub (totalLength pkt) ipHeaderLen)
  let icmpPacket ← stale.icmpPacket.memcpy 0 pkt.data 0 (intToSize size)
  let icmpPacket := IcmpPkt.ofArr icmpPacket
  if icmpPacket.hdr.msgType ≠ echoRequest then return (net, -eUnsIcmpType)
  if icmpPacket.hdr.msgCode ≠ 0 then return (net, -eInvIcmpCode)
  let resultHdr : IpHdr :=
    { stale.result.hdr with
      ipProtocol := ipProtoIcmp
      ipSourceAddress := jhtonl myIp
      ipDestinationAddress := jhtonl hostIp }
  let resultData ← stale.result.data.memcpy 0 (echoed icmpPacket).toArr 0 (intToSize size)
  ipSend stale net ⟨resultHdr, resultData⟩ (intToSize size).toUInt16

def tcpRecv (st : Stack) (pkt : IpPkt n) : Except Fault (Stack × ℤ) :=
  let size := sizeSub (totalLength pkt) ipHeaderLen
  if size < tcpHeaderLen then .ok (st, -1)
  else do
    let tcpPkt ← stale.tcpPkt.memcpy 0 pkt.data 0 size
    let r ← tcpProcess (tcpSend stale) st.net st.tcpVc (TcpPkt.ofArr tcpPkt)
      (jntohl pkt.hdr.ipSourceAddress) (sizeSub size tcpHeaderLen).toUInt16
    .ok (⟨r.low, r.tab⟩, r.ret)

def withNet (st : Stack) (r : Except Fault (Net × ℤ)) : Except Fault (Stack × ℤ) := do
  let x ← r
  .ok ({ st with net := x.1 }, x.2)

def ipRecv (st : Stack) (pkt : IpPkt n) : Except Fault (Stack × ℤ) :=
  if pkt.hdr.ipVerlen ≠ ipVerLen then .ok (st, -eUnsVer)
  else
    let checksum := pkt.hdr.ipHeaderChecksum
    let pkt := { pkt with hdr := { pkt.hdr with ipHeaderChecksum := 0 } }
    if checksum ≠ ipChecksum pkt.hdr.bytes then .ok (st, -eInvChs)
    else if pkt.hdr.ipProtocol = ipProtoTcp then tcpRecv stale st pkt
    else if pkt.hdr.ipProtocol = ipProtoUdp then withNet st (udpRecv stale st.net pkt)
    else if pkt.hdr.ipProtocol = ipProtoIcmp then withNet st (icmpEchoReply stale st.net pkt)
    else .ok (st, 0)

def arpEthernet : UInt16 := 0x0001
def arpIpv4 : UInt16 := 0x0800
def arpRequest : UInt16 := 0x0001
def arpReplyOp : UInt16 := 0x0002

/-- The header of the reply, in network order. -/
def arpAnswer (h : ArpHdr) : ArpHdr :=
  { h with
    opcode := jhtons arpReplyOp
    hardwareType := jhtons h.hardwareType
    protocolType := jhtons h.protocolType
    targetMac := h.sourceMac
    targetIp := h.sourceIp
    sourceMac := getMyMac
    sourceIp := jhtonl myIp }

def arpReply (net : Net) (arpHeader : ArpHdr) : Except Fault (Net × ℤ) :=
  let arpHeader := arpAnswer arpHeader
  match getMacByIp net.arpTable arpHeader.targetIp with
  | none => .error .nullPointer
  | some mac => do
    let replyHeader : EthHdr :=
      { stale.replyHeader with ethDestinationMac := mac, ethType := jhtons ethTypeArp }
    let r ← ethSend stale net replyHeader (Arr.ofList arpHeaderLen arpHeader.bytes) arpHeaderLen
    if r.2 < 0 then .ok (r.1, -1) else .ok (r.1, 0)

def arpHost (h : ArpHdr) : ArpHdr :=
  { h with
    hardwareType := jntohs h.hardwareType
    protocolType := jntohs h.protocolType
    opcode := jntohs h.opcode
    targetIp := jntohl h.targetIp }

def arpResolve (net : Net) (arpHeader : ArpHdr) : Except Fault (Net × ℤ) :=
  let arpHeader := arpHost arpHeader
  if arpHeader.hardwareType ≠ arpEthernet then .ok (net, -1)
  else if arpHeader.protocolType ≠ arpIpv4 then .ok (net, -1)
  else
    -- a full table is reported and nothing else
    let net := { net with arpTable := (updateArpTable net.arpTable arpHeader).1 }
    if arpHeader.targetIp ≠ myIp then .ok (net, -1)
    else if arpHeader.opcode ≠ arpRequest then .ok (net, -1)
    else arpReply stale net arpHeader

/-- What `eth_recv` has got before it looks at the type: the card, and unless it returns at once, the header
and the caller's buffer. -/
def ethFetch (nic : Nic) (data : Arr n) : Except Fault (Nic × ℤ × Option (EthHdr × Arr n)) := do
  let (nic, buf, size) ← e1000Receive nic stale.recvBuf
  if size ≤ 0 then return (nic, size, none)
  let hdr ← (Arr.zero ethHeaderLen).memcpy 0 buf 0 ethHeaderLen
  let hdr := EthHdr.ofArr hdr
  -- the size counts the header, which has been left out
  let data ← data.memcpy 0 buf ethHeaderLen (intToSize size)
  return (nic, size, some ({ hdr with ethType := jntohs hdr.ethType }, data))

/-- The part of `eth_recv` that looks at the type. -/
def ethDispatch (st : Stack) (hdr : EthHdr) (data : Arr n) (size : ℤ) : Except Fault (Stack × ℤ) :=
  if hdr.ethType = ethTypeIp then do
    let r ← ipRecv stale st (IpPkt.ofArr data (n - ipHeaderLen))
    .ok (r.1, if r.2 < 0 then -1 else size)
  else if hdr.ethType = ethTypeArp then do
    let r ← arpResolve stale st.net (ArpHdr.ofArr data)
    .ok ({ st with net := r.1 }, if r.2 < 0 then -1 else size)
  else .ok (st, -eBadEthType)

def withNic (st : Stack) (nic : Nic) : Stack := { st with net := { st.net with nic := nic } }

def ethRecv (st : Stack) (data : Arr n) : Except Fault (Stack × Arr n × ℤ) := do
  let (nic, size, got) ← ethFetch stale st.net.nic data
  match got with
  | none => .ok (withNic st nic, data, size)
  | some (hdr, data) => do
    let r ← ethDispatch stale (withNic st nic) hdr data size
    .ok (r.1, data, r.2)

/-- The size of `buf` of `mon_eth_recv`. -/
def monBufSize : ℕ := 1000

lemma monBufSize_eq : monBufSize = 1000 := rfl

/-- One round of the loop of `mon_eth_recv`, once `e1000_listen` has returned; `buf` is what lies
in its buffer. -/
def monEthRecv (tracePackets : Bool) (st : Stack) (buf : Arr monBufSize) : Except Fault Stack := do
  let (st, buf, len) ← ethRecv stale st buf
  if tracePackets ∧ 0 ≤ len then
    -- the loop that prints the packet
    let _ ← buf.read 0 len.toNat
    return st
  return st

/-- A card that holds one frame and has room to send. -/
def nicHolding (frame : List UInt8) : Nic where
  tdt := 0
  txDescTable := fun _ => ⟨0, txdStatDD⟩
  txBuf := fun _ => Arr.zero _
  rdt := 0
  rxDescTable := fun _ => ⟨frame.length.toUInt16, rxdStatDD ||| rxdStatEOP⟩
  rxBuf := fun _ => Arr.ofList _ frame
  accepted := []

def bootStack (frame : List UInt8) : Stack :=
  ⟨⟨initializeArpTable zeroTable, 0, nicHolding frame⟩, bootVc⟩

/-- Locals that hold the byte `b` everywhere. -/
def staleFill (b : UInt8) : Stale where
  recvBuf := ⟨fun _ => b⟩
  tcpPkt := ⟨fun _ => b⟩
  icmpPacket := ⟨fun _ => b⟩
  upkt := ⟨fun _ => b⟩
  pkt := UdpPkt.ofArr ⟨fun _ => b⟩
  result := IpPkt.ofArr (⟨fun _ => b⟩ : Arr (ipHeaderLen + ipDataLen)) ipDataLen
  eHdr := EthHdr.ofArr (⟨fun _ => b⟩ : Arr ethHeaderLen)
  replyHeader := EthHdr.ofArr (⟨fun _ => b⟩ : Arr ethHeaderLen)
  sendBuf := ⟨fun _ => b⟩

end Jos.Recv
