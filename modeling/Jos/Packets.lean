import Jos.Inet

/-!
The packet structures of the stack, byte for byte.

A field holds the little-endian reading of its bytes, as the compiled code does: a number of
the protocol is the byte-swapped field. `bytes` lays a header out in memory and `ofArr` reads
one from memory.
-/

namespace Jos.Packets

open CArray Inet

def ethHeaderLen : ℕ := 14
def ethMaxPacketSize : ℕ := 1500
def e1000BufferSize : ℕ := 1518
def ipHeaderLen : ℕ := 20
def ipDataLen : ℕ := ethMaxPacketSize - ethHeaderLen - ipHeaderLen
def tcpHeaderLen : ℕ := 20
def tcpDataLen : ℕ := ipDataLen - tcpHeaderLen
def tcpWindowSize : ℕ := tcpDataLen * 10
def udpHeaderLen : ℕ := 8
def udpDataLength : ℕ := ipDataLen - udpHeaderLen
def icmpHeaderLen : ℕ := 8
def icmpDataLen : ℕ := ipDataLen - icmpHeaderLen

/-- The sizes as numbers, for the arithmetic of the copies. -/
lemma sizes : ethHeaderLen = 14 ∧ ethMaxPacketSize = 1500 ∧ e1000BufferSize = 1518 ∧
    ipHeaderLen = 20 ∧ ipDataLen = 1466 ∧ tcpHeaderLen = 20 ∧ tcpDataLen = 1446 ∧
    tcpWindowSize = 14460 ∧ udpHeaderLen = 8 ∧ udpDataLength = 1458 ∧ icmpHeaderLen = 8 ∧
    icmpDataLen = 1458 := by
  decide

def ethTypeIp : UInt16 := 0x0800
def ethTypeArp : UInt16 := 0x0806
def ipProtoIcmp : UInt8 := 1
def ipProtoUdp : UInt8 := 17
def ipProtoTcp : UInt8 := 6
def ipVerLen : UInt8 := 0x45
def ipTtl : UInt8 := 64
def myIp : UInt32 := 0xc0a87b02
def hostIp : UInt32 := 0xc0a87b01

abbrev Mac := Arr 6

variable {n : ℕ}

/-- The 16-bit field at position `off`. -/
def get16 (a : Arr n) (off : ℕ) : UInt16 := of16 (a.get off) (a.get (off + 1))

/-- The 32-bit field at position `off`. -/
def get32 (a : Arr n) (off : ℕ) : UInt32 :=
  of32 (a.get off) (a.get (off + 1)) (a.get (off + 2)) (a.get (off + 3))

structure EthHdr where
  ethDestinationMac : Mac
  ethSourceMac : Mac
  ethType : UInt16

def EthHdr.bytes (h : EthHdr) : List UInt8 :=
  h.ethDestinationMac.slice 0 6 ++ h.ethSourceMac.slice 0 6 ++ le16 h.ethType

def EthHdr.ofArr (a : Arr n) : EthHdr := ⟨a.sub 0 6, a.sub 6 6, get16 a 12⟩

structure IpHdr where
  ipVerlen : UInt8
  ipTos : UInt8
  ipTotalLength : UInt16
  ipId : UInt16
  ipFlagsOffset : UInt16
  ipTtl : UInt8
  ipProtocol : UInt8
  ipHeaderChecksum : UInt16
  ipSourceAddress : UInt32
  ipDestinationAddress : UInt32
  deriving DecidableEq

def IpHdr.bytes (h : IpHdr) : List UInt8 :=
  [h.ipVerlen, h.ipTos] ++ le16 h.ipTotalLength ++ le16 h.ipId ++ le16 h.ipFlagsOffset ++
    [h.ipTtl, h.ipProtocol] ++ le16 h.ipHeaderChecksum ++ le32 h.ipSourceAddress ++
    le32 h.ipDestinationAddress

def IpHdr.ofArr (a : Arr n) : IpHdr :=
  ⟨a.get 0, a.get 1, get16 a 2, get16 a 4, get16 a 6, a.get 8, a.get 9, get16 a 10, get32 a 12,
    get32 a 16⟩

/-- A header and the `n` bytes behind it: the `ipDataLen` of `struct ip_pkt`, or as many as a buffer has
left. -/
structure IpPkt (n : ℕ) where
  hdr : IpHdr
  data : Arr n

def IpPkt.toArr (p : IpPkt n) : Arr (ipHeaderLen + n) :=
  Arr.ofList _ (p.hdr.bytes ++ p.data.slice 0 n)

def IpPkt.ofArr {m : ℕ} (a : Arr m) (n : ℕ) : IpPkt n := ⟨IpHdr.ofArr a, a.sub ipHeaderLen n⟩

structure TcpHdr where
  srcPort : UInt16
  dstPort : UInt16
  seqNum : UInt32
  ackNum : UInt32
  ns : BitVec 1
  reserved : BitVec 3
  dataOffset : BitVec 4
  flags : UInt8
  winSize : UInt16
  checksum : UInt16
  urgent : UInt16
  deriving DecidableEq

def TcpHdr.bytes (h : TcpHdr) : List UInt8 :=
  le16 h.srcPort ++ le16 h.dstPort ++ le32 h.seqNum ++ le32 h.ackNum ++
    [UInt8.ofBitVec (h.dataOffset ++ h.reserved ++ h.ns), h.flags] ++ le16 h.winSize ++
    le16 h.checksum ++ le16 h.urgent

def TcpHdr.ofArr (a : Arr n) : TcpHdr :=
  ⟨get16 a 0, get16 a 2, get32 a 4, get32 a 8, (a.get 12).toBitVec.extractLsb' 0 1,
    (a.get 12).toBitVec.extractLsb' 1 3, (a.get 12).toBitVec.extractLsb' 4 4, a.get 13, get16 a 14,
    get16 a 16, get16 a 18⟩

def TcpHdr.zero : TcpHdr := ⟨0, 0, 0, 0, 0, 0, 0, 0, 0, 0, 0⟩

structure TcpPkt where
  hdr : TcpHdr
  data : Arr tcpDataLen

def TcpPkt.zero : TcpPkt := ⟨TcpHdr.zero, Arr.zero _⟩

def TcpPkt.toArr (p : TcpPkt) : Arr ipDataLen :=
  Arr.ofList _ (p.hdr.bytes ++ p.data.slice 0 tcpDataLen)

def TcpPkt.ofArr (a : Arr ipDataLen) : TcpPkt := ⟨TcpHdr.ofArr a, a.sub tcpHeaderLen tcpDataLen⟩

structure UdpHdr where
  sourcePort : UInt16
  destinationPort : UInt16
  length : UInt16
  checksum : UInt16
  deriving DecidableEq

def UdpHdr.bytes (h : UdpHdr) : List UInt8 :=
  le16 h.sourcePort ++ le16 h.destinationPort ++ le16 h.length ++ le16 h.checksum

def UdpHdr.ofArr (a : Arr n) : UdpHdr := ⟨get16 a 0, get16 a 2, get16 a 4, get16 a 6⟩

structure UdpPkt where
  hdr : UdpHdr
  data : Arr udpDataLength

def UdpPkt.toArr (p : UdpPkt) : Arr ipDataLen :=
  Arr.ofList _ (p.hdr.bytes ++ p.data.slice 0 udpDataLength)

def UdpPkt.ofArr (a : Arr ipDataLen) : UdpPkt :=
  ⟨UdpHdr.ofArr a, a.sub udpHeaderLen udpDataLength⟩

structure IcmpHdr where
  msgType : UInt8
  msgCode : UInt8
  checksum : UInt16
  id : UInt16
  sequenceNumber : UInt16
  deriving DecidableEq

def IcmpHdr.bytes (h : IcmpHdr) : List UInt8 :=
  [h.msgType, h.msgCode] ++ le16 h.checksum ++ le16 h.id ++ le16 h.sequenceNumber

def IcmpHdr.ofArr (a : Arr n) : IcmpHdr := ⟨a.get 0, a.get 1, get16 a 2, get16 a 4, get16 a 6⟩

structure IcmpPkt where
  hdr : IcmpHdr
  data : Arr icmpDataLen

def IcmpPkt.toArr (p : IcmpPkt) : Arr ipDataLen :=
  Arr.ofList _ (p.hdr.bytes ++ p.data.slice 0 icmpDataLen)

def IcmpPkt.ofArr (a : Arr ipDataLen) : IcmpPkt :=
  ⟨IcmpHdr.ofArr a, a.sub icmpHeaderLen icmpDataLen⟩

structure ArpHdr where
  hardwareType : UInt16
  protocolType : UInt16
  hardwareAddressLength : UInt8
  protocolAddressLength : UInt8
  opcode : UInt16
  sourceMac : Mac
  sourceIp : UInt32
  targetMac : Mac
  targetIp : UInt32

def ArpHdr.bytes (h : ArpHdr) : List UInt8 :=
  le16 h.hardwareType ++ le16 h.protocolType ++
    [h.hardwareAddressLength, h.protocolAddressLength] ++ le16 h.opcode ++
    h.sourceMac.slice 0 6 ++ le32 h.sourceIp ++ h.targetMac.slice 0 6 ++ le32 h.targetIp

def ArpHdr.ofArr (a : Arr n) : ArpHdr :=
  ⟨get16 a 0, get16 a 2, a.get 4, a.get 5, get16 a 6, a.sub 8 6, get32 a 14, a.sub 18 6,
    get32 a 24⟩

/-- `sizeof(struct arp_hdr)` -/
def arpHeaderLen : ℕ := 28

@[simp] lemma EthHdr.length_bytes (h : EthHdr) : h.bytes.length = ethHeaderLen := by
  simp [EthHdr.bytes, ethHeaderLen]

@[simp] lemma IpHdr.length_bytes (h : IpHdr) : h.bytes.length = ipHeaderLen := by
  simp [IpHdr.bytes, ipHeaderLen]

@[simp] lemma TcpHdr.length_bytes (h : TcpHdr) : h.bytes.length = tcpHeaderLen := by
  simp [TcpHdr.bytes, tcpHeaderLen]

@[simp] lemma UdpHdr.length_bytes (h : UdpHdr) : h.bytes.length = udpHeaderLen := by
  simp [UdpHdr.bytes, udpHeaderLen]

@[simp] lemma IcmpHdr.length_bytes (h : IcmpHdr) : h.bytes.length = icmpHeaderLen := by
  simp [IcmpHdr.bytes, icmpHeaderLen]

@[simp] lemma ArpHdr.length_bytes (h : ArpHdr) : h.bytes.length = arpHeaderLen := by
  simp [ArpHdr.bytes, arpHeaderLen]

variable {m : ℕ} {a : Arr n} {b : Arr m}

lemma get16_congr {off : ℕ} (h : ∀ k < off + 2, a.get k = b.get k) : get16 a off = get16 b off := by
  unfold get16; rw [h _ (by omega), h _ (by omega)]

lemma get32_congr {off : ℕ} (h : ∀ k < off + 4, a.get k = b.get k) : get32 a off = get32 b off := by
  unfold get32; rw [h _ (by omega), h _ (by omega), h _ (by omega), h _ (by omega)]

lemma sub_congr {off len : ℕ} (h : ∀ k < off + len, a.get k = b.get k) : a.sub off len = b.sub off len :=
  Arr.ext_get fun k hk => by rw [Arr.get_sub _ _ hk, Arr.get_sub _ _ hk, h _ (by omega)]

end Jos.Packets
