import Jos.Http
import Jos.Ip
import Jos.Runs

/-!
The TCP of `tcp.c`: a table of 64 channels, each with its state machine, and the sending of a
segment.

`tcpProcess` is written over the layer that sends, which it calls at most once in a step. Besides the
new table and the return value a step yields the events that happen in it, in order: the copy
into the receive buffer, the call of the HTTP server and the call of `tcp_send`.
-/

namespace Jos.TcpModel

open CArray Inet Packets Http Ip

inductive TcpState
  | closed
  | listen
  | synSent
  | synReceived
  | established
  | finWait1
  | closing
  | finWait2
  | timeWait
  | closeWait
  | lastAck
  deriving DecidableEq, Repr

structure Endpoint where
  ip : UInt32
  port : UInt16
  deriving DecidableEq

structure AckSeq where
  seqNum : UInt32
  ackNum : UInt32
  deriving DecidableEq

@[ext] structure Channel where
  state : TcpState
  hostSide : Endpoint
  guestSide : Endpoint
  ackSeq : AckSeq
  buffer : Arr tcpWindowSize
  dataLen : UInt32

/-- `TCP_VC_NUM` channels. -/
abbrev Table := Fin 64 → Channel

def zeroVc : Table := fun _ => ⟨.closed, ⟨0, 0⟩, ⟨0, 0⟩, ⟨0, 0⟩, Arr.zero _, 0⟩

def tcpInitVc (tab : Table) : Table := fun i =>
  { tab i with
    state := .listen
    -- channel `0` is for browsers, channel `i` has port `i`
    hostSide := ⟨myIp, if i = 0 then 80 else i.val.toUInt16⟩
    guestSide := ⟨hostIp, 8080⟩ }

def bootVc : Table := tcpInitVc zeroVc

/-- The headers `tcp_send` fills in: the segment before its checksum is known. -/
def sendHdr (channel : Channel) (hdr : TcpHdr) : TcpHdr :=
  { hdr with
    seqNum := jhtonl channel.ackSeq.seqNum
    ackNum := jhtonl channel.ackSeq.ackNum
    srcPort := jhtons channel.hostSide.port
    dstPort := jhtons channel.guestSide.port
    winSize := jhtons tcpWindowSize.toUInt16
    checksum := 0 }

def sendIpHdr (channel : Channel) : IpHdr :=
  { ipVerlen := 0, ipTos := 0, ipTotalLength := 0, ipId := 0, ipFlagsOffset := 0, ipTtl := 0
    ipProtocol := ipProtoTcp
    ipHeaderChecksum := 0
    ipSourceAddress := jhtonl channel.hostSide.ip
    ipDestinationAddress := jhtonl channel.guestSide.ip }

/-- The bytes `tcp_send` computes the checksum over. -/
def checksumBuf (channel : Channel) (pkt : TcpPkt) (dataLength : ℕ) :
    Except Fault (List UInt8) := do
  let hdr := sendIpHdr channel
  let buf ← (Arr.zero (ipDataLen + 12)).memcpy 12 pkt.toArr 0 dataLength
  let buf ← buf.write 0 (le32 hdr.ipSourceAddress)
  let buf ← buf.write 4 (le32 hdr.ipDestinationAddress)
  let buf ← buf.write 8 [0]
  let buf ← buf.write 9 [hdr.ipProtocol]
  -- the length is copied as a `uint32_t`, so two zero bytes go over the source port
  let networkDataLength := (jhtons dataLength.toUInt16).toUInt32
  let buf ← buf.write 10 (le32 networkDataLength)
  buf.read 0 (dataLength + 12)

/-- The packet `tcp_send` hands to `ip_send`. -/
def tcpSegment (channel : Channel) (pkt : TcpPkt) (length : ℕ) :
    Except Fault (IpPkt ipDataLen) := do
  let dataLength := tcpHeaderLen + length
  let pkt := { pkt with hdr := sendHdr channel pkt.hdr }
  let bytes ← checksumBuf channel pkt dataLength
  let checksum := jhtons (jntohs (ipChecksum bytes) - channel.hostSide.port)
  let pkt := { pkt with hdr := { pkt.hdr with checksum := checksum } }
  let data ← (Arr.zero ipDataLen).memcpy 0 pkt.toArr 0 dataLength
  .ok ⟨sendIpHdr channel, data⟩

def tcpSend (stale : Stale) (net : Net) (channel : Channel) (pkt : TcpPkt) (length : ℕ) :
    Except Fault (Net × ℤ) := do
  let result ← tcpSegment channel pkt length
  ipSend stale net result (tcpHeaderLen + length).toUInt16

def thFin : UInt8 := 0x01
def thSyn : UInt8 := 0x02
def thPsh : UInt8 := 0x08
def thAck : UInt8 := 0x10

abbrev Send (σ : Type) := σ → Channel → TcpPkt → ℕ → Except Fault (σ × ℤ)

inductive Event
  /-- `memcpy(vc->buffer + off, pkt->data, len)` -/
  | copy (off len : ℕ)
  /-- `http_parse(data, length, ...)` -/
  | parse (data : Arr tcpWindowSize) (length : ℕ)
  /-- `tcp_send(vc, pkt, length)` -/
  | send (vc : Channel) (pkt : TcpPkt) (length : ℕ)

structure Outcome (σ : Type) where
  low : σ
  vc : Channel
  ret : ℤ
  events : List Event

def hasFlag (pkt : TcpPkt) (flag : UInt8) : Bool := pkt.hdr.flags &&& flag ≠ 0

def matchTcpVc (tab : Table) (pkt : TcpPkt) : Option (Fin 64) :=
  (List.finRange 64).find? fun i => (tab i).hostSide.port = jntohs pkt.hdr.dstPort

def matchListenIp (_ : Channel) (_ : UInt32) : Bool := true

def checkAckSeq (vc : Channel) (hdr : TcpHdr) : Bool :=
  jntohl hdr.seqNum = vc.ackSeq.ackNum ∧ jntohl hdr.ackNum = vc.ackSeq.seqNum

/-- The packet of `tcp_send_ack`. -/
def ackPkt (flags : UInt8) : TcpPkt :=
  { TcpPkt.zero with hdr := { TcpHdr.zero with dataOffset := 5, flags := flags ||| thAck } }

variable {σ : Type} (send : Send σ) (s : σ)

def tcpSendAck (vc : Channel) (flags : UInt8) : Except Fault (σ × ℤ) := send s vc (ackPkt flags) 0

/-- The jump to `error`. -/
def reject (vc : Channel) : Except Fault (Outcome σ) := .ok ⟨s, vc, -1, []⟩

def synChannel (vc : Channel) (pkt : TcpPkt) (srcIp : UInt32) : Channel :=
  { vc with
    guestSide := ⟨srcIp, jntohs pkt.hdr.srcPort⟩
    ackSeq := ⟨jntohl pkt.hdr.seqNum, jntohl pkt.hdr.seqNum + 1⟩ }

def tcpListen (vc : Channel) (pkt : TcpPkt) (srcIp : UInt32) : Except Fault (Outcome σ) :=
  if hasFlag pkt thSyn then
    if matchListenIp vc srcIp then do
      let vc := synChannel vc pkt srcIp
      let r ← tcpSendAck send s vc thSyn
      -- the result of the send is not looked at
      .ok ⟨r.1, { vc with
          ackSeq := { vc.ackSeq with seqNum := vc.ackSeq.seqNum + 1 }
          state := .synReceived }, 0, [.send vc (ackPkt thSyn) 0]⟩
    else reject s vc
  else reject s vc

def tcpSynReceived (vc : Channel) (pkt : TcpPkt) (srcIp : UInt32) : Except Fault (Outcome σ) :=
  if hasFlag pkt thAck then
    if srcIp ≠ vc.guestSide.ip then reject s vc
    else if !checkAckSeq vc pkt.hdr then reject s vc
    else .ok ⟨s, { vc with state := .established }, 0, []⟩
  else reject s vc

def dataPkt (data : Arr tcpDataLen) : TcpPkt :=
  { hdr := { TcpHdr.zero with dataOffset := 5, flags := thAck ||| thPsh ||| thFin }, data := data }

def stored (vc : Channel) (buffer : Arr tcpWindowSize) (len : UInt16) : Channel :=
  { vc with
    buffer := buffer
    dataLen := vc.dataLen + len.toUInt32
    ackSeq := { vc.ackSeq with ackNum := vc.ackSeq.ackNum + len.toUInt32 } }

def replied (vc : Channel) (replyLen : ℕ) : Channel :=
  { vc with
    ackSeq := { vc.ackSeq with seqNum := vc.ackSeq.seqNum + (replyLen + 1).toUInt32 }
    dataLen := 0
    state := .closeWait }

/-- A segment pushed to the application: the HTTP server answers. -/
def tcpReply (vc : Channel) (copied : Event) : Except Fault (Outcome σ) := do
  let reply ← httpParse vc.buffer vc.dataLen.toNat (Arr.zero tcpDataLen)
  let r ← send s vc (dataPkt reply.1) reply.2
  let events := [copied, .parse vc.buffer vc.dataLen.toNat, .send vc (dataPkt reply.1) reply.2]
  if r.2 = -1 then .ok ⟨r.1, vc, -1, events⟩
  else .ok ⟨r.1, replied vc reply.2, 0, events⟩

def tcpEstablished (vc : Channel) (pkt : TcpPkt) (srcIp : UInt32) (len : UInt16) :
    Except Fault (Outcome σ) :=
  if hasFlag pkt thAck then
    if srcIp ≠ vc.guestSide.ip then reject s vc
    else if !checkAckSeq vc pkt.hdr then reject s vc
    else if tcpWindowSize ≤ (vc.dataLen + len.toUInt32).toNat then reject s vc
    else do
      let copied := Event.copy vc.dataLen.toNat len.toNat
      let buffer ← vc.buffer.memcpy vc.dataLen.toNat pkt.data 0 len.toNat
      let vc := stored vc buffer len
      if hasFlag pkt thPsh then tcpReply send s vc copied
      else if len ≠ 0 then
        let r ← tcpSendAck send s vc 0
        .ok ⟨r.1, vc, 0, [copied, .send vc (ackPkt 0) 0]⟩
      else .ok ⟨s, vc, 0, [copied]⟩
  else reject s vc

def tcpCloseWait (vc : Channel) (pkt : TcpPkt) (srcIp : UInt32) : Except Fault (Outcome σ) :=
  if hasFlag pkt thAck then
    if hasFlag pkt thFin then
      if srcIp ≠ vc.guestSide.ip then reject s vc
      else if !checkAckSeq vc pkt.hdr then reject s vc
      else do
        let vc := { vc with ackSeq := { vc.ackSeq with ackNum := vc.ackSeq.ackNum + 1 } }
        let r ← tcpSendAck send s vc 0
        .ok ⟨r.1, { vc with state := .listen }, 0, [.send vc (ackPkt 0) 0]⟩
    else .ok ⟨s, vc, 0, []⟩
  else reject s vc

/-- The switch of `tcp_process`. -/
def tcpState (vc : Channel) (pkt : TcpPkt) (srcIp : UInt32) (len : UInt16) :
    Except Fault (Outcome σ) :=
  match vc.state with
  | .listen => tcpListen send s vc pkt srcIp
  | .synReceived => tcpSynReceived s vc pkt srcIp
  | .established => tcpEstablished send s vc pkt srcIp len
  | .closeWait => tcpCloseWait send s vc pkt srcIp
  -- the other states are not implemented
  | _ => .ok ⟨s, vc, 0, []⟩

structure Result (σ : Type) where
  low : σ
  tab : Table
  ret : ℤ
  events : List Event

def tcpProcess (tab : Table) (pkt : TcpPkt) (srcIp : UInt32) (len : UInt16) :
    Except Fault (Result σ) :=
  match matchTcpVc tab pkt with
  -- the error exit prints `vc->state`
  | none => .error .nullPointer
  | some i => do
    let o ← tcpState send s (tab i) pkt srcIp len
    .ok ⟨o.low, Function.update tab i o.vc, o.ret, o.events⟩

end Jos.TcpModel
