import Jos.Determined
import Jos.HandlerSafety

/-!
Whether memory that is left over gets into an answer.

Two rounds of the monitor receive the same frame in the same state. They differ in what lies in
the uninitialized locals, in the buffers of `eth_recv` and of the monitor, and in the buffer of
the card behind the frame. `eth_recv` copies 14 bytes from behind the frame as well.
-/

namespace Jos.StaleMemory

open CArray Inet Packets E1000 Http Ip Runs TcpStep TcpInv Recv RecvBounds RecvSpec Response Determined Nat
  Arr

def frame (nic : Nic) : List UInt8 := (nic.rxBuf nic.rxTail).slice 0 nic.rxLen

/-- The stacks are in the same state and receive the same frame. -/
structure SameInput (st st' : Stack) : Prop where
  shared : shared st = shared st'
  room : TxFull st.net.nic ↔ TxFull st'.net.nic
  ready : Ready st.net.nic ↔ Ready st'.net.nic
  frame : frame st.net.nic = frame st'.net.nic

/-- A round that ends in a fault is taken to send nothing; `NoStaleMemory` asks about such rounds apart from this. -/
def responses (stale : Stale) (tracePackets : Bool) (st : Stack) (buf : Arr monBufSize) :
    List (List UInt8) :=
  sent st.net.nic (fun st : Stack => st.net.nic) (monEthRecv stale tracePackets st buf)

/-- **No stale memory is sent out** in response to the frame: no round with it leaves an array, behind which anything
may be read and sent, and the responses are the same. -/
def NoStaleMemory (st : Stack) : Prop :=
  ∀ (stale stale' : Stale) (tracePackets tracePackets' : Bool) (st' : Stack)
    (buf buf' : Arr monBufSize), SameInput st st' →
    monEthRecv stale' tracePackets' st' buf' ≠ .error .outOfBounds ∧
      responses stale tracePackets st buf = responses stale' tracePackets' st' buf'

def frameData (nic : Nic) : Arr monBufSize :=
  Arr.ofList _ ((nic.rxBuf nic.rxTail).slice ethHeaderLen (nic.rxLen - ethHeaderLen))

def frameType (nic : Nic) : UInt16 := jntohs (get16 (nic.rxBuf nic.rxTail) 12)

def framePkt (nic : Nic) : IpPkt (monBufSize - ipHeaderLen) := IpPkt.ofArr (frameData nic) _

/-- Unless no answer can be sent, the headers lie in the frame, and an IP packet does with all that it says.
-/
def FrameContained (st : Stack) : Prop :=
  Arrives st.net.nic → ¬TxFull st.net.nic → ethHeaderLen ≤ st.net.nic.rxLen ∧
    if frameType st.net.nic = ethTypeIp then
      ethHeaderLen + ipHeaderLen ≤ st.net.nic.rxLen ∧
        PacketContained (shared st) (framePkt st.net.nic) (st.net.nic.rxLen - ethHeaderLen)
    else frameType st.net.nic = ethTypeArp → ethHeaderLen + arpHeaderLen ≤ st.net.nic.rxLen

/-- The frame fits in the buffer, and the lengths that it claims are those the handlers can take. -/
def FrameBounded (nic : Nic) : Prop :=
  Ready nic → nic.rxLen ≤ monBufSize ∧ (0 < nic.rxLen → ethHeaderLen ≤ nic.rxLen ∧
    (frameType nic = ethTypeIp → ethHeaderLen + ipHeaderLen ≤ nic.rxLen ∧
      (Dispatched (framePkt nic) → LengthOk (framePkt nic) ∧
        ((framePkt nic).hdr.ipProtocol = ipProtoUdp →
          DatagramBounded (framePkt nic) (nic.rxLen - ethHeaderLen)))))

variable {st st' : Stack} {nic : Nic} {stale : Stale}

def Carries (nic : Nic) (data : Arr monBufSize) : Prop :=
  ∀ i, ethHeaderLen + i < nic.rxLen → data.get i = (nic.rxBuf nic.rxTail).get (ethHeaderLen + i)

section

variable (hN : nic.rxLen ≤ monBufSize)
include hN

lemma received_get {i : ℕ} (hi : i < nic.rxLen) : (received stale nic).get i = (nic.rxBuf nic.rxTail).get i := by
  have hsz := sizes
  have h2 := monBufSize_eq
  rw [received, get_splice_inside _ (by omega) (Nat.zero_le i) (by simpa using hi), Nat.sub_zero,
    getD_slice _ _ _ _ hi, zero_add]

lemma fetchedHdr_ethType (h : ethHeaderLen ≤ nic.rxLen) : (fetchedHdr stale nic).ethType = frameType nic := by
  have hsz := sizes
  have hget : ∀ i < ethHeaderLen, ((zero ethHeaderLen).splice 0
      ((received stale nic).slice 0 ethHeaderLen)).get i = (nic.rxBuf nic.rxTail).get i := by
    intro i hi
    rw [get_splice_inside _ hi (Nat.zero_le i) (by simpa using hi), Nat.sub_zero,
      getD_slice _ _ _ _ hi, zero_add, received_get hN (by omega)]
  show jntohs (get16 _ 12) = jntohs (get16 _ 12)
  rw [get16_congr fun i hi => hget i (by omega)]

lemma fetched_carries (buf : Arr monBufSize) : Carries nic (fetched stale nic buf) := by
  intro i hi
  rw [fetched, get_splice_inside _ (by omega) (Nat.zero_le i) (by simp; omega), Nat.sub_zero,
    getD_slice _ _ _ _, received_get hN hi]

lemma frameData_carries : Carries nic (frameData nic) := by
  intro i hi
  rw [frameData, get_ofList _ (by omega), getD_slice _ _ _ _]

lemma exists_fetched (stale : Stale) {data : Arr monBufSize}
    (h : Carries nic data) : ∃ recvBuf, fetched { stale with recvBuf := recvBuf } nic data = data := by
  have hsz := sizes
  have h2 := monBufSize_eq
  refine ⟨⟨fun i => data.get (i - ethHeaderLen)⟩, ext_get fun i hi => ?_⟩
  rw [fetched, get_splice]
  split
  · rename_i hin
    rw [length_slice] at hin
    rw [Nat.sub_zero, getD_slice _ _ _ _]
    by_cases hlt : ethHeaderLen + i < nic.rxLen
    · rw [received_get hN hlt, h i hlt]
    · rw [received, get_splice_outside _ (.inr (by simpa using hlt)), get_of_lt _ (by omega)]
      show data.get (ethHeaderLen + i - ethHeaderLen) = data.get i
      rw [Nat.add_sub_cancel_left]
  · rfl

end

/-- **The frame determines its answer**, whatever is left over. -/
def FrameDetermines (st : Stack) : Prop :=
  ∀ stale stale' data data', Carries st.net.nic data → Carries st.net.nic data' →
    frameAnswer stale (shared st) (frameType st.net.nic) data =
      frameAnswer stale' (shared st) (frameType st.net.nic) data'

lemma responses_eq (harr : Arrives st.net.nic) (hroom : ¬TxFull st.net.nic)
    (h : ethHeaderLen ≤ st.net.nic.rxLen) (tracePackets : Bool) (buf : Arr monBufSize) :
    responses stale tracePackets st buf = (frameAnswer stale (shared st) (frameType st.net.nic)
        (fetched stale st.net.nic buf)).toList := by
  rw [responses, monEthRecv_sent, if_pos harr, emit, if_neg hroom, fetchedHdr_ethType harr.2.2 h]

lemma responses_nil (h : ¬Arrives st.net.nic ∨ TxFull st.net.nic) (tracePackets : Bool)
    (buf : Arr monBufSize) : responses stale tracePackets st buf = [] := by
  rw [responses, monEthRecv_sent]
  by_cases harr : Arrives st.net.nic
  · rw [if_pos harr, emit, if_pos (h.resolve_left (not_not.mpr harr))]
  · rw [if_neg harr]

lemma SameInput.rxLen (h : SameInput st st') : st.net.nic.rxLen = st'.net.nic.rxLen := by
  have := congrArg List.length h.frame
  rwa [StaleMemory.frame, StaleMemory.frame, length_slice, length_slice] at this

lemma SameInput.byte (h : SameInput st st') {i : ℕ} (hi : i < st.net.nic.rxLen) :
    (st.net.nic.rxBuf st.net.nic.rxTail).get i = (st'.net.nic.rxBuf st'.net.nic.rxTail).get i := by
  have hb := congrArg (·[i]?) h.frame
  unfold StaleMemory.frame at hb
  rw [getElem?_slice _ _ hi, getElem?_slice _ _ (h.rxLen ▸ hi), zero_add] at hb
  exact Option.some.inj hb

lemma SameInput.arrives (h : SameInput st st') : Arrives st.net.nic ↔ Arrives st'.net.nic := by
  unfold Arrives
  rw [h.ready, h.rxLen]

lemma SameInput.refl (st : Stack) : SameInput st st := ⟨rfl, Iff.rfl, Iff.rfl, rfl⟩

lemma SameInput.frameType (h : SameInput st st') (hlen : ethHeaderLen ≤ st.net.nic.rxLen) :
    frameType st.net.nic = frameType st'.net.nic := by
  have hsz := sizes
  unfold StaleMemory.frameType get16
  rw [h.byte (by omega), h.byte (by omega)]

lemma SameInput.carries (h : SameInput st st') (hle : st.net.nic.rxLen ≤ monBufSize) (stale : Stale)
    (buf : Arr monBufSize) : Carries st.net.nic (fetched stale st'.net.nic buf) := fun i hi => by
  have hlen := h.rxLen
  rw [fetched_carries (by omega) buf i (by omega), h.byte hi]

lemma responses_of_determines (hin : SameInput st st') (h : Arrives st.net.nic → ¬TxFull st.net.nic →
      ethHeaderLen ≤ st.net.nic.rxLen ∧ FrameDetermines st) (stale stale' : Stale) (tracePackets tracePackets' : Bool)
    (buf buf' : Arr monBufSize) :
    responses stale tracePackets st buf = responses stale' tracePackets' st' buf' := by
  by_cases hok : Arrives st.net.nic ∧ ¬TxFull st.net.nic
  · obtain ⟨harr, hroom⟩ := hok
    obtain ⟨hlen, hdet⟩ := h harr hroom
    have harr' := hin.arrives.mp harr
    have hlen' := hin.rxLen
    rw [responses_eq harr hroom hlen, responses_eq harr' (fun hf => hroom (hin.room.mpr hf)) (by omega),
      ← hin.shared, ← hin.frameType hlen,
      hdet stale stale' _ _ (fetched_carries harr.2.2 buf) (hin.carries harr.2.2 stale' buf')]
  · have hno : ¬Arrives st.net.nic ∨ TxFull st.net.nic := by tauto
    rw [responses_nil hno, responses_nil (hno.imp (mt hin.arrives.mpr) hin.room.mp)]

lemma determines_of_noStaleMemory (harr : Arrives st.net.nic) (hroom : ¬TxFull st.net.nic)
    (hlen : ethHeaderLen ≤ st.net.nic.rxLen) (h : NoStaleMemory st) : FrameDetermines st := by
  intro stale stale' data data' hc hc'
  obtain ⟨r, hr⟩ := exists_fetched harr.2.2 stale hc
  obtain ⟨r', hr'⟩ := exists_fetched harr.2.2 stale' hc'
  have hsame := (h { stale with recvBuf := r } { stale' with recvBuf := r' } false false st data data'
    (SameInput.refl st)).2
  rw [responses_eq harr hroom hlen, responses_eq harr hroom hlen, hr, hr'] at hsame
  have hhead := congrArg List.head? hsame
  rwa [Option.head?_toList, Option.head?_toList] at hhead

lemma ipHdr_ofArr_congr {m n : ℕ} {a : Arr m} {b : Arr n} (h : ∀ j < ipHeaderLen, a.get j = b.get j) :
    IpHdr.ofArr a = IpHdr.ofArr b := by
  have hsz := sizes
  unfold IpHdr.ofArr
  rw [h 0 (by omega), h 1 (by omega), get16_congr fun j hj => h j (by omega),
    get16_congr fun j hj => h j (by omega), get16_congr fun j hj => h j (by omega), h 8 (by omega),
    h 9 (by omega), get16_congr fun j hj => h j (by omega), get32_congr fun j hj => h j (by omega),
    get32_congr fun j hj => h j (by omega)]

lemma arpHdr_ofArr_congr {m n : ℕ} {a : Arr m} {b : Arr n} (h : ∀ j < arpHeaderLen, a.get j = b.get j) :
    ArpHdr.ofArr a = ArpHdr.ofArr b := by
  have h1 : arpHeaderLen = 28 := rfl
  unfold ArpHdr.ofArr
  rw [get16_congr fun j hj => h j (by omega), get16_congr fun j hj => h j (by omega), h 4 (by omega),
    h 5 (by omega), get16_congr fun j hj => h j (by omega), sub_congr fun j hj => h j (by omega),
    get32_congr fun j hj => h j (by omega), sub_congr fun j hj => h j (by omega),
    get32_congr fun j hj => h j (by omega)]

lemma agree_of_carries (hN : nic.rxLen ≤ monBufSize) (hlen : ethHeaderLen + ipHeaderLen ≤ nic.rxLen)
    {data : Arr monBufSize} (h : Carries nic data) :
    Agree (nic.rxLen - ethHeaderLen) (framePkt nic) (IpPkt.ofArr data _) where
  hdr := ipHdr_ofArr_congr fun j hj => by
    rw [frameData_carries hN j (by omega), h j (by omega)]
  data := fun i hi => by
    show ((frameData nic).sub _ _).get i = (data.sub _ _).get i
    rw [get_sub _ _ (by omega), get_sub _ _ (by omega), frameData_carries hN _ (by omega), h _ (by omega)]

lemma exists_carries (hN : nic.rxLen ≤ monBufSize) {pkt : IpPkt (monBufSize - ipHeaderLen)}
    (h : Agree (nic.rxLen - ethHeaderLen) (framePkt nic) pkt) :
    ∃ data, Carries nic data ∧ IpPkt.ofArr data _ = pkt := by
  refine ⟨(frameData nic).splice ipHeaderLen (pkt.data.slice 0 (monBufSize - ipHeaderLen)), ?_, ?_⟩
  · intro i hi
    rw [← frameData_carries hN i hi]
    by_cases hlt : i < ipHeaderLen
    · rw [get_splice_outside _ (.inl hlt)]
    · have hdata := h.data (i - ipHeaderLen) (by omega)
      rw [get_splice_inside _ (by omega) (by omega) (by simp; omega), getD_slice _ _ _ _, zero_add, ← hdata]
      show ((frameData nic).sub _ _).get _ = _
      rw [get_sub _ _ (by omega), show ipHeaderLen + (i - ipHeaderLen) = i by omega]
  · obtain ⟨hdr, data⟩ := pkt
    obtain rfl : IpHdr.ofArr (frameData nic) = hdr := h.hdr
    have hhdr : IpHdr.ofArr ((frameData nic).splice ipHeaderLen
        (data.slice 0 (monBufSize - ipHeaderLen))) = IpHdr.ofArr (frameData nic) :=
      ipHdr_ofArr_congr fun j hj => get_splice_outside _ (.inl hj)
    have hdata : ((frameData nic).splice ipHeaderLen
        (data.slice 0 (monBufSize - ipHeaderLen))).sub ipHeaderLen _ = data :=
      ext_get fun j hj => by
        rw [get_sub _ _ hj, get_splice_inside _ (by omega) (by omega) (by simp; omega),
          Nat.add_sub_cancel_left, getD_slice _ _ _ _, Nat.zero_add]
    rw [IpPkt.ofArr, hhdr, hdata]

lemma frameDetermines_ip_iff (hN : st.net.nic.rxLen ≤ monBufSize)
    (hlen : ethHeaderLen + ipHeaderLen ≤ st.net.nic.rxLen)
    (htype : frameType st.net.nic = ethTypeIp) :
    FrameDetermines st ↔ Determines ipAnswer (shared st) (st.net.nic.rxLen - ethHeaderLen) (framePkt st.net.nic) := by
  have hans : ∀ (s : Stale) (data : Arr monBufSize), frameAnswer s (shared st)
      (frameType st.net.nic) data = ipAnswer s (shared st) (IpPkt.ofArr data _) :=
    fun s data => if_pos htype
  unfold FrameDetermines
  simp only [hans]
  constructor
  · intro h stale stale' pkt hag
    obtain ⟨data, hc, rfl⟩ := exists_carries hN hag
    exact h stale stale' (frameData st.net.nic) data (frameData_carries hN) hc
  · intro h stale stale' data data' hc hc'
    rw [← h stale stale _ (agree_of_carries hN hlen hc), ← h stale stale' _ (agree_of_carries hN hlen hc')]

lemma frameDetermines_arp (hlen : ethHeaderLen + arpHeaderLen ≤ st.net.nic.rxLen)
    (htype : frameType st.net.nic = ethTypeArp) : FrameDetermines st := by
  intro stale stale' data data' hc hc'
  have hhdr : ArpHdr.ofArr data = ArpHdr.ofArr data' :=
    arpHdr_ofArr_congr fun j hj => by rw [hc j (by omega), hc' j (by omega)]
  have hip : frameType st.net.nic ≠ ethTypeIp := by
    rw [htype]
    decide
  unfold frameAnswer
  rw [if_neg hip, if_pos htype, if_neg hip, if_pos htype, hhdr]

lemma inBounds_of_bounded (hinv : TableInv st.tcpVc) (hb : FrameBounded st.net.nic) (hin : SameInput st st')
    (stale : Stale) (tracePackets : Bool) (buf : Arr monBufSize) :
    monEthRecv stale tracePackets st' buf ≠ .error .outOfBounds := by
  have hlen' := hin.rxLen
  by_cases hready : Ready st'.net.nic
  swap
  · rw [monEthRecv_none (ethFetch_idle stale hready buf)]
    nofun
  obtain ⟨hle, hb⟩ := hb (hin.ready.mpr hready)
  rcases Nat.eq_zero_or_pos st'.net.nic.rxLen with h0 | h0
  · rw [monEthRecv_none (ethFetch_empty stale hready h0 buf)]
    nofun
  obtain ⟨heth, hb⟩ := hb (by omega)
  rw [monEthRecv_some (ethFetch_fetched hready h0 (by omega)) (by omega)]
  refine HandlerSafety.bind_inBounds (HandlerSafety.ethDispatch_inBounds fun htype => ?_)
  rw [fetchedHdr_ethType (by omega) (by omega), ← hin.frameType heth] at htype
  obtain ⟨hip, hb⟩ := hb htype
  have hag := agree_of_carries hle hip (hin.carries hle stale buf)
  by_cases hd : Dispatched (framePkt st.net.nic)
  · obtain ⟨hlen, hudp⟩ := hb hd
    refine HandlerSafety.ipRecv_inBounds ?_ (hag.lengthOk.mp hlen) fun hu => ?_
    · have htable : st'.tcpVc = st.tcpVc := congrArg Shared.tcpVc hin.shared.symm
      exact htable ▸ hinv
    · exact (hudp (by rw [hag.hdr]; exact hu)).udpLengthOk hlen hag stale
  · -- the header is the frame's, so the packet is not handed on
    have hother : ¬Dispatched (IpPkt.ofArr (fetched stale st'.net.nic buf) (monBufSize - ipHeaderLen)) := fun hd' =>
      hd ⟨hag.hdr ▸ hd'.verlen, hag.hdr ▸ hd'.checksum, hag.hdr ▸ hd'.protocol⟩
    obtain ⟨z, hz⟩ := ipRecv_other stale (withNic st' st'.net.nic.taken) hother
    rw [hz]
    nofun

lemma bounded_of_inBounds (hlong : ethHeaderLen + ipHeaderLen + udpHeaderLen ≤ st.net.nic.rxLen)
    (h : ∀ stale buf, monEthRecv stale false st buf ≠ .error .outOfBounds) : FrameBounded st.net.nic := by
  have hsz := sizes
  intro hready
  have hle : st.net.nic.rxLen ≤ monBufSize := by
    by_contra hlong
    refine h (staleFill 0) (zero _) ?_
    rw [monEthRecv, ethRecv, ethFetch_fault _ hready (.inl (not_le.mp hlong))]
    rfl
  refine ⟨hle, fun h0 => ⟨by omega, fun htype => ⟨by omega, fun hd => ?_⟩⟩⟩
  -- a round that finds the frame, and nothing else, in its buffer
  have hround : ∀ stale, LengthOk (framePkt st.net.nic) ∧
      ((framePkt st.net.nic).hdr.ipProtocol = ipProtoUdp → UdpLengthOk stale (framePkt st.net.nic)) := by
    intro stale
    obtain ⟨r, hr⟩ := exists_fetched hle stale (frameData_carries hle)
    by_contra hno
    have hfault := ipRecv_fault { stale with recvBuf := r } (withNic st st.net.nic.taken) hd hno (by decide)
    refine h { stale with recvBuf := r } (frameData st.net.nic) ?_
    rw [monEthRecv_some (ethFetch_fetched hready h0 hle) (by omega), ethDispatch,
      if_pos ((fetchedHdr_ethType hle (by omega)).trans htype), hr]
    unfold framePkt at hfault
    rw [hfault]
    rfl
  exact ⟨(hround (staleFill 0)).1, fun hu => datagramBounded_of_udpLengthOk (hround (staleFill 0)).1 (by omega)
    fun stale => (hround stale).2 hu⟩

/-- **No stale memory is sent out if what is answered lies in the frame, and no length leaves an array; and for a
frame that reaches behind the headers, only then.** The state of the channels is one that a run leads to. -/
theorem no_stale_memory_sent (net : Net) (xs : List (Segment × ℤ)) (m : Machine)
    (h : run step boot xs = .ok m) :
    (FrameContained ⟨net, m.tab⟩ ∧ FrameBounded net.nic → NoStaleMemory ⟨net, m.tab⟩) ∧
      (ethHeaderLen + ipHeaderLen + tcpHeaderLen + httpMethod.length ≤ net.nic.rxLen →
        NoStaleMemory ⟨net, m.tab⟩ → FrameContained ⟨net, m.tab⟩ ∧ FrameBounded net.nic) := by
  have hinv : TableInv (shared ⟨net, m.tab⟩).tcpVc := tableInv_of_run h
  have hsz := sizes
  have h4 : arpHeaderLen = 28 := rfl
  constructor
  · rintro ⟨hc, hb⟩ stale stale' tracePackets tracePackets' st' buf buf' hin
    refine ⟨inBounds_of_bounded hinv hb hin stale' tracePackets' buf',
      responses_of_determines hin (fun harr hroom => ?_) ..⟩
    obtain ⟨hlen, hc⟩ := hc harr hroom
    refine ⟨hlen, ?_⟩
    by_cases hip : frameType net.nic = ethTypeIp
    · rw [if_pos hip] at hc
      exact (frameDetermines_ip_iff harr.2.2 hc.1 hip).mpr (ip_determined hinv hc.2)
    rw [if_neg hip] at hc
    by_cases harp : frameType net.nic = ethTypeArp
    · exact frameDetermines_arp (hc harp) harp
    · intro stale stale' data data' _ _
      unfold frameAnswer
      rw [if_neg hip, if_neg harp, if_neg hip, if_neg harp]
  · intro hlong hno
    have hbounded : FrameBounded (Stack.mk net m.tab).net.nic := bounded_of_inBounds (by dsimp only; omega)
      fun stale buf => (hno stale stale false false _ buf buf (SameInput.refl _)).1
    refine ⟨fun harr hroom => ?_, hbounded⟩
    have hlen : ethHeaderLen ≤ net.nic.rxLen := by omega
    have hdet := determines_of_noStaleMemory harr hroom hlen hno
    refine ⟨hlen, ?_⟩
    by_cases hip : frameType net.nic = ethTypeIp
    · rw [if_pos hip]
      have hdet := (frameDetermines_ip_iff harr.2.2 (by dsimp only; omega) hip).mp hdet
      exact ⟨by dsimp only; omega, packetContained_of_determines hinv (by dsimp only; omega) hdet⟩
    · rw [if_neg hip]
      exact fun _ => by dsimp only; omega

def echoFrame (total : UInt16) : List UInt8 :=
  (⟨getMyMac, getMyMac, jhtons ethTypeIp⟩ : EthHdr).bytes ++
    (HandlerSafety.packet ipProtoIcmp total []).hdr.bytes ++ echoRequest :: List.replicate 25 0

/-- A request of 46 bytes, which fills the frame. -/
theorem no_stale_memory_sent_echo :
    run step boot [] = .ok boot ∧ NoStaleMemory ⟨(bootStack (echoFrame 46)).net, boot.tab⟩ := by
  refine ⟨rfl, (no_stale_memory_sent _ [] boot rfl).1 ⟨fun _ _ => ⟨by decide, by decide, fun _ _ => ?_⟩, fun _ => ?_⟩⟩
  · exact ⟨by decide, fun _ => .inr ⟨by decide, .inr (by decide)⟩⟩
  · refine ⟨by decide, fun _ => ⟨by decide, fun _ => ⟨by decide, fun _ => ⟨by decide, fun hu => ?_⟩⟩⟩⟩
    exact absurd hu (by decide)

/-- A request in the same frame that claims 100 bytes: 54 bytes of the reply are left over. -/
theorem stale_memory_sent :
    ¬ ∀ (net : Net) (xs : List (Segment × ℤ)) (m : Machine), run step boot xs = .ok m →
      NoStaleMemory ⟨net, m.tab⟩ := by
  intro h
  have hno := h (bootStack (echoFrame 100)).net [] boot rfl
  have hdet := determines_of_noStaleMemory (by decide) (by decide) (by decide) hno
  have hpkt := (frameDetermines_ip_iff (by decide) (by decide) (by decide)).mp hdet
  have hcont := packetContained_of_determines tableInv_boot (by decide) hpkt
  obtain ⟨-, hecho⟩ := hcont (by decide) (by decide)
  rw [if_neg (by decide)] at hecho
  rw [if_neg (by decide)] at hecho
  revert hecho
  unfold EchoContained
  decide

end Jos.StaleMemory
