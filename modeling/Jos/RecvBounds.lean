import Jos.RecvSpec

/-!
The buffers a frame goes through.

A frame may fill the 1518 bytes of a receive buffer of the card. `eth_recv` takes it into 1501
bytes of its own, and from behind the header copies as many bytes as the frame has into the caller's
buffer, the 1000 bytes of `mon_eth_recv`. From there a handler takes as many bytes as the packet claims to have.
-/

namespace Jos.RecvBounds

open CArray Inet Packets E1000 Ip Recv RecvSpec Arr

variable {n : ℕ} {nic : Nic} (stale : Stale)

/-- The local buffer of `eth_recv` when the frame has been taken into it. -/
def received (nic : Nic) : Arr (ethMaxPacketSize + 1) :=
  stale.recvBuf.splice 0 ((nic.rxBuf nic.rxTail).slice 0 nic.rxLen)

/-- The header `eth_recv` looks at. -/
def fetchedHdr (nic : Nic) : EthHdr :=
  let hdr := EthHdr.ofArr ((Arr.zero ethHeaderLen).splice 0 ((received stale nic).slice 0 ethHeaderLen))
  { hdr with ethType := jntohs hdr.ethType }

def fetched (nic : Nic) (data : Arr n) : Arr n :=
  data.splice 0 ((received stale nic).slice ethHeaderLen nic.rxLen)

lemma ethFetch_idle (h : ¬Ready nic) (data : Arr n) : ethFetch stale nic data = .ok (nic, 0, none) := by
  unfold ethFetch
  rw [e1000Receive_idle h, ok_bind]
  rfl

lemma ethFetch_empty (h : Ready nic) (h0 : nic.rxLen = 0) (data : Arr n) :
    ethFetch stale nic data = .ok (nic.taken, 0, none) := by
  unfold ethFetch
  rw [e1000Receive_ready h, h0, memcpy_ok _ _, ok_bind, ok_bind]
  rfl

lemma ethFetch_ready (h : Ready nic) (h0 : 0 < nic.rxLen) {data : Arr n} (hn : nic.rxLen ≤ n)
    (hbuf : ethHeaderLen + nic.rxLen ≤ ethMaxPacketSize + 1) :
    ethFetch stale nic data =
      .ok (nic.taken, nic.rxLen, some (fetchedHdr stale nic, fetched stale nic data)) := by
  have hsz := sizes
  have hsize : intToSize (nic.rxLen : ℤ) = nic.rxLen := intToSize_of_nonneg
  unfold ethFetch
  rw [e1000Receive_ready h, memcpy_ok _ _, ok_bind, ok_bind]
  simp only
  rw [if_neg (by omega), memcpy_ok _ _, ok_bind, hsize, memcpy_ok _ _, ok_bind]
  rfl

lemma ethFetch_fault (h : Ready nic) {data : Arr n}
    (hlong : n < nic.rxLen ∨ ethMaxPacketSize + 1 < ethHeaderLen + nic.rxLen) :
    ethFetch stale nic data = .error .outOfBounds := by
  have hsz := sizes
  unfold ethFetch
  rw [e1000Receive_ready h]
  by_cases hl : nic.rxLen ≤ ethMaxPacketSize + 1
  · have hsize : intToSize (nic.rxLen : ℤ) = nic.rxLen := intToSize_of_nonneg
    rw [memcpy_ok _ _, ok_bind, ok_bind]
    simp only
    rw [if_neg (by omega), memcpy_ok _ _, ok_bind, hsize, memcpy_fault _ _, error_bind]
  · rw [memcpy_fault _ _, error_bind, error_bind]

/-- The structure the handler of a protocol copies the packet into. -/
def handlerBuf (protocol : UInt8) : Arr ipDataLen :=
  if protocol = ipProtoTcp then stale.tcpPkt
  else if protocol = ipProtoUdp then stale.upkt
  else stale.icmpPacket

/-- The handler's copy of the packet stays inside the buffer that the packet lies in. -/
def TakenOut (pkt : IpPkt n) : Prop :=
  ∃ a, (handlerBuf stale pkt.hdr.ipProtocol).memcpy 0 pkt.data 0 (copySize pkt) = .ok a

/-- **The accesses stay inside the buffers**: every fault of a round is one of the handler, after it has taken the
packet out of the buffer. -/
def BuffersSuffice (tracePackets : Bool) (st : Stack) (buf : Arr monBufSize) : Prop :=
  ∀ f, monEthRecv stale tracePackets st buf = .error f →
    ∃ nic size hdr data, ethFetch stale st.net.nic buf = .ok (nic, size, some (hdr, data)) ∧
      ethDispatch stale (withNic st nic) hdr data size = .error f ∧
      (hdr.ethType = ethTypeIp → TakenOut stale (IpPkt.ofArr data (monBufSize - ipHeaderLen)))

/-- What lies in the monitor's buffer as a packet -/
def fetchedPkt (nic : Nic) (buf : Arr monBufSize) : IpPkt (monBufSize - ipHeaderLen) :=
  IpPkt.ofArr (fetched stale nic buf) _

variable {stale}

variable {tracePackets : Bool} {st : Stack}

lemma ethDispatch_ret {hdr : EthHdr} {data : Arr n} {size : ℤ} {r : Stack × ℤ}
    (h : ethDispatch stale st hdr data size = .ok r) : r.2 = size ∨ r.2 < 0 := by
  unfold ethDispatch at h
  split_ifs at h
  · obtain ⟨x, -, h⟩ := bind_eq_ok.mp h
    cases h
    dsimp only
    split
    · exact .inr (by decide)
    · exact .inl rfl
  · obtain ⟨x, -, h⟩ := bind_eq_ok.mp h
    cases h
    dsimp only
    split
    · exact .inr (by decide)
    · exact .inl rfl
  · cases h
    exact .inr (show -eBadEthType < 0 by decide)

lemma monEthRecv_none {buf : Arr monBufSize} {nic : Nic} (h : ethFetch stale st.net.nic buf = .ok (nic, 0, none)) :
    monEthRecv stale tracePackets st buf = .ok (withNic st nic) := by
  unfold monEthRecv ethRecv
  rw [h, ok_bind]
  simp only [ok_bind]
  split
  · rw [read_ok _ (by simp), ok_bind]
    rfl
  · rfl

lemma monEthRecv_some {buf data : Arr monBufSize} {nic : Nic}
    {size : ℤ} {hdr : EthHdr} (h : ethFetch stale st.net.nic buf = .ok (nic, size, some (hdr, data)))
    (hsize : size ≤ monBufSize) :
    monEthRecv stale tracePackets st buf =
      (ethDispatch stale (withNic st nic) hdr data size >>= fun r => .ok r.1) := by
  unfold monEthRecv ethRecv
  rw [h, ok_bind]
  simp only
  cases hd : ethDispatch stale (withNic st nic) hdr data size with
  | error f => rfl
  | ok r =>
    simp only [ok_bind]
    have hret := ethDispatch_ret hd
    split
    · rename_i ht
      rw [read_ok _, ok_bind]
      rfl
    · rfl

lemma takenOut_iff {pkt : IpPkt n} : TakenOut stale pkt ↔ LengthOk pkt := by
  unfold TakenOut
  by_cases h : LengthOk pkt
  · exact iff_of_true ⟨_, copy_ok h _⟩ h
  · rw [copy_fault h]
    exact iff_of_false nofun h

lemma not_buffersSuffice {buf : Arr monBufSize} (hready : Ready st.net.nic) (hlong : monBufSize < st.net.nic.rxLen) :
    ¬BuffersSuffice stale tracePackets st buf := by
  intro hsuff
  have hfetch : ethFetch stale st.net.nic buf = .error .outOfBounds := ethFetch_fault stale hready (.inl hlong)
  have hmon : monEthRecv stale tracePackets st buf = .error .outOfBounds := by
    unfold monEthRecv ethRecv
    rw [hfetch]
    rfl
  obtain ⟨nic, size, hdr, data, hok, -⟩ := hsuff _ hmon
  rw [hfetch] at hok
  cases hok

section Fetched

variable {buf : Arr monBufSize} (hready : Ready st.net.nic) (h0 : 0 < st.net.nic.rxLen)
  (hle : st.net.nic.rxLen ≤ monBufSize)
include hready h0 hle

lemma ethFetch_fetched : ethFetch stale st.net.nic buf =
    .ok (st.net.nic.taken, st.net.nic.rxLen, some (fetchedHdr stale st.net.nic, fetched stale st.net.nic buf)) := by
  have hsz := sizes
  have h3 := monBufSize_eq
  exact ethFetch_ready stale hready h0 hle (by omega)

/-- What a round does with a frame that fits -/
lemma buffersSuffice_fetched_iff : BuffersSuffice stale tracePackets st buf ↔
    ((fetchedHdr stale st.net.nic).ethType = ethTypeIp → Dispatched (fetchedPkt stale st.net.nic buf) →
      LengthOk (fetchedPkt stale st.net.nic buf)) := by
  have hfetch : ethFetch stale st.net.nic buf = _ := ethFetch_fetched hready h0 hle
  have hmon : monEthRecv stale tracePackets st buf = _ := monEthRecv_some hfetch (by exact_mod_cast hle)
  constructor
  · intro hsuff htype hd
    by_contra hlen
    have hfault : ipRecv stale (withNic st st.net.nic.taken) (fetchedPkt stale st.net.nic buf) = .error .outOfBounds :=
      ipRecv_fault stale _ hd (fun h => hlen h.1) (by decide)
    have hdispatch : ethDispatch stale (withNic st st.net.nic.taken) (fetchedHdr stale st.net.nic)
        (fetched stale st.net.nic buf) st.net.nic.rxLen = .error .outOfBounds := by
      unfold ethDispatch
      rw [if_pos htype]
      unfold fetchedPkt at hfault
      rw [hfault, error_bind]
    rw [hdispatch, error_bind] at hmon
    obtain ⟨nic, size, hdr, data, hok, -, htaken⟩ := hsuff _ hmon
    cases hfetch.symm.trans hok
    exact hlen (takenOut_iff.mp (htaken htype))
  · intro h f hf
    rw [hmon] at hf
    refine ⟨_, _, _, _, hfetch, ?_, fun htype => ?_⟩
    · cases hd : ethDispatch stale (withNic st st.net.nic.taken) (fetchedHdr stale st.net.nic)
          (fetched stale st.net.nic buf) st.net.nic.rxLen with
      | error f' =>
        rw [hd] at hf
        cases hf
        rfl
      | ok r => rw [hd] at hf; cases hf
    · -- a packet that is not handed on makes no fault
      refine takenOut_iff.mpr (h htype (by_contra fun hd => ?_))
      obtain ⟨z, hz⟩ := ipRecv_other stale (withNic st st.net.nic.taken) hd
      unfold ethDispatch at hf
      unfold fetchedPkt at hz
      rw [if_pos htype, hz] at hf
      cases hf

end Fetched

/-- **The buffers suffice exactly for frames of at most 1000 bytes**, whose packet, if there is a handler for it,
claims no more than that, and its own header. -/
theorem recv_buffers_suffice_iff (stale : Stale) (tracePackets : Bool) (st : Stack)
    (buf : Arr monBufSize) :
    BuffersSuffice stale tracePackets st buf ↔
      (Ready st.net.nic → st.net.nic.rxLen ≤ monBufSize ∧
        (0 < st.net.nic.rxLen → (fetchedHdr stale st.net.nic).ethType = ethTypeIp →
          Dispatched (fetchedPkt stale st.net.nic buf) → LengthOk (fetchedPkt stale st.net.nic buf))) := by
  by_cases hready : Ready st.net.nic
  swap
  · refine iff_of_true (fun f hf => ?_) fun h => absurd h hready
    rw [monEthRecv_none (ethFetch_idle stale hready buf)] at hf
    cases hf
  by_cases hle : st.net.nic.rxLen ≤ monBufSize
  swap
  · exact iff_of_false (not_buffersSuffice hready (not_le.mp hle)) fun h => hle (h hready).1
  rcases Nat.eq_zero_or_pos st.net.nic.rxLen with h0 | h0
  · refine iff_of_true (fun f hf => ?_) fun _ => ⟨hle, fun h => absurd h0 h.ne'⟩
    rw [monEthRecv_none (ethFetch_empty stale hready h0 buf)] at hf
    cases hf
  · rw [buffersSuffice_fetched_iff hready h0 hle]
    exact ⟨fun h _ => ⟨hle, fun _ => h⟩, fun h => (h hready).2 h0⟩

/-- A frame of 1001 bytes, which the card can hold. -/
theorem recv_buffers_too_small :
    ¬ ∀ (stale : Stale) (tracePackets : Bool) (st : Stack) (buf : Arr monBufSize),
      st.net.nic.rxLen ≤ e1000BufferSize → BuffersSuffice stale tracePackets st buf := by
  intro h
  have hlen : (bootStack (List.replicate 1001 0)).net.nic.rxLen = 1001 := by
    show (List.replicate 1001 (0 : UInt8)).length.toUInt16.toNat = 1001
    rw [List.length_replicate]
    rfl
  have hsuff := h (staleFill 0) false (bootStack (List.replicate 1001 0)) (zero _)
    (by rw [hlen]; decide)
  exact not_buffersSuffice (by decide) (by rw [hlen]; decide) hsuff

end Jos.RecvBounds
