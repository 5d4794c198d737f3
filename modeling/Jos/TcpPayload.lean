import Jos.HandlerSafety

/-!
Which bytes of a segment are taken for data.

`tcp_recv` takes everything behind the twenty bytes of a header without options, and nothing
looks at the field that tells how long the header is.
-/

namespace Jos.TcpPayload

open CArray Packets TcpModel TcpStep Ip Recv RecvSpec List Arr

variable {n : ℕ} {r ret : ℤ} {vc vc' : Channel} {g : Segment} {ev : List Event}

def segmentBytes (pkt : IpPkt n) : List UInt8 := pkt.data.slice 0 (totalLength pkt - ipHeaderLen)

def dataOffset (pkt : IpPkt n) : ℕ := ((pkt.data.get 12).toBitVec.extractLsb' 4 4).toNat

lemma took_of_copy (ht : Transition r vc g vc' ret ev) {off len : ℕ} (hc : Event.copy off len ∈ ev) :
    Fits vc g ∧ off = vc.dataLen.toNat ∧ len = g.len.toNat ∧ vc'.buffer = (kept vc g).buffer ∧
      vc'.ackSeq.ackNum = (kept vc g).ackSeq.ackNum := by
  cases ht with
  | refuse _ | ignore _ | syn _ _ | handshake _ _ | fin _ _ _ => simp at hc
  | store _ _ hw _ _ | storeNothing _ _ hw _ _ | replyFails _ _ hw _ _ _ | reply _ _ hw _ _ _ =>
    simp only [copied, parsed, mem_cons, not_mem_nil, reduceCtorEq, or_false, Event.copy.injEq] at hc
    exact ⟨hw, hc.1, hc.2, rfl, rfl⟩

lemma buffer_of_copy (ht : Transition r vc g vc' ret ev) {off len : ℕ} (hc : Event.copy off len ∈ ev) :
    vc'.buffer.slice off len = g.payload ∧ vc'.ackSeq.ackNum = vc.ackSeq.ackNum + g.len.toUInt32 := by
  obtain ⟨hw, rfl, rfl, hb, ha⟩ := took_of_copy ht hc
  refine ⟨?_, ha⟩
  have hslice := slice_splice_same vc.buffer vc.dataLen.toNat g.payload (by
    unfold Fits at hw
    rw [g.length_payload]
    omega)
  rw [g.length_payload] at hslice
  rw [hb]
  exact hslice

section Segment

variable (stale : Stale) {pkt : IpPkt n} (h : LengthOk pkt)

include h

lemma tcpCopy_get {k : ℕ} (hk : ipHeaderLen + k < totalLength pkt) : (tcpCopy stale pkt).get k = pkt.data.get k := by
  obtain ⟨h1, h2, -⟩ := h
  rw [tcpCopy, get_splice_inside _ (by omega) (by omega) (by simp; omega), getD_slice _ _ _ _]
  congr 1
  omega

lemma payload_segmentOf (hs : ipHeaderLen + tcpHeaderLen ≤ totalLength pkt) :
    (segmentOf stale pkt h).payload = (segmentBytes pkt).drop tcpHeaderLen := by
  have hsz := sizes
  have hmax := h.2.1
  have hlen : (segmentOf stale pkt h).len.toNat = totalLength pkt - ipHeaderLen - tcpHeaderLen := toNat_toUInt16
  have hsplit := slice_add pkt.data 0 tcpHeaderLen (totalLength pkt - ipHeaderLen - tcpHeaderLen)
  rw [Nat.add_sub_cancel' (by omega)] at hsplit
  rw [segmentBytes, hsplit, drop_left' (by simp), Segment.payload, hlen]
  refine slice_congr fun k hk => ?_
  show ((tcpCopy stale pkt).sub tcpHeaderLen tcpDataLen).get _ = _
  rw [get_sub _ _ (by omega), Nat.zero_add, Nat.zero_add, tcpCopy_get stale h (by omega)]

lemma len_segmentOf : (segmentOf stale pkt h).len.toUInt32 = ((segmentBytes pkt).length - tcpHeaderLen).toUInt32 := by
  have hsz := sizes
  have hmax := h.2.1
  refine UInt32.toNat_inj.mp ?_
  rw [segmentBytes, length_slice, UInt16.toNat_toUInt32, toNat_toUInt32]
  exact toNat_toUInt16

end Segment

/-- **The bytes taken for data are the data exactly in a segment without options.** Whatever the layer
below does: of a segment that is taken, the bytes behind its header are stored and counted if and
only if the header has five words. -/
theorem tcp_payload_iff {σ : Type} (send : Send σ) (s : σ) (tab : Table) (stale : Stale)
    (pkt : IpPkt n) (h : LengthOk pkt) (hs : ipHeaderLen + tcpHeaderLen ≤ totalLength pkt)
    (hd : 5 ≤ dataOffset pkt) (hfit : 4 * dataOffset pkt ≤ (segmentBytes pkt).length)
    (R : Result σ) (hR : tcpProcess send s tab (segmentOf stale pkt h).pkt (segmentOf stale pkt h).srcIp
      (segmentOf stale pkt h).len = .ok R)
    (i : Fin 64) (hi : matchTcpVc tab (segmentOf stale pkt h).pkt = some i) (off len : ℕ)
    (hc : Event.copy off len ∈ R.events) :
    ((R.tab i).buffer.slice off len = (segmentBytes pkt).drop (4 * dataOffset pkt) ∧
      (R.tab i).ackSeq.ackNum = (tab i).ackSeq.ackNum +
        ((segmentBytes pkt).length - 4 * dataOffset pkt).toUInt32) ↔ dataOffset pkt = 5 := by
  have hsz := sizes
  obtain ⟨r, hr⟩ := process_of_tcpProcess hR
  obtain ⟨j, vc', hj, ht, htab⟩ := process_ok_iff.mp hr
  obtain rfl : i = j := Option.some.inj (hi.symm.trans hj)
  obtain ⟨hb, ha⟩ := buffer_of_copy ht hc
  have hvc : R.tab i = vc' := by
    show (⟨(), R.tab, R.ret, R.events⟩ : Result Unit).tab i = vc'
    rw [htab, Function.update_self]
  rw [hvc, hb, ha, payload_segmentOf stale h hs]
  constructor
  · rintro ⟨hbytes, -⟩
    have hlen := congrArg length hbytes
    rw [length_drop, length_drop] at hlen
    omega
  · intro h5
    rw [h5]
    exact ⟨rfl, congrArg _ (len_segmentOf stale h)⟩

def connectedVc : Table :=
  Function.update bootVc 0 { bootVc 0 with state := .established, ackSeq := ⟨1, 1⟩ }

def segmentPkt (total : UInt16) (offsetByte : UInt8) (rest : List UInt8) : IpPkt ipDataLen :=
  HandlerSafety.packet ipProtoTcp total
    ([0x1f, 0x90, 0, 80, 0, 0, 0, 1, 0, 0, 0, 1, offsetByte, 0x10, 0, 0, 0, 0, 0, 0] ++ rest)

def plainPkt : IpPkt ipDataLen := segmentPkt 41 0x50 [7]

def optionsPkt : IpPkt ipDataLen := segmentPkt 45 0x60 [1, 1, 1, 1, 7]

lemma plainPkt_lengthOk : LengthOk plainPkt := ⟨by decide, by decide, by decide⟩

lemma optionsPkt_lengthOk : LengthOk optionsPkt := ⟨by decide, by decide, by decide⟩

def plainSegment : Segment := segmentOf (staleFill 0) plainPkt plainPkt_lengthOk

def optionsSegment : Segment := segmentOf (staleFill 0) optionsPkt optionsPkt_lengthOk

lemma process_connected {g : Segment} (hm : matchTcpVc connectedVc g.pkt = some 0)
    (ha : Accepted (connectedVc 0) g) (hw : Fits (connectedVc 0) g) (hp : ¬ hasFlag g.pkt thPsh)
    (hl : g.len ≠ 0) :
    process 0 connectedVc g = .ok ⟨(), Function.update connectedVc 0 (kept (connectedVc 0) g), 0,
      [.copy 0 g.len.toNat, .send (kept (connectedVc 0) g) (ackPkt 0) 0]⟩ :=
  process_some hm (.store rfl ha hw hp hl)

theorem tcp_payload_plain :
    dataOffset plainPkt = 5 ∧ ∃ R, process 0 connectedVc plainSegment = .ok R ∧
      (R.tab 0).buffer.slice 0 1 = [7] := by
  have hm : matchTcpVc connectedVc plainSegment.pkt = some 0 := by decide
  have hR := process_connected hm (by decide) (by decide) (by decide)
    (by decide)
  have hiff := tcp_payload_iff (answer 0) () connectedVc (staleFill 0) plainPkt plainPkt_lengthOk
    (by decide) (by decide) (by decide) _ hR 0 hm 0 1 mem_cons_self
  refine ⟨by decide, _, hR, ?_⟩
  rw [(hiff.mpr (by decide)).1]
  decide

theorem tcp_payload_options :
    ¬ ∀ (tab : Table) (stale : Stale) (pkt : IpPkt ipDataLen) (h : LengthOk pkt),
      ipHeaderLen + tcpHeaderLen ≤ totalLength pkt → 5 ≤ dataOffset pkt →
      4 * dataOffset pkt ≤ (segmentBytes pkt).length →
      ∀ R, process 0 tab (segmentOf stale pkt h) = .ok R →
      ∀ i, matchTcpVc tab (segmentOf stale pkt h).pkt = some i → ∀ off len,
        Event.copy off len ∈ R.events →
        (R.tab i).buffer.slice off len = (segmentBytes pkt).drop (4 * dataOffset pkt) := by
  intro hall
  have hm : matchTcpVc connectedVc optionsSegment.pkt = some 0 := by decide
  have hR := process_connected hm (by decide) (by decide) (by decide)
    (by decide)
  have hbytes := hall connectedVc (staleFill 0) optionsPkt optionsPkt_lengthOk (by decide) (by decide)
    (by decide) _ hR 0 hm 0 5 mem_cons_self
  have hlen := congrArg length hbytes
  rw [length_slice] at hlen
  exact absurd hlen (by decide)

end Jos.TcpPayload
