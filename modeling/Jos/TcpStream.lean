import Jos.TcpInv

/-!
The receive buffer and the byte stream of a client.

A client numbers its SYN `x` and the byte at offset `i` of its stream `x + 1 + i`, modulo
`2^32`. An accepted segment starts where the stored bytes end: its number fixes its offset modulo
`2^32`, which is its offset as long as that is below `2^32`.
-/

namespace Jos.TcpStream

open CArray Inet Packets Http Runs TcpModel TcpStep TcpInv List

structure CarriesAt (stream : List UInt8) (x : UInt32) (g : Segment) (i : ℕ) : Prop where
  number : jntohl g.pkt.hdr.seqNum = x + 1 + i.toUInt32
  inside : i + g.len.toNat ≤ stream.length
  bytes : g.payload = (stream.drop i).take g.len.toNat

structure FromClient (stream : List UInt8) (x : UInt32) (g : Segment) : Prop where
  plain : g.pkt.hdr.dataOffset = 5
  syn : hasFlag g.pkt thSyn → jntohl g.pkt.hdr.seqNum = x
  data : ¬hasFlag g.pkt thSyn → ∃ i, CarriesAt stream x g i

structure FromClientBelow (stream : List UInt8) (x : UInt32) (g : Segment) : Prop where
  plain : g.pkt.hdr.dataOffset = 5
  syn : hasFlag g.pkt thSyn → jntohl g.pkt.hdr.seqNum = x
  data : ¬hasFlag g.pkt thSyn → ∃ i < 2 ^ 32, CarriesAt stream x g i

structure Holds (stream : List UInt8) (x : UInt32) (vc : Channel) : Prop where
  buffer : vc.buffer.slice 0 vc.dataLen.toNat = stream.take vc.dataLen.toNat
  ack : vc.ackSeq.ackNum = x + 1 + vc.dataLen

def ParsesPrefix (stream : List UInt8) (e : Event) : Prop :=
  ∀ data length, e = .parse data length → data.slice 0 length <+: stream

structure StreamInv (stream : List UInt8) (x : UInt32) (i : Fin 64) (vc : Channel) : Prop where
  chan : ChannelInv i vc
  opening : vc.state = .synReceived → vc.ackSeq.ackNum = x + 1
  holds : vc.state = .established → Holds stream x vc

variable {stream : List UInt8} {x : UInt32} {i : Fin 64} {r ret : ℤ} {vc vc' : Channel}
  {g : Segment} {ev : List Event}

lemma carries_next (hc : FromClientBelow stream x g) (hv : ChannelInv i vc) (hh : Holds stream x vc)
    (ha : Accepted vc g) : CarriesAt stream x g vc.dataLen.toNat := by
  have hseq := ha.seqNum.trans hh.ack
  have hlt := hv.room
  have hsz := sizes
  by_cases hs : hasFlag g.pkt thSyn
  · -- the number of the SYN is one less than the number of the first byte
    rw [hc.syn hs, add_assoc] at hseq
    have hzero : 1 + vc.dataLen = 0 := by simpa using hseq.symm
    have := congrArg UInt32.toNat hzero
    rw [UInt32.toNat_add] at this
    simp only [UInt32.reduceToNat] at this
    omega
  · obtain ⟨k, hk, hcar⟩ := hc.data hs
    have hoff : k.toUInt32 = vc.dataLen := add_left_cancel (hcar.number.symm.trans hseq)
    have hnat := congrArg UInt32.toNat hoff
    rw [toNat_toUInt32 hk] at hnat
    rwa [← hnat]

lemma holds_kept (hh : Holds stream x vc) (hw : Fits vc g)
    (hc : CarriesAt stream x g vc.dataLen.toNat) : Holds stream x (kept vc g) where
  buffer := by
    have hsplice := Arr.slice_splice_append vc.buffer vc.dataLen.toNat g.payload (by
      rw [Segment.length_payload]
      exact le_of_lt hw)
    rw [Segment.length_payload] at hsplice
    rw [kept_dataLen hw, take_add, ← hc.bytes, ← hh.buffer]
    exact hsplice
  ack := by
    show vc.ackSeq.ackNum + g.len.toUInt32 = x + 1 + (vc.dataLen + g.len.toUInt32)
    rw [hh.ack, add_assoc]

lemma parsesPrefix_kept (hh : Holds stream x (kept vc g)) : ParsesPrefix stream (parsed (kept vc g)) := by
  intro data length he
  cases he
  rw [hh.buffer]
  exact take_prefix _ _

lemma streamInv_boot (i : Fin 64) : StreamInv stream x i (bootVc i) := ⟨tableInv_boot i, nofun, nofun⟩

/-- **Every transition under a segment of the client keeps the stream.** -/
lemma StreamInv.transition (h : StreamInv stream x i vc) (hc : FromClientBelow stream x g)
    (ht : Transition r vc g vc' ret ev) :
    StreamInv stream x i vc' ∧ ∀ e ∈ ev, ParsesPrefix stream e := by
  have hchan := h.chan.transition ht
  -- an established channel that takes the payload
  have htake : vc.state = .established → Accepted vc g → Fits vc g → Holds stream x (kept vc g) :=
    fun hs ha hw => holds_kept (h.holds hs) hw (carries_next hc h.chan (h.holds hs) ha)
  cases ht with
  | refuse | ignore => exact ⟨h, by simp⟩
  | syn hs hf =>
    refine ⟨⟨hchan, fun _ => ?_, nofun⟩, by simp [ParsesPrefix]⟩
    show jntohl g.pkt.hdr.seqNum + 1 = x + 1
    rw [hc.syn hf]
  | handshake hs ha =>
    refine ⟨⟨hchan, nofun, fun _ => ?_⟩, by simp⟩
    have hzero : vc.dataLen = 0 := h.chan.empty (by rw [hs]; decide)
    exact ⟨by simp [hzero], by rw [hzero, add_zero]; exact h.opening hs⟩
  | store hs ha hw | storeNothing hs ha hw =>
    refine ⟨⟨hchan, fun h' => absurd (hs.symm.trans h') (by decide), fun _ => htake hs ha hw⟩, ?_⟩
    simp [ParsesPrefix, copied]
  | replyFails hs ha hw =>
    refine ⟨⟨hchan, fun h' => absurd (hs.symm.trans h') (by decide), fun _ => htake hs ha hw⟩, ?_⟩
    simpa [ParsesPrefix, copied] using parsesPrefix_kept (htake hs ha hw)
  | reply hs ha hw =>
    refine ⟨⟨hchan, nofun, nofun⟩, ?_⟩
    simpa [ParsesPrefix, copied] using parsesPrefix_kept (htake hs ha hw)
  | fin hs ha hf => exact ⟨⟨hchan, nofun, nofun⟩, by simp [ParsesPrefix]⟩

/-- **Stream integrity.** However the segments of a client are lost, repeated and reordered, and
whatever the sends return: an established channel has stored the beginning of the stream and
acknowledges that much, and the HTTP server is only asked about a beginning of the stream. -/
theorem tcp_stream_integrity (stream : List UInt8) (x : UInt32) (xs : List (Segment × ℤ))
    (hc : ∀ y ∈ xs, FromClientBelow stream x y.1) (m : Machine) (h : run step boot xs = .ok m) :
    (∀ i, (m.tab i).state = .established → Holds stream x (m.tab i)) ∧
      ∀ n ∈ m.log, ∀ e ∈ n.result.events, ParsesPrefix stream e := by
  obtain ⟨hinv, hev⟩ := run_channels (fun i => streamInv_boot i)
    (fun i r vc g vc' ret ev hi hg ht => hi.transition hg ht) hc h
  exact ⟨fun i => (hinv i).holds, hev⟩

def getRun : List (Segment × ℤ) :=
  [(.make hostIp 8080 thSyn 7 0 [] nil_fits, 0),
    (.make hostIp 8080 thAck 8 8 [] nil_fits, 0),
    (.make hostIp 8080 thAck 8 8 (ascii "GET") httpMethod_fits, -1)]

theorem tcp_stream_integrity_get :
    ∃ m, run step boot getRun = .ok m ∧ (m.tab 0).state = .established ∧
      Holds (ascii "GET") 7 (m.tab 0) := by
  have hclient : ∀ y ∈ getRun, FromClientBelow (ascii "GET") 7 y.1 := by
    simp only [getRun, forall_mem_cons, not_mem_nil, false_imp_iff, implies_true, and_true]
    refine ⟨⟨rfl, fun _ => by decide, fun h => (h (by decide)).elim⟩,
      ⟨rfl, fun h => absurd h (by decide), fun _ => ⟨0, by decide, by decide, by decide, by decide⟩⟩,
      ⟨rfl, fun h => absurd h (by decide), fun _ => ⟨0, by decide, by decide, by decide, by decide⟩⟩⟩
  obtain ⟨m, hm, hs⟩ : ∃ m, run step boot getRun = .ok m ∧ (m.tab 0).state = .established := by
    decide
  exact ⟨m, hm, hs, (tcp_stream_integrity _ _ _ hclient m hm).1 0 hs⟩

def wrapRun : List (Segment × ℤ) :=
  [(.make hostIp 8080 thSyn 0 0 [] nil_fits, 0),
    (.make hostIp 8080 thAck 1 1 [] nil_fits, 0),
    (.make hostIp 8080 thAck 1 1 [1] (by decide), 0)]

/-- Without the bound on the offsets the number of a segment does not tell its place: the byte at
offset `2^32` of a stream is taken for its first one. -/
theorem tcp_stream_wraps :
    ¬ ∀ (stream : List UInt8) (x : UInt32) (xs : List (Segment × ℤ)),
      (∀ y ∈ xs, FromClient stream x y.1) → ∀ m, run step boot xs = .ok m →
        (∀ i, (m.tab i).state = .established → Holds stream x (m.tab i)) ∧
          ∀ n ∈ m.log, ∀ e ∈ n.result.events, ParsesPrefix stream e := by
  intro h
  obtain ⟨stream, hlen, hdrop, htake⟩ : ∃ S : List UInt8, S.length = 2 ^ 32 + 1 ∧
      S.drop (2 ^ 32) = [1] ∧ S.take 1 = [0] := by
    refine ⟨replicate (2 ^ 32) 0 ++ [1], ?_, ?_, ?_⟩
    · rw [length_append, length_replicate, length_singleton]
    · exact drop_left' length_replicate
    · have hmin : min 1 (2 ^ 32) = 1 := by norm_num
      rw [take_append_of_le_length (by rw [length_replicate]; norm_num),
        take_replicate, hmin]
      rfl
  have hclient : ∀ y ∈ wrapRun, FromClient stream 0 y.1 := by
    simp only [wrapRun, forall_mem_cons, not_mem_nil, false_imp_iff, implies_true, and_true]
    refine ⟨⟨rfl, fun _ => by decide, fun h => (h (by decide)).elim⟩,
      ⟨rfl, fun h => absurd h (by decide), fun _ => ⟨0, by decide, Nat.zero_le _, ?_⟩⟩,
      ⟨rfl, fun h => absurd h (by decide), fun _ => ⟨2 ^ 32, by decide, ?_, ?_⟩⟩⟩
    · exact (take_zero (l := stream.drop 0)).symm
    · exact le_of_eq hlen.symm
    · rw [hdrop]
      decide
  obtain ⟨m, hm, hs, hl, hb⟩ : ∃ m, run step boot wrapRun = .ok m ∧
      (m.tab 0).state = .established ∧ (m.tab 0).dataLen.toNat = 1 ∧
        (m.tab 0).buffer.slice 0 1 = [1] := by
    decide
  have hholds := ((h stream 0 wrapRun hclient m hm).1 0 hs).buffer
  rw [hl, hb, htake] at hholds
  exact absurd hholds (by decide)

end Jos.TcpStream
