import Jos.TcpInv

/-!
The window the server advertises, and the room it has.

Every segment that is sent names the size of the whole buffer as its window, however much of the
buffer is taken by data that have not been pushed yet. So the window the peer sees moves on with
the acknowledgements, and the room does not.
-/

namespace Jos.TcpWindow

open Inet Packets Runs TcpModel TcpStep TcpInv List UInt32

/-- The header of a segment that channel `i` sends. -/
def sentBy (i : Fin 64) : Event → Option TcpHdr
  | .send vc pkt _ => if vc.hostSide.port = hostPort i then some (sendHdr vc pkt.hdr) else none
  | _ => none

/-- The headers channel `i` has sent, in their order. -/
def sent (i : Fin 64) (log : List Entry) : List TcpHdr :=
  log.flatMap fun n => n.result.events.filterMap (sentBy i)

def advertised (i : Fin 64) (log : List Entry) : Option TcpHdr := (sent i log).getLast?

def opening (i : Fin 64) (log : List Entry) : Option TcpHdr :=
  ((sent i log).filter fun h => h.flags &&& thSyn ≠ 0).getLast?

def endFrom (h : TcpHdr) (g : Segment) : ℕ :=
  (jntohl g.pkt.hdr.seqNum - jntohl h.ackNum).toNat + g.len.toNat

lemma sent_snoc (i : Fin 64) (log : List Entry) (n : Entry) :
    sent i (log ++ [n]) = sent i log ++ n.result.events.filterMap (sentBy i) := by
  simp [sent]

def Open (vc : Channel) : Prop := vc.state = .synReceived ∨ vc.state = .established

/-- What the headers of an open channel have told its peer: its ack number, and the number of the first byte
of its buffer. -/
structure Told (hs : List TcpHdr) (vc : Channel) : Prop where
  last : ∃ h, hs.getLast? = some h ∧ (jntohs h.winSize).toNat = tcpWindowSize ∧
    vc.ackSeq.ackNum = jntohl h.ackNum
  first : ∃ h, (hs.filter fun h => h.flags &&& thSyn ≠ 0).getLast? = some h ∧
    (jntohs h.winSize).toNat = tcpWindowSize ∧ vc.ackSeq.ackNum = jntohl h.ackNum + vc.dataLen

variable {i : Fin 64} {r ret : ℤ} {vc vc' : Channel} {g : Segment} {ev : List Event}
  {hs : List TcpHdr}

lemma winSize_sendHdr (vc : Channel) (hdr : TcpHdr) : (jntohs (sendHdr vc hdr).winSize).toNat = tcpWindowSize := by
  show (jntohs (jhtons tcpWindowSize.toUInt16)).toNat = tcpWindowSize
  decide

lemma Told.state (h : Told hs vc) (state : TcpState) : Told hs { vc with state := state } := ⟨h.last, h.first⟩

lemma told_opened (hempty : vc.dataLen = 0) :
    Told (hs ++ [sendHdr (synChannel vc g.pkt g.srcIp) (ackPkt thSyn).hdr]) (opened vc g) where
  last := ⟨_, getLast?_concat, winSize_sendHdr _ _, (jntohl_jhtonl _).symm⟩
  first := by
    refine ⟨sendHdr (synChannel vc g.pkt g.srcIp) (ackPkt thSyn).hdr, ?_, ?_, ?_⟩
    · have hsyn : (sendHdr (synChannel vc g.pkt g.srcIp) (ackPkt thSyn).hdr).flags &&& thSyn ≠ 0 :=
        show (thSyn ||| thAck) &&& thSyn ≠ 0 by decide
      rw [filter_append, filter_cons_of_pos (by simpa using hsyn)]
      exact getLast?_concat
    · exact winSize_sendHdr _ _
    · show _ = jntohl (jhtonl _) + vc.dataLen
      rw [jntohl_jhtonl, hempty, add_zero]
      rfl

lemma Told.kept (h : Told hs vc) {hdr : TcpHdr} (hflags : hdr.flags &&& thSyn = 0) :
    Told (hs ++ [sendHdr (kept vc g) hdr]) (kept vc g) where
  last := ⟨_, getLast?_concat, winSize_sendHdr _ _, (jntohl_jhtonl _).symm⟩
  first := by
    obtain ⟨h0, h1, h2, h3⟩ := h.first
    refine ⟨h0, ?_, h2, ?_⟩
    · have hno : (sendHdr (TcpStep.kept vc g) hdr).flags &&& thSyn = 0 := hflags
      rw [filter_append, filter_cons_of_neg (by simp [hno]), filter_nil, append_nil]
      exact h1
    · show vc.ackSeq.ackNum + g.len.toUInt32 = jntohl h0.ackNum + (vc.dataLen + g.len.toUInt32)
      rw [h3, add_assoc]

lemma sentBy_own {pkt : TcpPkt} {len : ℕ} (h : vc.hostSide.port = hostPort i) :
    sentBy i (.send vc pkt len) = some (sendHdr vc pkt.hdr) := if_pos h

/-- **Every transition of a channel keeps what its headers have told.** -/
lemma Told.transition (hi : ChannelInv i vc) (h : Open vc → Told hs vc)
    (ht : Transition r vc g vc' ret ev) (ho : Open vc') : Told (hs ++ ev.filterMap (sentBy i)) vc' := by
  have hport : vc.hostSide.port = hostPort i := by rw [hi.host]; rfl
  have hkept : (TcpStep.kept vc g).hostSide.port = hostPort i := hport
  cases ht with
  | refuse | ignore => simpa using h ho
  | syn hs hf =>
    have hsyn : (synChannel vc g.pkt g.srcIp).hostSide.port = hostPort i := hport
    rw [filterMap_cons_some (sentBy_own hsyn)]
    exact told_opened (hi.empty (by rw [hs]; decide))
  | handshake hs ha => simpa using (h (.inl hs)).state _
  | store hs ha hw hp hl =>
    rw [filterMap_cons_none rfl, filterMap_cons_some (sentBy_own hkept)]
    exact (h (.inr hs)).kept (by decide)
  | storeNothing hs ha hw hp hl =>
    rw [filterMap_cons_none rfl, kept_of_len_eq_zero hl]
    simpa using h (.inr hs)
  | replyFails hs ha hw hp hh hr =>
    rw [filterMap_cons_none rfl, filterMap_cons_none rfl, filterMap_cons_some (sentBy_own hkept)]
    exact (h (.inr hs)).kept (show (thAck ||| thPsh ||| thFin) &&& thSyn = 0 by decide)
  -- the channel is not open any more
  | reply hs ha hw hp hh hr | fin hs ha hf => rcases ho with ho | ho <;> cases ho

lemma send_hostSide (ht : Transition r vc g vc' ret ev) {vc₁ : Channel} {pkt : TcpPkt} {len : ℕ}
    (h : Event.send vc₁ pkt len ∈ ev) : vc₁.hostSide = vc.hostSide := by
  cases ht with
  | refuse | ignore | handshake => cases h
  | syn hs hf | fin hs ha hf =>
    cases mem_singleton.mp h
    rfl
  | storeNothing hs ha hw hp hl => cases mem_singleton.mp h
  | store hs ha hw hp hl =>
    rcases mem_cons.mp h with h | h
    · cases h
    · cases mem_singleton.mp h
      rfl
  | replyFails hs ha hw hp hh hr | reply hs ha hw hp hh hr =>
    rcases mem_cons.mp h with h | h
    · cases h
    rcases mem_cons.mp h with h | h
    · cases h
    · cases mem_singleton.mp h
      rfl

lemma filterMap_sentBy_other (hne : vc.hostSide.port ≠ hostPort i)
    (ht : Transition r vc g vc' ret ev) : ev.filterMap (sentBy i) = [] := by
  rw [filterMap_eq_nil_iff]
  intro e he
  cases e with
  | copy | parse => rfl
  | send vc₁ pkt len => exact if_neg (by rw [send_hostSide ht he]; exact hne)

structure WindowInv (m : Machine) : Prop where
  table : TableInv m.tab
  told : ∀ i, Open (m.tab i) → Told (sent i m.log) (m.tab i)

lemma windowInv_boot : WindowInv boot where
  table := tableInv_boot
  told := by
    intro i h
    rcases h with h | h <;> cases h

lemma WindowInv.step {m m' : Machine} {x : Segment × ℤ} (hm : WindowInv m)
    (h : TcpStep.step m x = .ok m') : WindowInv m' := by
  obtain ⟨R, hR, rfl⟩ := step_eq_ok h
  obtain ⟨j, vc', -, ht, htab⟩ := process_ok_iff.mp hR
  refine ⟨hm.table.process hR, fun i (ho : Open (R.tab i)) => ?_⟩
  rw [sent_snoc]
  show Told (sent i m.log ++ R.events.filterMap (sentBy i)) (R.tab i)
  rw [htab] at ho ⊢
  by_cases hij : i = j
  · subst hij
    rw [Function.update_self] at ho ⊢
    exact Told.transition (hm.table i) (hm.told i) ht ho
  · rw [Function.update_of_ne hij] at ho ⊢
    have hport : (m.tab j).hostSide.port ≠ hostPort i := by
      rw [(hm.table j).host]
      exact fun heq => hij (hostPort_injective heq).symm
    rw [filterMap_sentBy_other hport ht, append_nil]
    exact hm.told i ho

lemma windowInv_of_run {xs : List (Segment × ℤ)} {m : Machine} (h : run TcpStep.step boot xs = .ok m) : WindowInv m :=
  run_inv (P := fun _ => True) (fun _ _ _ hm _ hs => hm.step hs) windowInv_boot (fun _ _ => trivial) h

lemma copied_mem_iff (hs : vc.state = .established) (ha : Accepted vc g)
    (ht : Transition r vc g vc' ret ev) : copied vc g ∈ ev ↔ Fits vc g := by
  cases ht with
  | refuse h =>
    rw [Refuses, hs] at h
    rcases h with h | h
    · exact absurd ha h
    · exact iff_of_false (by simp) fun hw => not_le_of_fits hw h
  | ignore h => rw [Ignores, hs] at h; exact h.elim
  | syn hs' | handshake hs' | fin hs' => rw [hs] at hs'; cases hs'
  | store _ _ hw | storeNothing _ _ hw | replyFails _ _ hw | reply _ _ hw =>
    exact iff_of_true (by simp) hw

lemma endFrom_eq {hdr : TcpHdr} {n : UInt32} (ha : Accepted vc g)
    (h : vc.ackSeq.ackNum = jntohl hdr.ackNum + n) : endFrom hdr g = n.toNat + g.len.toNat := by
  rw [endFrom, ha.seqNum, h, UInt32.add_comm, UInt32.add_sub_cancel]

/-- **When the advertised window is kept to.** The next segment of the peer is taken if its payload
fits in the window of the header sent last, just if the payload ends before the window of the
header that opened the connection does: the window moves with every acknowledgement, and the
buffer stays where it began. -/
theorem tcp_window_kept_iff {xs : List (Segment × ℤ)} {m : Machine}
    (h : run TcpStep.step boot xs = .ok m) (i : Fin 64) (hs : (m.tab i).state = .established)
    (g : Segment) (hm : matchTcpVc m.tab g.pkt = some i) (ha : Accepted (m.tab i) g) (r : ℤ) :
    ((∀ last ∈ advertised i m.log, endFrom last g ≤ (jntohs last.winSize).toNat) →
        ∃ R, process r m.tab g = .ok R ∧ copied (m.tab i) g ∈ R.events) ↔
      ∀ first ∈ opening i m.log, endFrom first g < (jntohs first.winSize).toNat := by
  have hinv := windowInv_of_run h
  obtain ⟨first, hfirst, hwin, hack⟩ := (hinv.told i (.inr hs)).first
  obtain ⟨last, hlast, hwin', hack'⟩ := (hinv.told i (.inr hs)).last
  obtain ⟨vc', ret, ev, ht⟩ := (hinv.table i).exists_transition r g
  have hopening : opening i m.log = some first := hfirst
  have hadv : advertised i m.log = some last := hlast
  -- one packet never fills the window that is advertised
  have hfits : endFrom last g ≤ tcpWindowSize := by
    have h1 := g.fits
    have hsz := sizes
    have h4 := endFrom_eq (n := 0) ha (by rw [hack', add_zero])
    rw [h4, UInt32.toNat_zero]
    omega
  simp only [hopening, hadv, Option.mem_some_iff, forall_eq', hwin, hwin', endFrom_eq ha hack]
  rw [process_some hm ht]
  constructor
  · intro hall
    obtain ⟨R, hR, hc⟩ := hall hfits
    cases hR
    exact (copied_mem_iff hs ha ht).mp hc
  · exact fun hf _ => ⟨_, rfl, (copied_mem_iff hs ha ht).mpr hf⟩

def chunk (seq : UInt32) : Segment :=
  .make hostIp 8080 thAck seq 1 (List.replicate 1440 0)
    (by rw [List.length_replicate]; decide)

def conversation (k : ℕ) : List (Segment × ℤ) :=
  (.make hostIp 8080 thSyn 0 0 [] nil_fits, 0) :: (.make hostIp 8080 thAck 1 1 [] nil_fits, 0) ::
    (List.range k).map fun j => (chunk (1 + 1440 * j.toUInt32), 0)

theorem tcp_window_kept_second_chunk :
    ∃ m, run TcpStep.step boot (conversation 1) = .ok m ∧
      ∃ R, process 0 m.tab (chunk 1441) = .ok R ∧ copied (m.tab 0) (chunk 1441) ∈ R.events := by
  have hrun : ∃ m, run TcpStep.step boot (conversation 1) = .ok m ∧
      (m.tab 0).state = .established ∧ matchTcpVc m.tab (chunk 1441).pkt = some 0 ∧
      Accepted (m.tab 0) (chunk 1441) ∧
      (∀ last ∈ advertised 0 m.log, endFrom last (chunk 1441) ≤ (jntohs last.winSize).toNat) ∧
      ∀ first ∈ opening 0 m.log, endFrom first (chunk 1441) < (jntohs first.winSize).toNat := by
    decide +kernel
  obtain ⟨m, hm, hs, hmatch, ha, hlast, hfirst⟩ := hrun
  exact ⟨m, hm, (tcp_window_kept_iff hm 0 hs _ hmatch ha 0).mpr hfirst hlast⟩

/-- Ten chunks are in the buffer, the peer has the window of a whole buffer, and the next chunk
is refused. -/
theorem tcp_window_broken_after_ten :
    ∃ m, run TcpStep.step boot (conversation 10) = .ok m ∧ (m.tab 0).state = .established ∧
      matchTcpVc m.tab (chunk 14401).pkt = some 0 ∧ Accepted (m.tab 0) (chunk 14401) ∧
      (∃ last ∈ advertised 0 m.log, endFrom last (chunk 14401) ≤ (jntohs last.winSize).toNat) ∧
      process 0 m.tab (chunk 14401) = .ok ⟨(), m.tab, -1, []⟩ := by
  have hrun : ∃ m, run TcpStep.step boot (conversation 10) = .ok m ∧
      (m.tab 0).state = .established ∧ matchTcpVc m.tab (chunk 14401).pkt = some 0 ∧
      Accepted (m.tab 0) (chunk 14401) ∧
      (∃ last ∈ advertised 0 m.log, endFrom last (chunk 14401) ≤ (jntohs last.winSize).toNat) ∧
      tcpWindowSize ≤ ((m.tab 0).dataLen + (chunk 14401).len.toUInt32).toNat := by
    decide +kernel
  obtain ⟨m, hm, hs, hmatch, ha, hlast, hfull⟩ := hrun
  refine ⟨m, hm, hs, hmatch, ha, hlast, ?_⟩
  rw [process_some hmatch (.refuse (by rw [Refuses, hs]; exact .inr hfull)), Function.update_eq_self]

end Jos.TcpWindow
