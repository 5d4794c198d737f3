import Jos.HandlerSafety
import Jos.Response

/-!
What the stack looks up.

`get_mac_by_ip` and `match_tcp_vc` return a null pointer for what they do not find, and it is
followed: by `eth_send` and `arp_reply` when they copy the address, by the error exit of
`tcp_process` when it prints the state.
-/

namespace Jos.Lookups

open CArray Inet Packets ArpTable E1000 Ip Runs TcpModel
  TcpChecksum TcpStep TcpInv Recv RecvBounds RecvSpec Response
open HttpPrefix (httpParse_ok)

def Known (t : ArpCache) (ip : UInt32) : Prop := (getMacByIp t (jhtonl ip)).isSome

def Answers (vc : Channel) (g : Segment) : Prop :=
  match vc.state with
  | .listen => hasFlag g.pkt thSyn
  | .established => Accepted vc g ∧ Fits vc g ∧ (hasFlag g.pkt thPsh ∨ g.len ≠ 0)
  | .closeWait => hasFlag g.pkt thFin ∧ Accepted vc g
  | _ => False

def SegmentFound (st : Stack) (g : Segment) : Prop :=
  ∃ i, matchTcpVc st.tcpVc g.pkt = some i ∧
    (Answers (st.tcpVc i) g → Known st.net.arpTable g.srcIp)

variable {n : ℕ}

/-- For TCP, the channel and the sender; for a datagram or an echo request, the host. What is looked up behind an
access outside an array is not known, so the lengths are to be such that the handler makes none. -/
def PacketFound (stale : Stale) (st : Stack) (pkt : IpPkt n) : Prop :=
  if pkt.hdr.ipProtocol = ipProtoTcp then
    ipHeaderLen ≤ totalLength pkt ∧ (ipHeaderLen + tcpHeaderLen ≤ totalLength pkt →
      ∃ h : LengthOk pkt, SegmentFound st (segmentOf stale pkt h))
  else if pkt.hdr.ipProtocol = ipProtoUdp then
    LengthOk pkt ∧ UdpLengthOk stale pkt ∧ Known st.net.arpTable hostIp
  else
    LengthOk pkt ∧ ((icmpCopy stale pkt).get 0 = echoRequest ∧ (icmpCopy stale pkt).get 1 = 0 →
      Known st.net.arpTable hostIp)

def HasRoom (t : ArpCache) (ip : UInt32) : Prop :=
  ∃ e ∈ t.entries, e.state = .free ∨ e.sourceIp = ip

def FrameFound (stale : Stale) (st : Stack) (ethType : UInt16) (data : Arr n) : Prop :=
  if ethType = ethTypeIp then
    Dispatched (IpPkt.ofArr data (n - ipHeaderLen)) →
      PacketFound stale st (IpPkt.ofArr data (n - ipHeaderLen))
  else
    ethType = ethTypeArp → IsArpRequest (ArpHdr.ofArr data) →
      HasRoom st.net.arpTable (ArpHdr.ofArr data).sourceIp

/-- A round of the monitor: what lies in the locals and in its buffer, and what the card holds. -/
structure Round where
  stale : Stale
  nic : Nic
  buf : Arr monBufSize
  tracePackets : Bool

def round (st : Stack) (x : Round) : Except Fault Stack :=
  monEthRecv x.stale x.tracePackets (withNic st x.nic) x.buf

/-- **Everything the round looks up is there**, and the frame fits in the buffer. -/
def LookupsFound (st : Stack) (x : Round) : Prop :=
  (Ready x.nic → x.nic.rxLen ≤ monBufSize) ∧
    (Arrives x.nic →
      FrameFound x.stale st (fetchedHdr x.stale x.nic).ethType (fetched x.stale x.nic x.buf))

variable {stale : Stale} {st st' : Stack} {net : Net} {vc : Channel} {g : Segment} {i : Fin 64}
  {pkt : IpPkt n} {α β : Type}

lemma bind_ok_eq_error {r : Except Fault α} {k : α → Except Fault β} (hk : ∀ a, ∃ b, k a = .ok b)
    {f : Fault} : (r >>= k) = .error f ↔ r = .error f := by
  cases r with
  | error e => exact ⟨fun h => by cases h; rfl, fun h => by cases h; rfl⟩
  | ok a =>
    obtain ⟨b, hb⟩ := hk a
    rw [ok_bind, hb]
    exact ⟨nofun, nofun⟩

lemma bind_ok_error {r : Except Fault α} {k : α → β} {f : Fault} :
    (r >>= fun a => .ok (k a)) = .error f ↔ r = .error f :=
  bind_ok_eq_error fun _ => ⟨_, rfl⟩

lemma bind_returns {r : Except Fault α} {k : α → β} : (∃ b, (r >>= fun a => .ok (k a)) = .ok b) ↔ ∃ a, r = .ok a := by
  cases r with
  | error f => exact iff_of_false nofun nofun
  | ok a => exact iff_of_true ⟨k a, rfl⟩ ⟨a, rfl⟩

lemma tcpSend_null_iff {p : TcpPkt} {length : ℕ} (h : length ≤ tcpDataLen) :
    tcpSend stale net vc p length = .error .nullPointer ↔ ¬Known net.arpTable vc.guestSide.ip := by
  unfold Known
  cases hmac : getMacByIp net.arpTable (jhtonl vc.guestSide.ip) with
  | none =>
    rw [tcpSend_null stale net vc p h hmac]
    exact iff_of_true rfl nofun
  | some mac =>
    rw [tcpSend_eq stale net vc p h hmac]
    exact iff_of_false nofun fun hn => hn rfl

lemma tcpReply_null_iff (hlast : vc.buffer.get (tcpWindowSize - 1) = 0)
    (hroom : vc.dataLen.toNat < tcpWindowSize) (e : Event) :
    tcpReply (tcpSend stale) net vc e = .error .nullPointer ↔ ¬Known net.arpTable vc.guestSide.ip := by
  obtain ⟨reply, len, hh, hlen⟩ := httpParse_ok hlast hroom (by decide) (Arr.zero tcpDataLen)
  unfold tcpReply
  rw [hh, ok_bind, bind_ok_eq_error, tcpSend_null_iff (hlen.le.trans (by decide))]
  intro r
  split <;> exact ⟨_, rfl⟩

lemma takePayload_null_iff (h : ChannelInv i vc) (hs : vc.state = .established) (hw : Fits vc g) :
    takePayload (tcpSend stale) net vc g = .error .nullPointer ↔
      (hasFlag g.pkt thPsh ∨ g.len ≠ 0) ∧ ¬Known net.arpTable vc.guestSide.ip := by
  have hk := h.kept hs hw
  unfold takePayload
  by_cases hp : hasFlag g.pkt thPsh
  · rw [if_pos hp, tcpReply_null_iff hk.last hk.room]
    exact ⟨fun h => ⟨.inl hp, h⟩, fun h => h.2⟩
  · rw [if_neg hp]
    by_cases hl : g.len ≠ 0
    · rw [if_pos hl, bind_ok_error, tcpSend_null_iff (Nat.zero_le _)]
      exact ⟨fun h => ⟨.inr hl, h⟩, fun h => h.2⟩
    · rw [if_neg hl]
      exact iff_of_false nofun fun h => h.1.elim hp hl

/-- **A channel follows a null pointer exactly if it answers and its peer is not known.** -/
lemma tcpState_null_iff (h : ChannelInv i vc) :
    tcpState (tcpSend stale) net vc g.pkt g.srcIp g.len = .error .nullPointer ↔
      Answers vc g ∧ ¬Known net.arpTable g.srcIp := by
  unfold tcpState Answers
  rcases h.state with hs | hs | hs | hs
  · simp only [hs, tcpListen_eq]
    by_cases hf : hasFlag g.pkt thSyn
    · rw [if_pos hf, bind_ok_error, tcpSend_null_iff (Nat.zero_le _)]
      exact ⟨fun h => ⟨hf, h⟩, fun h => h.2⟩
    · rw [if_neg hf]
      exact iff_of_false nofun fun h => hf h.1
  · simp only [hs, tcpSynReceived_eq]
    refine iff_of_false ?_ fun h => h.1
    split <;> exact nofun
  · simp only [hs, tcpEstablished_eq]
    by_cases ha : Accepted vc g
    · rw [if_pos ha]
      by_cases hw : Fits vc g
      · rw [if_neg (not_le_of_fits hw), if_pos hw, takePayload_null_iff h hs hw, ha.2.1]
        exact ⟨fun h => ⟨⟨ha, hw, h.1⟩, h.2⟩, fun h => ⟨h.1.2.2, h.2⟩⟩
      · refine iff_of_false ?_ fun h => hw h.1.2.1
        split <;> exact nofun
    · rw [if_neg ha]
      exact iff_of_false nofun fun h => ha h.1.1
  · simp only [hs, tcpCloseWait_eq]
    by_cases hfa : hasFlag g.pkt thFin ∧ Accepted vc g
    · rw [if_pos hfa.2.1, if_pos hfa.1, if_pos hfa.2, bind_ok_error, tcpSend_null_iff (Nat.zero_le _), hfa.2.2.1]
      exact ⟨fun h => ⟨hfa, h⟩, fun h => h.2⟩
    · refine iff_of_false ?_ fun h => hfa h.1
      split_ifs with hack hfin ha
      · exact absurd ⟨hfin, ha⟩ hfa
      all_goals exact nofun

lemma tcpProcess_null_iff (hinv : TableInv st.tcpVc) :
    tcpProcess (tcpSend stale) st.net st.tcpVc g.pkt g.srcIp g.len = .error .nullPointer ↔ ¬SegmentFound st g := by
  unfold tcpProcess SegmentFound
  cases hm : matchTcpVc st.tcpVc g.pkt with
  | none => exact iff_of_true rfl nofun
  | some i =>
    rw [bind_ok_error, tcpState_null_iff (hinv i)]
    constructor
    · rintro ⟨ha, hk⟩ ⟨j, hj, hfound⟩
      cases hj
      exact hk (hfound ha)
    · intro h
      by_contra hn
      exact h ⟨i, rfl, fun ha => by_contra fun hk => hn ⟨ha, hk⟩⟩

lemma tcpProcess_returns_iff (hinv : TableInv st.tcpVc) :
    (∃ r, tcpProcess (tcpSend stale) st.net st.tcpVc g.pkt g.srcIp g.len = .ok r) ↔ SegmentFound st g := by
  have hnull : tcpProcess (tcpSend stale) st.net st.tcpVc g.pkt g.srcIp g.len = _ ↔ _ := tcpProcess_null_iff hinv
  rw [← not_iff_not, ← hnull]
  cases hp : tcpProcess (tcpSend stale) st.net st.tcpVc g.pkt g.srcIp g.len with
  | error f =>
    rw [HandlerSafety.tcpProcess_error_null hinv hp]
    exact iff_of_true nofun rfl
  | ok r => exact iff_of_false (fun h => h ⟨r, rfl⟩) nofun

lemma tcpRecv_returns_iff (hinv : TableInv st.tcpVc) : (∃ r, tcpRecv stale st pkt = .ok r) ↔
      ipHeaderLen ≤ totalLength pkt ∧ (ipHeaderLen + tcpHeaderLen ≤ totalLength pkt →
        ∃ h : LengthOk pkt, SegmentFound st (segmentOf stale pkt h)) := by
  by_cases hmin : ipHeaderLen ≤ totalLength pkt
  · by_cases hle : ipHeaderLen + tcpHeaderLen ≤ totalLength pkt
    · by_cases hok : LengthOk pkt
      · rw [tcpRecv_eq stale st hok hle, bind_returns, tcpProcess_returns_iff hinv]
        exact ⟨fun h => ⟨hmin, fun _ => ⟨hok, h⟩⟩, fun h => (h.2 hle).2⟩
      · rw [tcpRecv_fault stale st hok (.inr hle)]
        exact iff_of_false nofun fun h => hok (h.2 hle).1
    · rw [tcpRecv_short stale st hmin (not_le.mp hle)]
      exact iff_of_true ⟨_, rfl⟩ ⟨hmin, fun h => absurd h hle⟩
  · rw [tcpRecv_fault stale st (fun h => hmin h.1) (.inl (not_le.mp hmin))]
    exact iff_of_false nofun fun h => hmin h.1

lemma reply_returns_iff {protocol : UInt8} {payload : List UInt8} :
    (∃ r, reply net protocol payload = .ok r) ↔ Known net.arpTable hostIp := by
  unfold reply Known
  cases getMacByIp net.arpTable (jhtonl hostIp) with
  | none => exact iff_of_false nofun nofun
  | some mac => exact iff_of_true ⟨_, rfl⟩ rfl

lemma udpRecv_returns_iff : (∃ r, udpRecv stale net pkt = .ok r) ↔
      LengthOk pkt ∧ UdpLengthOk stale pkt ∧ Known net.arpTable hostIp := by
  by_cases h : LengthOk pkt ∧ UdpLengthOk stale pkt
  · rw [udpRecv_eq stale net h.1 h.2, bind_returns, reply_returns_iff]
    exact ⟨fun hk => ⟨h.1, h.2, hk⟩, fun hk => hk.2.2⟩
  · rw [udpRecv_fault stale net h]
    exact iff_of_false nofun fun h' => h ⟨h'.1, h'.2.1⟩

lemma icmpEchoReply_returns_iff : (∃ r, icmpEchoReply stale net pkt = .ok r) ↔
      LengthOk pkt ∧ ((icmpCopy stale pkt).get 0 = echoRequest ∧ (icmpCopy stale pkt).get 1 = 0 →
        Known net.arpTable hostIp) := by
  by_cases hlen : LengthOk pkt
  · rw [icmpEchoReply_eq stale net hlen]
    split_ifs with ht hc
    · exact iff_of_true ⟨_, rfl⟩ ⟨hlen, fun h => absurd h.1 ht⟩
    · exact iff_of_true ⟨_, rfl⟩ ⟨hlen, fun h => absurd h.2 hc⟩
    · rw [reply_returns_iff]
      exact ⟨fun hk => ⟨hlen, fun _ => hk⟩, fun h => h.2 ⟨not_not.mp ht, not_not.mp hc⟩⟩
  · rw [icmpEchoReply_fault stale net hlen]
    exact iff_of_false nofun fun h => hlen h.1

lemma ipRecv_returns_iff (hinv : TableInv st.tcpVc) :
    (∃ r, ipRecv stale st pkt = .ok r) ↔ (Dispatched pkt → PacketFound stale st pkt) := by
  by_cases hd : Dispatched pkt
  · rw [ipRecv_dispatched stale st hd, forall_prop_of_true hd]
    unfold PacketFound
    split_ifs with ht hu
    · exact tcpRecv_returns_iff hinv
    · exact bind_returns.trans udpRecv_returns_iff
    · exact bind_returns.trans icmpEchoReply_returns_iff
  · obtain ⟨z, hz⟩ := ipRecv_other stale st hd
    exact iff_of_true ⟨_, hz⟩ fun h => absurd h hd

lemma arpReply_returns_iff {h : ArpHdr} :
    (∃ r, arpReply stale net h = .ok r) ↔ (getMacByIp net.arpTable h.sourceIp).isSome := by
  cases hmac : getMacByIp net.arpTable h.sourceIp with
  | none =>
    rw [arpReply_null stale net hmac]
    exact iff_of_false nofun nofun
  | some mac => exact iff_of_true ⟨_, arpReply_eq stale net hmac⟩ rfl

lemma arpResolve_returns_iff {h : ArpHdr} : (∃ r, arpResolve stale net h = .ok r) ↔
      (IsArpRequest h → HasRoom net.arpTable h.sourceIp) := by
  by_cases hr : IsArpRequest h
  · rw [arpResolve_learned stale net ⟨hr.1, hr.2.1⟩, if_pos hr.2.2, arpReply_returns_iff, forall_prop_of_true hr]
    exact getMac_update_isSome_iff.trans update_accepted_iff
  · refine iff_of_true ?_ fun h' => absurd h' hr
    by_cases ht : ArpTypesOk h
    · rw [arpResolve_learned stale net ht, if_neg fun h' => hr ⟨ht.1, ht.2, h'⟩]
      exact ⟨_, rfl⟩
    · exact ⟨_, arpResolve_other stale net ht⟩

section

variable (hinv : TableInv st.tcpVc)
include hinv

lemma ethDispatch_returns_iff {hdr : EthHdr} {data : Arr n} {size : ℤ} :
    (∃ r, ethDispatch stale st hdr data size = .ok r) ↔ FrameFound stale st hdr.ethType data := by
  unfold ethDispatch FrameFound
  split_ifs with hip harp
  · exact bind_returns.trans (ipRecv_returns_iff hinv)
  · exact bind_returns.trans (arpResolve_returns_iff.trans ⟨fun h _ => h, fun h => h harp⟩)
  · exact iff_of_true ⟨_, rfl⟩ fun h => absurd h harp

/-- **A round returns exactly if all that it looks up is there.** -/
lemma round_returns_iff {x : Round} : (∃ st', round st x = .ok st') ↔ LookupsFound st x := by
  have hsz := sizes
  have h3 := monBufSize_eq
  unfold round LookupsFound
  by_cases harr : Arrives x.nic
  · obtain ⟨hready, hpos, hle⟩ := harr
    have hfetch : ethFetch x.stale (withNic st x.nic).net.nic x.buf = _ :=
      ethFetch_ready x.stale hready hpos hle (by omega)
    rw [monEthRecv_some hfetch (by omega), bind_returns]
    -- the card does not matter for the look-ups
    refine Iff.trans (ethDispatch_returns_iff (by exact hinv)) ?_
    exact ⟨fun h => ⟨fun _ => hle, fun _ => h⟩, fun h => h.2 ⟨hready, hpos, hle⟩⟩
  by_cases hready : Ready x.nic
  · by_cases h0 : x.nic.rxLen = 0
    · have hfetch : ethFetch x.stale (withNic st x.nic).net.nic x.buf = _ := ethFetch_empty x.stale hready h0 x.buf
      exact iff_of_true ⟨_, monEthRecv_none hfetch⟩ ⟨fun _ => by omega, fun h => absurd h harr⟩
    · have hlong : ¬x.nic.rxLen ≤ monBufSize := fun hle => harr ⟨hready, Nat.pos_of_ne_zero h0, hle⟩
      have hfetch : ethFetch x.stale (withNic st x.nic).net.nic x.buf = _ :=
        ethFetch_fault x.stale hready (.inl (not_le.mp hlong))
      rw [monEthRecv, ethRecv, hfetch]
      refine iff_of_false (fun hret => ?_) fun h => hlong (h.1 hready)
      obtain ⟨_, hret⟩ := hret
      cases hret
  · have hfetch : ethFetch x.stale (withNic st x.nic).net.nic x.buf = _ := ethFetch_idle x.stale hready x.buf
    exact iff_of_true ⟨_, monEthRecv_none hfetch⟩ ⟨fun h => absurd h hready, fun h => absurd h harr⟩

lemma tcpRecv_tableInv {z : ℤ} (h : tcpRecv stale st pkt = .ok (st', z)) : TableInv st'.tcpVc := by
  by_cases hshort : ipHeaderLen ≤ totalLength pkt ∧ totalLength pkt < ipHeaderLen + tcpHeaderLen
  · rw [tcpRecv_short stale st hshort.1 hshort.2] at h
    cases h
    exact hinv
  by_cases hok : LengthOk pkt
  · have hmin := hok.1
    rw [tcpRecv_eq stale st hok (by omega)] at h
    obtain ⟨R, hR, h⟩ := bind_eq_ok.mp h
    cases h
    obtain ⟨r, hr⟩ := process_of_tcpProcess hR
    exact hinv.process hr
  · rw [tcpRecv_fault stale st hok (by omega)] at h
    cases h

lemma ipRecv_tableInv {z : ℤ} (h : ipRecv stale st pkt = .ok (st', z)) : TableInv st'.tcpVc := by
  by_cases hd : Dispatched pkt
  · rw [ipRecv_dispatched stale st hd] at h
    split at h
    · exact tcpRecv_tableInv hinv h
    · split at h
      -- UDP and ICMP leave the channels alone
      all_goals
        obtain ⟨r, -, h⟩ := bind_eq_ok.mp h
        cases h
        exact hinv
  · obtain ⟨z', hz⟩ := ipRecv_other stale st hd
    rw [hz] at h
    cases h
    exact hinv

lemma ethDispatch_tableInv {hdr : EthHdr} {data : Arr n} {size z : ℤ}
    (h : ethDispatch stale st hdr data size = .ok (st', z)) : TableInv st'.tcpVc := by
  unfold ethDispatch at h
  split at h
  · obtain ⟨r, hr, h⟩ := bind_eq_ok.mp h
    cases h
    exact ipRecv_tableInv hinv hr
  · split at h
    · obtain ⟨r, -, h⟩ := bind_eq_ok.mp h
      cases h
      exact hinv
    · cases h
      exact hinv

lemma round_tableInv {x : Round} (h : round st x = .ok st') : TableInv st'.tcpVc := by
  obtain ⟨⟨st₁, buf, len⟩, h₁, h⟩ := bind_eq_ok.mp h
  obtain ⟨⟨nic, size, got⟩, -, h₁⟩ := bind_eq_ok.mp h₁
  have hst : st' = st₁ := by
    dsimp only at h
    split at h
    · obtain ⟨-, -, h⟩ := bind_eq_ok.mp h
      cases h
      rfl
    · cases h
      rfl
  cases got with
  | none =>
    cases h₁
    exact hst ▸ hinv
  | some p =>
    obtain ⟨r, hr, h₁⟩ := bind_eq_ok.mp h₁
    cases h₁
    exact hst ▸ ethDispatch_tableInv (by exact hinv) hr

end

lemma tableInv_of_rounds {xs : List Round} (h : run round (bootStack []) xs = .ok st) : TableInv st.tcpVc := by
  have hstep : ∀ (st : Stack) (x : Round) (st' : Stack), TableInv st.tcpVc → True →
      round st x = .ok st' → TableInv st'.tcpVc := fun _ _ _ hinv _ h => round_tableInv hinv h
  exact run_inv hstep (s := bootStack []) tableInv_boot (fun _ _ => trivial) h

/-- **No failed look-up is followed, and no array is left**, in a run of the receive loop if and only if before each
of its rounds all that the round looks up is in the tables, and the lengths are those that the buffers have. -/
theorem failed_lookups_unused_iff (xs : List Round) :
    (∃ st, run round (bootStack []) xs = .ok st) ↔
      ∀ pre x st, pre ++ [x] <+: xs → run round (bootStack []) pre = .ok st → LookupsFound st x := by
  constructor
  · rintro ⟨st', hall⟩ pre x st hpre hrun
    refine (round_returns_iff (tableInv_of_rounds hrun)).mp ?_
    cases hx : round st x with
    | ok st₁ => exact ⟨st₁, rfl⟩
    | error f =>
      rw [run_error_iff.mpr ⟨pre, x, st, hpre, hrun, hx⟩] at hall
      cases hall
  · intro h
    cases hrun : run round (bootStack []) xs with
    | ok st => exact ⟨st, rfl⟩
    | error f =>
      obtain ⟨pre, x, st, hpre, hpre', hf⟩ := run_error_iff.mp hrun
      obtain ⟨st', hst'⟩ := (round_returns_iff (tableInv_of_rounds hpre')).mpr (h pre x st hpre hpre')
      rw [hf] at hst'
      cases hst'

def portFrame (port : UInt16) : List UInt8 :=
  (⟨getMyMac, getMyMac, jhtons ethTypeIp⟩ : EthHdr).bytes ++
    (HandlerSafety.packet ipProtoTcp 40 []).hdr.bytes ++
      { TcpHdr.zero with dstPort := jhtons port, flags := thSyn }.bytes

def arrival (frame : List UInt8) : Round := ⟨staleFill 0, nicHolding frame, Arr.zero _, false⟩

/-- A segment for port `100`, which no channel has: the error exit reads the state of none. -/
theorem failed_lookup_used :
    ¬ ∀ xs : List Round, run round (bootStack []) xs ≠ .error .nullPointer := by
  have hnull : run round (bootStack []) [arrival (portFrame 100)] = .error .nullPointer := by
    decide
  exact fun h => h _ hnull

end Jos.Lookups
