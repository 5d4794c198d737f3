import Jos.HostEntry
import Jos.Lookups

/-!
The reply to an ARP request, byte for byte.

`arp_resolve` writes the reply over the request, whose fields it has turned into host order; the
address the frame goes to comes from the table, into which the sender has just been put.
-/

namespace Jos.ArpReply

open CArray Inet Packets ArpTable E1000 Ip Recv RecvSpec Response List
open Lookups (HasRoom)

lemma getMac_update {es : List ArpEntry} {ip : UInt32} {mac : Mac} (hs : ∀ e ∈ es, e.state ≠ .static)
    (h : (update es ip mac).2 = 0) : getMac (update es ip mac).1 ip = some mac := by
  induction es with
  | nil => cases h
  | cons e es ih =>
    rw [update] at h ⊢
    by_cases hf : e.state = .free
    · rw [if_pos hf, getMac, if_pos rfl]
    · have hd : e.state = .dynamic := by
        cases he : e.state with
        | free => exact absurd he hf
        | static => exact absurd he (hs e (by simp))
        | dynamic => rfl
      rw [if_neg hf] at h ⊢
      by_cases hip : e.sourceIp = ip
      · rw [if_pos hip, if_pos hd, getMac, if_pos hip]
      · rw [if_neg hip] at h ⊢
        rw [getMac, if_neg hip]
        exact ih (fun e he => hs e (by simp [he])) h

lemma runUpdates_no_static (calls : List ArpHdr) : ∀ e ∈ (runUpdates calls).entries, e.state ≠ .static := by
  obtain ⟨fr, hes, hfr⟩ := runUpdates_represents calls
  rw [hes]
  intro e he
  rcases mem_append.mp he with h | h
  · obtain ⟨b, -, rfl⟩ := mem_map.mp h
    exact ArpState.noConfusion
  · rw [hfr e h]
    exact ArpState.noConfusion

variable {n : ℕ} {req : Arr n}

/-- A request for the hardware address of `MY_IP`, of the types Ethernet and IPv4, as it is on the wire. -/
structure IsRequest (req : Arr n) : Prop where
  hardwareType : req.slice 0 2 = [0x00, 0x01]
  protocolType : req.slice 2 2 = [0x08, 0x00]
  opcode : req.slice 6 2 = [0x00, 0x01]
  targetIp : req.slice 24 4 = [192, 168, 123, 2]

def josMac : List UInt8 := [0x52, 0x54, 0x00, 0x12, 0x34, 0x56]

/-- **The correct reply**: to the sender of the request, from this machine. -/
def correctReply (req : Arr n) : List UInt8 :=
  -- Ethernet: destination, source, type
  req.slice 8 6 ++ josMac ++ [0x08, 0x06] ++
  -- types and address lengths as in the request, and the opcode of a reply
  req.slice 0 2 ++ req.slice 2 2 ++ req.slice 4 1 ++ req.slice 5 1 ++ [0x00, 0x02] ++
  -- sender, target
  josMac ++ [192, 168, 123, 2] ++ req.slice 8 6 ++ req.slice 14 4

section

variable (a : Arr n) (off : ℕ)
include a off

lemma slice_two : a.slice off 2 = [a.get off, a.get (off + 1)] := rfl

lemma slice_four : a.slice off 4 = [a.get off, a.get (off + 1), a.get (off + 2), a.get (off + 3)] := rfl

lemma le16_get16 : le16 (get16 a off) = a.slice off 2 := le16_of16 _ _

lemma le32_get32 : le32 (get32 a off) = a.slice off 4 := le32_of32 _ _ _ _

end

lemma jntohs_get16 {a : Arr n} {off : ℕ} {b c : UInt8} (h : a.slice off 2 = [b, c]) :
    jntohs (get16 a off) = of16 c b := by
  simp only [slice_two, cons.injEq, and_true] at h
  rw [get16, h.1, h.2]
  exact jhtons_of16 _ _

lemma jntohl_get32 {a : Arr n} {off : ℕ} {b c d e : UInt8} (h : a.slice off 4 = [b, c, d, e]) :
    jntohl (get32 a off) = of32 e d c b := by
  simp only [slice_four, cons.injEq, and_true] at h
  rw [get32, h.1, h.2.1, h.2.2.1, h.2.2.2]
  exact jhtonl_of32 _ _ _ _

lemma IsRequest.isArpRequest (h : IsRequest req) : IsArpRequest (ArpHdr.ofArr req) := by
  refine ⟨?_, ?_, ?_, ?_⟩
  · show jntohs (get16 req 0) = arpEthernet
    rw [jntohs_get16 h.hardwareType]
    decide
  · show jntohs (get16 req 2) = arpIpv4
    rw [jntohs_get16 h.protocolType]
    decide
  · show jntohl (get32 req 24) = myIp
    rw [jntohl_get32 h.targetIp]
    decide
  · show jntohs (get16 req 6) = arpRequest
    rw [jntohs_get16 h.opcode]
    decide

lemma arpFrame_eq (req : Arr n) : arpFrame (req.sub 8 6) (arpHost (ArpHdr.ofArr req)) = correctReply req := by
  have hmac : getMyMac.slice 0 6 = josMac := by decide
  have hip : le32 (jhtonl myIp) = [192, 168, 123, 2] := by decide
  have htype : le16 (jhtons ethTypeArp) = [0x08, 0x06] := by decide
  have hop : le16 (jhtons arpReplyOp) = [0x00, 0x02] := by decide
  have hsub : (req.sub 8 6).slice 0 6 = req.slice 8 6 := Arr.slice_sub _ _ (by decide)
  have h0 : jhtons (jntohs (get16 req 0)) = get16 req 0 := jhtons_jntohs _
  have h2 : jhtons (jntohs (get16 req 2)) = get16 req 2 := jhtons_jntohs _
  simp only [arpFrame, EthHdr.bytes, arpAnswer, arpHost, ArpHdr.ofArr, ArpHdr.bytes, h0, h2, hsub, hmac, hip,
    htype, hop, le16_get16, le32_get32, correctReply]
  simp only [append_assoc]
  rfl

lemma arpReply_passes (stale : Stale) (net : Net) {h : ArpHdr} {mac : Mac}
    (hmac : getMacByIp net.arpTable h.sourceIp = some mac) :
    ∃ buf : Arr (ethMaxPacketSize + 1), buf.slice 0 42 = arpFrame mac h ∧ arpReply stale net h =
        e1000Transmit net.nic buf 42 >>= fun r => .ok ({ net with nic := r.1 }, if r.2 < 0 then -1 else 0) := by
  have hdst : ethDestination net { stale.replyHeader with
      ethDestinationMac := mac, ethType := jhtons ethTypeArp }
      (Arr.ofList arpHeaderLen (arpAnswer h).bytes) = .ok mac :=
    if_neg (show ¬jhtons ethTypeArp = jhtons ethTypeIp by decide)
  obtain ⟨buf, hslice, hsend⟩ := ethSend_passes stale net _ _ (by decide) (le_refl arpHeaderLen) hdst
  refine ⟨buf, ?_, ?_⟩
  · rw [Arr.slice_ofList _ (by omega) (by simp), drop_zero, take_of_length_le (by simp)] at hslice
    exact hslice
  · unfold arpReply
    dsimp only
    rw [show (arpAnswer h).targetIp = h.sourceIp from rfl, hmac]
    dsimp only
    rw [hsend]
    show (e1000Transmit net.nic buf 42 >>= _) >>= _ = e1000Transmit net.nic buf 42 >>= _
    cases e1000Transmit net.nic buf 42 with
    | error e => rfl
    | ok r =>
      simp only [ok_bind]
      split <;> rfl

/-- **The reply to an ARP request is correct**: whatever packets have come before, a request whose
sender the table can take makes `arp_resolve` pass the correct reply to `e1000_transmit`. -/
theorem arp_reply_correct (stale : Stale) (calls : List ArpHdr) (net : Net)
    (htable : net.arpTable = runUpdates calls) (hreq : IsRequest req)
    (hroom : HasRoom net.arpTable (get32 req 14)) :
    ∃ buf : Arr (ethMaxPacketSize + 1), buf.slice 0 42 = correctReply req ∧
      arpResolve stale net (ArpHdr.ofArr req) =
        e1000Transmit net.nic buf 42 >>= fun r =>
          .ok ({ learned net (ArpHdr.ofArr req) with nic := r.1 }, if r.2 < 0 then -1 else 0) := by
  obtain ⟨hhw, hproto, hip, hop⟩ := hreq.isArpRequest
  have hmac : getMacByIp (learned net (ArpHdr.ofArr req)).arpTable (arpHost (ArpHdr.ofArr req)).sourceIp =
      some (req.sub 8 6) := by
    refine getMac_update ?_ (update_accepted_iff.mpr hroom)
    rw [htable]
    exact runUpdates_no_static calls
  obtain ⟨buf, hslice, hreply⟩ := arpReply_passes stale _ hmac
  refine ⟨buf, hslice.trans (arpFrame_eq req), ?_⟩
  rw [arpResolve_learned stale net ⟨hhw, hproto⟩, if_pos ⟨hip, hop⟩, hreply]
  rfl

def sampleRequest : Arr 28 :=
  Arr.ofList 28 ([0x00, 0x01, 0x08, 0x00, 6, 4, 0x00, 0x01] ++ [0xca, 0xfe, 0x33, 0x53, 0x82, 0x87] ++
    [192, 168, 123, 1] ++ [0, 0, 0, 0, 0, 0] ++ [192, 168, 123, 2])

theorem arp_reply_correct_sample :
    ∃ buf : Arr (ethMaxPacketSize + 1), buf.slice 0 42 = correctReply sampleRequest ∧
      arpResolve (staleFill 0) (HostEntry.bootNet 0 zeroNic) (ArpHdr.ofArr sampleRequest) =
        e1000Transmit zeroNic buf 42 >>= fun r =>
          .ok ({ learned (HostEntry.bootNet 0 zeroNic) (ArpHdr.ofArr sampleRequest) with nic := r.1 },
            if r.2 < 0 then -1 else 0) :=
  arp_reply_correct (staleFill 0) [] _ rfl ⟨by decide, by decide, by decide, by decide⟩ (by
    refine ⟨_, mem_cons_self .., .inl ?_⟩
    decide)

end Jos.ArpReply
