import Jos.RecvSpec

/-!
The header checksum of IP: what `ip_checksum` computes, and what `ip_recv` accepts.

`ip_recv` does not add up the whole header, as RFC 1071 has it: it computes the checksum of the
rest again and compares. The two differ where a sum of zero can be written in two ways.
-/

namespace Jos.IpVerify

open OnesSum Inet Packets Ip TcpChecksum List

lemma checksumLoop_append {u : List UInt8} (hu : Even u.length) (acc : UInt32) (v : List UInt8) :
    checksumLoop acc (u ++ v) = checksumLoop (checksumLoop acc u) v := by
  induction u using beWords.induct generalizing acc with
  | case1 a b t ih =>
    have ht : Even t.length := by simpa [Nat.even_add_one] using hu
    rw [cons_append, cons_append, checksumLoop, checksumLoop]
    exact ih ht _
  | case2 a => simp at hu
  | case3 => rfl

lemma checksumLoop_le (data : List UInt8) : (checksumLoop 0xffff data).toNat ≤ 0xffff := by
  have hM : (0xffff : UInt32).toNat = rep 0xffff 0xffff := by decide
  rw [checksumLoop_toNat _ (by decide), hM, foldl_eac (by norm_num) _ _ (beWords_le data)]
  exact rep_le (by norm_num) _

def sumNoZero (data : List UInt8) : ℕ :=
  let s := foldCarries (wordSum data)
  if s = 0 then 0xffff else s

lemma sumNoZero_eq (data : List UInt8) : sumNoZero data = rep 0xffff (0xffff + wordSum data) := by
  simp only [sumNoZero, foldCarries_eq]
  rcases Nat.eq_zero_or_pos (wordSum data) with h | h
  · rw [h, rep_zero, if_pos rfl, Nat.add_zero, rep_of_le le_rfl]
  · rw [if_neg (by have := rep_pos (M := 0xffff) h; omega), Nat.add_comm, rep_add_self h]

def VersionOk (hdr : IpHdr) : Prop := hdr.ipVerlen = ipVerLen
  deriving Decidable

def cleared (hdr : IpHdr) : IpHdr := { hdr with ipHeaderChecksum := 0 }

def ChecksumOk (hdr : IpHdr) : Prop := hdr.ipHeaderChecksum = ipChecksum (cleared hdr).bytes
  deriving Decidable

/-- These are the tests of `ip_recv`: a packet whose header does not pass them is refused, with the stack as it was. -/
lemma ipRecv_refuses {n : ℕ} (stale : Stale) (st : Recv.Stack) (pkt : IpPkt n) :
    (¬VersionOk pkt.hdr → Recv.ipRecv stale st pkt = .ok (st, -Recv.eUnsVer)) ∧
      (VersionOk pkt.hdr → ¬ChecksumOk pkt.hdr → Recv.ipRecv stale st pkt = .ok (st, -Recv.eInvChs)) ∧
      (RecvSpec.Dispatched pkt → VersionOk pkt.hdr ∧ ChecksumOk pkt.hdr) :=
  ⟨fun hv => if_pos hv, fun hv hc => (if_neg (not_not.mpr hv)).trans (if_pos hc), fun hd => ⟨hd.verlen, hd.checksum⟩⟩

lemma versionOk_ipSendHdr (packetId : UInt16) (hdr : IpHdr) (length : UInt16) :
    VersionOk (ipSendHdr packetId hdr length) := rfl

lemma checksumOk_ipSendHdr (packetId : UInt16) (hdr : IpHdr) (length : UInt16) :
    ChecksumOk (ipSendHdr packetId hdr length) := rfl

/-- **`ip_checksum` is the checksum of RFC 1071**, its accumulator stays in 16 bits, and what
`ip_send` fills in passes the tests of `ip_recv`. The accumulator after `k` rounds of the loop is
the one after the first `2 * k` bytes. -/
theorem ip_checksum_rfc1071 :
    (∀ data, (jntohs (ipChecksum data)).toNat = 0xffff - sumNoZero data) ∧
      (∀ data k, (checksumLoop 0xffff (data.take (2 * k))).toNat ≤ 0xffff ∧
        (2 * k ≤ data.length → checksumLoop 0xffff data =
          checksumLoop (checksumLoop 0xffff (data.take (2 * k))) (data.drop (2 * k)))) ∧
      ∀ packetId hdr length, VersionOk (ipSendHdr packetId hdr length) ∧
        ChecksumOk (ipSendHdr packetId hdr length) := by
  refine ⟨fun data => ?_, fun data k => ⟨checksumLoop_le _, fun hk => ?_⟩, fun packetId hdr length =>
    ⟨versionOk_ipSendHdr packetId hdr length, checksumOk_ipSendHdr packetId hdr length⟩⟩
  · rw [sumNoZero_eq, ipChecksum_toNat]
  · have hu : Even (data.take (2 * k)).length := by
      rw [length_take, min_eq_left hk]
      exact even_two_mul k
    rw [← checksumLoop_append hu, take_append_drop]

example : jntohs (ipChecksum [0x00, 0x01, 0xf2]) = 0x0dfe := by decide +kernel

lemma wordSum_around {u : List UInt8} (hu : Even u.length) (w : UInt16) (v : List UInt8) :
    wordSum (u ++ (le16 w ++ v)) = wordSum u + (jntohs w).toNat + wordSum v := by
  rw [wordSum_append hu, wordSum_append (by simp), wordSum_le16, Nat.add_assoc]

lemma wordSum_hdr (hdr : IpHdr) :
    wordSum hdr.bytes = wordSum (cleared hdr).bytes + (jntohs hdr.ipHeaderChecksum).toNat := by
  have split : ∀ h : IpHdr, wordSum h.bytes = wordSum ([h.ipVerlen, h.ipTos] ++ le16 h.ipTotalLength ++ le16 h.ipId ++
        le16 h.ipFlagsOffset ++ [h.ipTtl, h.ipProtocol]) + (jntohs h.ipHeaderChecksum).toNat +
        wordSum (le32 h.ipSourceAddress ++ le32 h.ipDestinationAddress) := by
    intro h
    rw [IpHdr.bytes, append_assoc, append_assoc, wordSum_around (by simp; decide)]
  rw [split hdr, split (cleared hdr)]
  simp only [cleared]
  have h0 : (jntohs 0).toNat = 0 := by decide
  rw [h0]
  omega

lemma wordSum_hdr_pos {hdr : IpHdr} (hv : VersionOk hdr) : 0 < wordSum hdr.bytes := by
  have h : hdr.bytes = hdr.ipVerlen :: hdr.ipTos :: hdr.bytes.drop 2 := rfl
  rw [h, hv, wordSum, beWords, sum_cons]
  have : (ipVerLen.toNat) = 0x45 := rfl
  omega

lemma checksumOk_iff {hdr : IpHdr} (hv : VersionOk hdr) : ChecksumOk hdr ↔
      (jntohs hdr.ipHeaderChecksum).toNat = 0xffff - rep 0xffff (wordSum (cleared hdr).bytes) := by
  have hpos : 0 < wordSum (cleared hdr).bytes := wordSum_hdr_pos (show VersionOk (cleared hdr) from hv)
  have hsum := ipChecksum_toNat (cleared hdr).bytes
  rw [Nat.add_comm, rep_add_self hpos] at hsum
  rw [← hsum, ChecksumOk]
  refine ⟨fun h => by rw [← h], fun h => ?_⟩
  have hj := UInt16.toNat_inj.mp h
  rw [← jhtons_jntohs hdr.ipHeaderChecksum, hj, jhtons_jntohs]

/-- **The comparison of `ip_recv` is the test of RFC 1071, but for one value.** The two agree unless
the checksum field is all ones while the rest of the header adds up to zero, written as all ones. -/
theorem checksum_test_rfc1071_iff (hdr : IpHdr) (hv : VersionOk hdr) :
    (ChecksumOk hdr ↔ rfcSum hdr.bytes = 0xffff) ↔
      ¬ (hdr.ipHeaderChecksum = 0xffff ∧ rfcSum (cleared hdr).bytes = 0xffff) := by
  have hpos : 0 < wordSum (cleared hdr).bytes := wordSum_hdr_pos (show VersionOk (cleared hdr) from hv)
  have hall : hdr.ipHeaderChecksum = 0xffff ↔ (jntohs hdr.ipHeaderChecksum).toNat = 0xffff := by
    constructor
    · intro h
      rw [h]
      rfl
    · intro h
      have hj : jntohs hdr.ipHeaderChecksum = 0xffff := UInt16.toNat_inj.mp h
      rw [← jhtons_jntohs hdr.ipHeaderChecksum, hj]
      rfl
  have hc := (jntohs hdr.ipHeaderChecksum).toNat_lt
  have hle := rep_le (M := 0xffff) (by norm_num) (wordSum (cleared hdr).bytes)
  have hrep := rep_pos (M := 0xffff) hpos
  have hmod := rep_modEq (M := 0xffff) (wordSum (cleared hdr).bytes)
  rw [checksumOk_iff hv, rfcSum_eq, rfcSum_eq, wordSum_hdr hdr, hall, rep_eq_max_iff (by norm_num)]
  generalize rep 0xffff (wordSum (cleared hdr).bytes) = r at *
  unfold Nat.ModEq at hmod
  omega

def unverified : IpHdr where
  ipVerlen := ipVerLen
  ipTos := 0
  ipTotalLength := 0
  ipId := 0
  ipFlagsOffset := 0
  ipTtl := 0
  ipProtocol := 0
  ipHeaderChecksum := 0x1234
  ipSourceAddress := 0
  ipDestinationAddress := 0

theorem checksum_test_rfc1071_unverified :
    VersionOk unverified ∧ (ChecksumOk unverified ↔ rfcSum unverified.bytes = 0xffff) :=
  ⟨rfl, (checksum_test_rfc1071_iff unverified rfl).mpr (by decide)⟩

/-- The other words add up to all ones, and the checksum is `0xffff` where `ip_send` would write `0`. -/
def minusZero : IpHdr := { unverified with ipId := 0xffba, ipHeaderChecksum := 0xffff }

theorem checksum_test_minus_zero :
    ¬ ∀ hdr, VersionOk hdr → (ChecksumOk hdr ↔ rfcSum hdr.bytes = 0xffff) := by
  intro h
  have hsum : rfcSum minusZero.bytes = 0xffff := by decide
  have hrefused : ¬ ChecksumOk minusZero := by decide
  exact hrefused ((h minusZero rfl).mpr hsum)

end Jos.IpVerify
