import Jos.HttpPrefix
import Jos.TcpStep

/-!
What holds of every channel at any time, and what keeps the accesses of `tcp_process` inside
its arrays.

The payload is appended to the receive buffer while the window has a byte more than it needs,
so the last byte of the buffer is never written; it is zero from the start, and every
comparison of the HTTP server ends there.
-/

namespace Jos.TcpInv

open CArray Inet Packets Runs TcpModel TcpStep
open HttpPrefix (httpParse_ok)

/-- What holds of channel `i` at any time. -/
structure ChannelInv (i : Fin 64) (vc : Channel) : Prop where
  host : vc.hostSide = (bootVc i).hostSide
  state : vc.state = .listen ∨ vc.state = .synReceived ∨ vc.state = .established ∨
    vc.state = .closeWait
  room : vc.dataLen.toNat < tcpWindowSize
  empty : vc.state ≠ .established → vc.dataLen = 0
  last : vc.buffer.get (tcpWindowSize - 1) = 0

def TableInv (tab : Table) : Prop := ∀ i, ChannelInv i (tab i)

lemma tableInv_boot : TableInv bootVc := fun i =>
  ⟨rfl, .inl rfl, by show (0 : UInt32).toNat < tcpWindowSize; decide, fun _ => rfl, Arr.get_zero _⟩

variable {i : Fin 64} {r ret : ℤ} {vc vc' : Channel} {g : Segment} {ev : List Event} {tab : Table}

lemma kept_dataLen (hw : Fits vc g) : (kept vc g).dataLen.toNat = vc.dataLen.toNat + g.len.toNat :=
  add_toNat_of_fits hw

lemma kept_last (hw : Fits vc g) (h : vc.buffer.get (tcpWindowSize - 1) = 0) :
    (kept vc g).buffer.get (tcpWindowSize - 1) = 0 := by
  unfold Fits at hw
  show (vc.buffer.splice vc.dataLen.toNat g.payload).get (tcpWindowSize - 1) = 0
  rw [Arr.get_splice_outside _ (.inr (by simp; omega)), h]

lemma ChannelInv.kept (h : ChannelInv i vc) (hs : vc.state = .established) (hw : Fits vc g) :
    ChannelInv i (kept vc g) where
  host := h.host
  state := h.state
  room := by rw [kept_dataLen hw]; exact hw
  empty := fun hne => absurd hs hne
  last := kept_last hw h.last

/-- **Every transition keeps the invariant.** -/
lemma ChannelInv.transition (h : ChannelInv i vc) (ht : Transition r vc g vc' ret ev) : ChannelInv i vc' := by
  cases ht with
  | refuse | ignore => exact h
  | syn hs hf =>
    exact ⟨h.host, .inr (.inl rfl), h.room, fun _ => h.empty (by rw [hs]; decide), h.last⟩
  | handshake hs ha => exact ⟨h.host, .inr (.inr (.inl rfl)), h.room, fun hne => absurd rfl hne, h.last⟩
  | store hs ha hw | storeNothing hs ha hw | replyFails hs ha hw => exact h.kept hs hw
  | reply hs ha hw =>
    exact ⟨h.host, .inr (.inr (.inr rfl)), by show (0 : UInt32).toNat < _; decide, fun _ => rfl, kept_last hw h.last⟩
  | fin hs ha hf =>
    exact ⟨h.host, .inl rfl, h.room, fun _ => h.empty (by rw [hs]; decide), h.last⟩

/-- **No step from a channel with the invariant faults.** -/
lemma ChannelInv.exists_transition (h : ChannelInv i vc) (r : ℤ) (g : Segment) :
    ∃ vc' ret ev, Transition r vc g vc' ret ev := by
  rcases h.state with hs | hs | hs | hs
  · by_cases hf : hasFlag g.pkt thSyn
    · exact ⟨_, _, _, .syn hs hf⟩
    · exact ⟨_, _, _, .refuse (by rw [Refuses, hs]; exact hf)⟩
  · by_cases ha : Accepted vc g
    · exact ⟨_, _, _, .handshake hs ha⟩
    · exact ⟨_, _, _, .refuse (by rw [Refuses, hs]; exact ha)⟩
  · by_cases ha : Accepted vc g
    · by_cases hfull : tcpWindowSize ≤ (vc.dataLen + g.len.toUInt32).toNat
      · exact ⟨_, _, _, .refuse (by rw [Refuses, hs]; exact .inr hfull)⟩
      -- below the window the sum cannot wrap, so the test means what it says
      have hw : Fits vc g := by
        have h1 := h.room
        have h2 := g.fits
        have hsz := sizes
        rw [UInt32.toNat_add, UInt16.toNat_toUInt32, Nat.mod_eq_of_lt (by omega)] at hfull
        exact not_le.mp hfull
      by_cases hp : hasFlag g.pkt thPsh
      · have hk := h.kept hs hw
        obtain ⟨reply, len, hh, -⟩ := httpParse_ok hk.last hk.room (by decide) (Arr.zero tcpDataLen)
        by_cases hr : r = -1
        · exact ⟨_, _, _, .replyFails hs ha hw hp hh hr⟩
        · exact ⟨_, _, _, .reply hs ha hw hp hh hr⟩
      · by_cases hl : g.len = 0
        · exact ⟨_, _, _, .storeNothing hs ha hw hp hl⟩
        · exact ⟨_, _, _, .store hs ha hw hp hl⟩
    · exact ⟨_, _, _, .refuse (by rw [Refuses, hs]; exact .inl ha)⟩
  · by_cases hack : hasFlag g.pkt thAck
    · by_cases hfin : hasFlag g.pkt thFin
      · by_cases ha : Accepted vc g
        · exact ⟨_, _, _, .fin hs ha hfin⟩
        · exact ⟨_, _, _, .refuse (by rw [Refuses, hs]; exact .inr ⟨hfin, ha⟩)⟩
      · exact ⟨_, _, _, .ignore (by rw [Ignores, hs]; exact ⟨hack, hfin⟩)⟩
    · exact ⟨_, _, _, .refuse (by rw [Refuses, hs]; exact .inl hack)⟩

lemma TableInv.update (h : TableInv tab) (hv : ChannelInv i vc') : TableInv (Function.update tab i vc') :=
  (Function.forall_update_iff tab ChannelInv).mpr ⟨hv, fun j _ => h j⟩

lemma TableInv.process (h : TableInv tab) {R : Result Unit} (hR : process r tab g = .ok R) : TableInv R.tab := by
  obtain ⟨i, vc', -, ht, htab⟩ := process_ok_iff.mp hR
  rw [htab]
  exact h.update ((h i).transition ht)

/-- The port of channel `i`. -/
def hostPort (i : Fin 64) : UInt16 := (bootVc i).hostSide.port

lemma hostPort_toNat (i : Fin 64) : (hostPort i).toNat = if i = 0 then 80 else i.val := by
  show (if i = 0 then (80 : UInt16) else i.val.toUInt16).toNat = _
  split
  · rfl
  · rw [toNat_toUInt16]

lemma hostPort_injective : Function.Injective hostPort := by
  intro i j hij
  have h := congrArg UInt16.toNat hij
  rw [hostPort_toNat, hostPort_toNat] at h
  split_ifs at h <;> omega

lemma matchTcpVc_none (h : TableInv tab) (hm : matchTcpVc tab g.pkt = none) (i : Fin 64) :
    hostPort i ≠ jntohs g.pkt.hdr.dstPort := by
  have := List.find?_eq_none.mp hm i (List.mem_finRange i)
  rw [(h i).host] at this
  simpa [hostPort] using this

/-- From a table with the invariant `tcp_process` returns, unless no channel has the port of the
segment. -/
lemma TableInv.process_ok (h : TableInv tab) (r : ℤ) (g : Segment) :
    (∃ R, TcpStep.process r tab g = .ok R) ∨ TcpStep.process r tab g = .error .nullPointer ∧
      ∀ i, hostPort i ≠ jntohs g.pkt.hdr.dstPort := by
  cases hm : matchTcpVc tab g.pkt with
  | none => exact .inr ⟨process_none hm, matchTcpVc_none h hm⟩
  | some i =>
    obtain ⟨vc', ret, ev, ht⟩ := (h i).exists_transition r g
    exact .inl ⟨_, process_some hm ht⟩

lemma tableInv_of_run {xs : List (Segment × ℤ)} {m : Machine} (h : run step boot xs = .ok m) : TableInv m.tab := by
  have hstep : ∀ (m : Machine) (x : Segment × ℤ) (m' : Machine), TableInv m.tab → True →
      step m x = .ok m' → TableInv m'.tab := by
    intro m x m' hm _ h
    obtain ⟨R, hR, rfl⟩ := step_eq_ok h
    exact hm.process hR
  exact run_inv hstep (s := boot) tableInv_boot (fun _ _ => trivial) h

/-- **Every run keeps the invariant and stays inside its arrays.** A run from the initialized
table, whatever the segments and whatever the sends return, comes to an end in a table with the
invariant, whose host ports are pairwise distinct; the one fault it can meet is a segment for a
port that no channel has. -/
theorem tcp_run_invariant (xs : List (Segment × ℤ)) :
    (∃ m, run step boot xs = .ok m ∧ TableInv m.tab ∧
      ∀ i j, (m.tab i).hostSide.port = (m.tab j).hostSide.port → i = j) ∨
    run step boot xs = .error .nullPointer ∧
      ∃ x ∈ xs, ∀ i, hostPort i ≠ jntohs x.1.pkt.hdr.dstPort := by
  have hstep : ∀ (m : Machine) (x : Segment × ℤ), TableInv m.tab →
      (∃ m', step m x = .ok m' ∧ TableInv m'.tab) ∨
        step m x = .error .nullPointer ∧ ∀ i, hostPort i ≠ jntohs x.1.pkt.hdr.dstPort := by
    intro m x hm
    rcases hm.process_ok x.2 x.1 with ⟨R, hR⟩ | ⟨hnull, hport⟩
    · exact .inl ⟨_, by rw [step, hR, ok_bind], hm.process hR⟩
    · exact .inr ⟨by rw [step, hnull, error_bind], hport⟩
  rcases run_inv_or_error (s := boot) hstep tableInv_boot xs with
    ⟨m, hm, hinv⟩ | herr
  · refine .inl ⟨m, hm, hinv, fun i j hij => ?_⟩
    rw [(hinv i).host, (hinv j).host] at hij
    exact hostPort_injective hij
  · exact .inr herr

end Jos.TcpInv
