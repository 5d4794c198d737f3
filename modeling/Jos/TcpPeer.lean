import Jos.TcpInv

/-!
Who can drive a connection.

The connected states compare the source address of a segment with the peer's, and the numbers
with their own, but none of them looks at the source port. A segment that passes the tests
changes the channel whatever port it comes from.
-/

namespace Jos.TcpPeer

open Inet Packets Runs TcpModel TcpStep TcpInv Function

def FromPeer (vc : Channel) (g : Segment) : Prop :=
  g.srcIp = vc.guestSide.ip ∧ jntohs g.pkt.hdr.srcPort = vc.guestSide.port

/-- **Only the peer drives a connection**: what changes a channel that is not listening comes from its peer.
-/
def OnlyPeer (r : ℤ) (tab : Table) (g : Segment) : Prop :=
  ∀ R, process r tab g = .ok R →
    ∀ i, (tab i).state ≠ .listen → R.tab i ≠ tab i → FromPeer (tab i) g

/-- The segment has an effect on a connected channel. -/
def Drives (r : ℤ) (vc : Channel) (g : Segment) : Prop :=
  match vc.state with
  | .synReceived => Accepted vc g
  | .established => Accepted vc g ∧ Fits vc g ∧ (g.len ≠ 0 ∨ hasFlag g.pkt thPsh ∧ r ≠ -1)
  | .closeWait => Accepted vc g ∧ hasFlag g.pkt thFin
  | _ => False

variable {i : Fin 64} {r ret : ℤ} {vc vc' : Channel} {g : Segment} {ev : List Event} {tab : Table}

lemma Drives.accepted (h : Drives r vc g) : Accepted vc g := by
  unfold Drives at h
  split at h
  · exact h
  · exact h.1
  · exact h.1
  · exact h.elim

lemma not_drives_of_refuses (h : Refuses vc g) : ¬Drives r vc g := by
  unfold Refuses at h
  unfold Drives
  cases hs : vc.state with
  | synReceived => rw [hs] at h; exact h
  | established =>
    rw [hs] at h
    rintro ⟨ha, hw, -⟩
    rcases h with hna | hfull
    · exact hna ha
    · exact not_le_of_fits hw hfull
  | closeWait =>
    rw [hs] at h
    rintro ⟨ha, -⟩
    rcases h with hack | ⟨-, hna⟩
    · exact hack ha.1
    · exact hna ha
  | closed | listen | synSent | finWait1 | closing | finWait2 | timeWait | lastAck => exact id

lemma not_drives_of_ignores (h : Ignores vc g) : ¬Drives r vc g := by
  unfold Ignores at h
  unfold Drives
  cases hs : vc.state with
  | synReceived | established => rw [hs] at h; exact h.elim
  | closeWait =>
    rw [hs] at h
    exact fun hd => h.2 hd.2
  | closed | listen | synSent | finWait1 | closing | finWait2 | timeWait | lastAck => exact id

lemma changed_iff (ht : Transition r vc g vc' ret ev) (hl : vc.state ≠ .listen) : vc' ≠ vc ↔ Drives r vc g := by
  -- where the payload is taken, the channel changes if there is any
  have hkept : Fits vc g → (kept vc g ≠ vc ↔ g.len ≠ 0) := fun hw =>
    ⟨mt kept_of_len_eq_zero, fun h0 hc => dataLen_kept_ne hw h0 (congrArg Channel.dataLen hc)⟩
  have hstate : vc'.state ≠ vc.state → vc' ≠ vc := fun h hc => h (congrArg Channel.state hc)
  cases ht with
  | refuse h => simp [not_drives_of_refuses h]
  | ignore h => simp [not_drives_of_ignores h]
  | syn hs hf => exact absurd hs hl
  | handshake hs ha =>
    refine iff_of_true (hstate (by rw [hs]; exact nofun)) ?_
    rw [Drives, hs]
    exact ha
  | store hs ha hw hp h0 =>
    rw [hkept hw, Drives, hs]
    exact iff_of_true h0 ⟨ha, hw, .inl h0⟩
  | storeNothing hs ha hw hp h0 =>
    rw [hkept hw, Drives, hs]
    simp [h0, hp]
  | replyFails hs ha hw hp hh hr =>
    rw [hkept hw, Drives, hs]
    simp [ha, hw, hr]
  | reply hs ha hw hp hh hr =>
    refine iff_of_true (hstate (by rw [hs]; exact nofun)) ?_
    rw [Drives, hs]
    exact ⟨ha, hw, .inr ⟨hp, hr⟩⟩
  | fin hs ha hf =>
    refine iff_of_true (hstate (by rw [hs]; exact nofun)) ?_
    rw [Drives, hs]
    exact ⟨ha, hf⟩

lemma Drives.state_ne (h : Drives r vc g) : vc.state ≠ .listen := by
  intro hs
  rw [Drives, hs] at h
  exact h

/-- **In every reachable table a step is driven by the peer exactly when a segment that has an
effect on a connected channel comes from the peer's port.** -/
theorem tcp_only_peer_iff (xs : List (Segment × ℤ)) (m : Machine) (h : run step boot xs = .ok m)
    (r : ℤ) (g : Segment) :
    OnlyPeer r m.tab g ↔ ∀ i, matchTcpVc m.tab g.pkt = some i → Drives r (m.tab i) g →
      jntohs g.pkt.hdr.srcPort = (m.tab i).guestSide.port := by
  have hinv := tableInv_of_run h
  constructor
  · intro hpeer i hm hd
    obtain ⟨vc', ret, ev, ht⟩ := (hinv i).exists_transition r g
    have hne : update m.tab i vc' i ≠ m.tab i := by
      rw [update_self]
      exact (changed_iff ht hd.state_ne).mpr hd
    exact (hpeer _ (process_some hm ht) i hd.state_ne hne).2
  · intro hport R hR i hl hne
    obtain ⟨j, vc', hm, ht, htab⟩ := process_ok_iff.mp hR
    rw [htab] at hne
    -- only the channel the segment is for can have changed
    have hij : i = j := by
      by_contra hij
      exact hne (update_of_ne hij _ _)
    subst hij
    rw [update_self] at hne
    have hd := (changed_iff ht hl).mp hne
    exact ⟨hd.accepted.2.1, hport i hm hd⟩

def synRun : List (Segment × ℤ) := [(.make hostIp 8080 thSyn 7 0 [] nil_fits, 0)]

/-- The acknowledgement comes from the client's port. -/
theorem tcp_only_peer_handshake :
    ∃ m, run step boot synRun = .ok m ∧
      OnlyPeer 0 m.tab (.make hostIp 8080 thAck 8 8 [] (by decide)) := by
  obtain ⟨m, hm, hport, hmatch⟩ : ∃ m, run step boot synRun = .ok m ∧
      (m.tab 0).guestSide.port = 8080 ∧
        matchTcpVc m.tab (Segment.make hostIp 8080 thAck 8 8 [] (by decide)).pkt = some 0 := by
    decide
  refine ⟨m, hm, (tcp_only_peer_iff synRun m hm 0 _).mpr fun i hi _ => ?_⟩
  cases hmatch.symm.trans hi
  rw [hport]
  decide

/-- An acknowledgement from another port completes the client's handshake. -/
theorem tcp_not_only_peer :
    ¬ ∀ (xs : List (Segment × ℤ)) (m : Machine), run step boot xs = .ok m →
      ∀ (r : ℤ) (g : Segment), OnlyPeer r m.tab g := by
  intro h
  obtain ⟨m, hm, hs, hport, hmatch, ha⟩ : ∃ m, run step boot synRun = .ok m ∧
      (m.tab 0).state = .synReceived ∧ (m.tab 0).guestSide.port = 8080 ∧
        matchTcpVc m.tab (Segment.make hostIp 9999 thAck 8 8 [] (by decide)).pkt = some 0 ∧
          Accepted (m.tab 0) (Segment.make hostIp 9999 thAck 8 8 [] (by decide)) := by
    decide
  have ht := Transition.handshake (r := 0) hs ha
  have hne : update m.tab 0 { m.tab 0 with state := .established } 0 ≠ m.tab 0 := by
    rw [update_self]
    intro hc
    exact absurd ((congrArg Channel.state hc).trans hs) nofun
  have hpeer := h synRun m hm 0 _ _ (process_some hmatch ht) 0 (by rw [hs]; decide) hne
  have hbad := hpeer.2.trans hport
  revert hbad
  decide

open List

/-- The step of a SYN that found the channel listening. -/
def Syn (i : Fin 64) (vc : Channel) (n : Entry) : Prop :=
  matchTcpVc n.tab n.seg.pkt = some i ∧ (n.tab i).state = .listen ∧ hasFlag n.seg.pkt thSyn ∧ FromPeer vc n.seg

/-- The step of the acknowledgement that ended the handshake. -/
def Ack (i : Fin 64) (vc : Channel) (n : Entry) : Prop :=
  matchTcpVc n.tab n.seg.pkt = some i ∧ (n.tab i).state = .synReceived ∧
    (n.tab i).guestSide = vc.guestSide ∧ Accepted (n.tab i) n.seg

/-- How a channel came into its state. -/
def Opened (log : List Entry) (i : Fin 64) (vc : Channel) : Prop :=
  match vc.state with
  | .listen => True
  | .synReceived => ∃ n ∈ log, Syn i vc n
  | _ => ∃ n n', [n, n'] <+ log ∧ Syn i vc n ∧ Ack i vc n'

lemma Opened.append (h : Opened log i vc) (n : Entry) : Opened (log ++ [n]) i vc := by
  unfold Opened at h ⊢
  split
  · trivial
  · next hs =>
    rw [hs] at h
    exact h.imp fun _ hn => ⟨mem_append_left _ hn.1, hn.2⟩
  · split at h
    any_goals contradiction
    exact h.imp fun _ h => h.imp fun _ h => ⟨h.1.trans (sublist_append_left ..), h.2⟩

lemma Opened.transition {R : Result Unit} (hm : matchTcpVc tab g.pkt = some i)
    (ht : Transition r (tab i) g vc' ret ev) (h : Opened log i (tab i)) :
    Opened (log ++ [⟨tab, g, R⟩]) i vc' := by
  have happ := h.append ⟨tab, g, R⟩
  cases ht with
  | refuse | ignore | store | storeNothing | replyFails => exact happ
  | syn hs hf => exact ⟨_, mem_append_right _ (mem_singleton_self _), hm, hs, hf, rfl, rfl⟩
  | handshake hs ha =>
    rw [Opened, hs] at h
    obtain ⟨n, hn, hsyn⟩ := h
    exact ⟨n, _, (singleton_sublist.mpr hn).append (.refl _), hsyn, hm, hs, rfl, ha⟩
  | reply hs =>
    rw [Opened, hs] at happ
    exact happ
  | fin => trivial

/-- **No connection without a handshake**: in every run, a channel in use was opened by a SYN of its peer, and
then by an acknowledgement of the server's. -/
theorem tcp_handshake_first (xs : List (Segment × ℤ)) (m : Machine) (h : run step boot xs = .ok m) (i : Fin 64) :
    Opened m.log i (m.tab i) := by
  have hstep : ∀ (m : Machine) (x : Segment × ℤ) (m' : Machine), (∀ i, Opened m.log i (m.tab i)) → True →
      step m x = .ok m' → ∀ i, Opened m'.log i (m'.tab i) := by
    intro m x m' hinv _ hm'
    obtain ⟨R, hR, rfl⟩ := step_eq_ok hm'
    obtain ⟨i, vc', hm, ht, htab⟩ := process_ok_iff.mp hR
    rw [htab]
    exact (forall_update_iff _ (Opened _)).mpr ⟨(hinv i).transition hm ht, fun j _ => (hinv j).append _⟩
  exact run_inv hstep (s := boot) (fun _ => trivial) (fun _ _ => trivial) h i

theorem tcp_handshake_first_ack :
    ∃ m, run step boot (synRun ++ [(.make hostIp 8080 thAck 8 8 [] nil_fits, 0)]) = .ok m ∧
      (m.tab 0).state = .established ∧ Opened m.log 0 (m.tab 0) := by
  have hrun : ∃ m, run step boot (synRun ++ [(.make hostIp 8080 thAck 8 8 [] nil_fits, 0)]) = .ok m ∧
      (m.tab 0).state = .established := by decide
  obtain ⟨m, hm, hs⟩ := hrun
  exact ⟨m, hm, hs, tcp_handshake_first _ m hm 0⟩

end Jos.TcpPeer
