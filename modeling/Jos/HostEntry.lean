import Jos.RecvSpec
import Jos.Runs

/-!
The entry for the host in the ARP table.

`initialize_arp_table` installs it at the end of the table and then frees every entry but the
first, the last one included. The address stays in the freed entry and is found there until the
entry is taken for the sender of a packet.
-/

namespace Jos.HostEntry

open CArray Inet Packets ArpTable E1000 Ip Recv RecvSpec Runs List

structure Arrival where
  stale : Stale
  nic : Nic
  hdr : ArpHdr

def arpStep (net : Net) (x : Arrival) : Except Fault Net := do
  let r ← arpResolve x.stale { net with nic := x.nic } x.hdr
  .ok r.1

/-- The net after `initialize_arp_table`. -/
def bootNet (packetId : UInt16) (nic : Nic) : Net := ⟨initializeArpTable zeroTable, packetId, nic⟩

/-- **The entry installed for the host is still there**, and the host is found. -/
def HostEntryKept (t : ArpCache) : Prop :=
  t.entries.getLast? = (initializeArpTable zeroTable).entries.getLast? ∧
    (getMacByIp t (jhtonl hostIp)).isSome

def updates (xs : List Arrival) : List ArpHdr :=
  (xs.filter fun x => ArpTypesOk x.hdr).map fun x => arpHost x.hdr

def senders (xs : List Arrival) : Finset UInt32 :=
  ((xs.filter fun x => ArpTypesOk x.hdr).map fun x => x.hdr.sourceIp).toFinset

variable {packetId : UInt16} {nic : Nic} {net net' : Net} {x : Arrival} {xs : List Arrival}

lemma transmit_arpTable (net : Net) (frame : List UInt8) : (net.transmit frame).1.arpTable = net.arpTable := by
  unfold Net.transmit
  split <;> rfl

def afterPacket (t : ArpCache) (h : ArpHdr) : ArpCache :=
  if ArpTypesOk h then (updateArpTable t (arpHost h)).1 else t

lemma arpStep_table (h : arpStep net x = .ok net') : net'.arpTable = afterPacket net.arpTable x.hdr := by
  obtain ⟨r, hr, h⟩ := bind_eq_ok.mp h
  cases h
  unfold afterPacket
  by_cases ht : ArpTypesOk x.hdr
  · rw [if_pos ht]
    rw [arpResolve_learned _ _ ht] at hr
    split at hr
    · cases hmac : getMacByIp (learned { net with nic := x.nic } x.hdr).arpTable (arpHost x.hdr).sourceIp with
      | none =>
        rw [arpReply_null _ _ hmac] at hr
        cases hr
      | some mac =>
        rw [arpReply_eq _ _ hmac] at hr
        cases hr
        exact transmit_arpTable _ _
    · cases hr
      rfl
  · rw [if_neg ht]
    rw [arpResolve_other _ _ ht] at hr
    cases hr
    rfl

lemma arpStep_ok (h : ArpTypesOk x.hdr → (updateArpTable net.arpTable (arpHost x.hdr)).2 = 0) :
    ∃ net', arpStep net x = .ok net' := by
  unfold arpStep
  by_cases ht : ArpTypesOk x.hdr
  · rw [arpResolve_learned _ _ ht]
    split
    · obtain ⟨mac, hmac⟩ := Option.isSome_iff_exists.mp (getMac_update_isSome_iff.mpr (h ht))
      have hmac' : getMacByIp (learned { net with nic := x.nic } x.hdr).arpTable
          (arpHost x.hdr).sourceIp = some mac := hmac
      rw [arpReply_eq _ _ hmac', ok_bind]
      exact ⟨_, rfl⟩
    · exact ⟨_, rfl⟩
  · rw [arpResolve_other _ _ ht]
    exact ⟨_, rfl⟩

lemma updates_snoc (xs : List Arrival) (x : Arrival) :
    updates (xs ++ [x]) = if ArpTypesOk x.hdr then updates xs ++ [arpHost x.hdr] else updates xs := by
  unfold updates
  rw [filter_append, map_append]
  by_cases ht : ArpTypesOk x.hdr <;> simp [ht]

lemma run_table (h : run arpStep (bootNet packetId nic) xs = .ok net) : net.arpTable = runUpdates (updates xs) := by
  induction xs using reverseRecOn generalizing net with
  | nil =>
    cases h
    rfl
  | append_singleton xs x ih =>
    obtain ⟨u, hu, hs⟩ := run_snoc_inv h
    rw [arpStep_table hs, ih hu, updates_snoc, afterPacket]
    split
    · rw [runUpdates_snoc]
    · rfl

def bound (xs : List Arrival) : List (UInt32 × Mac) :=
  LastWriter.run arpTableMaxSize ((updates xs).map binding)

lemma bound_room_iff (xs : List Arrival) :
    (bound xs).length < arpTableMaxSize ↔ (senders xs).card < arpTableMaxSize := by
  rw [bound, LastWriter.length_run_lt_iff]
  unfold senders updates
  rw [map_map, map_map]
  rfl

lemma getLast?_runUpdates (xs : List Arrival) : (runUpdates (updates xs)).entries.getLast? =
      if (bound xs).length < arpTableMaxSize then (initializeArpTable zeroTable).entries.getLast?
      else (bound xs).getLast?.map dynEntry := by
  have hsize := (initializeArpTable zeroTable).size
  rw [runUpdates_entries, ← bound, getLast?_append, getLast?_drop, hsize, getLast?_map]
  by_cases hroom : (bound xs).length < arpTableMaxSize
  · rw [if_neg (by omega), if_pos hroom]
    rfl
  · rw [if_pos (by omega), if_neg hroom]
    rfl

lemma hostEntryKept_iff (xs : List Arrival) :
    HostEntryKept (runUpdates (updates xs)) ↔ (bound xs).length < arpTableMaxSize := by
  have hlast := getLast?_runUpdates xs
  constructor
  · rintro ⟨hkept, -⟩
    by_contra hfull
    rw [if_neg hfull, hkept] at hlast
    -- an entry that was taken is dynamic
    cases hb : (bound xs).getLast? with
    | none =>
      rw [hb] at hlast
      cases hlast
    | some b =>
      rw [hb] at hlast
      have hstate : some ArpState.free = some ArpState.dynamic := congrArg (Option.map ArpEntry.state) hlast
      cases hstate
  · intro hroom
    rw [if_pos hroom] at hlast
    refine ⟨hlast, getMac_isSome_iff.mpr ?_⟩
    exact ⟨_, mem_of_getLast? hlast, rfl⟩

lemma run_until_full (packetId : UInt16) (nic : Nic) (xs : List Arrival) :
    ((bound xs).length < arpTableMaxSize ∧ ∃ net, run arpStep (bootNet packetId nic) xs = .ok net) ∨
      ∃ pre net, pre <+: xs ∧ run arpStep (bootNet packetId nic) pre = .ok net ∧
        ¬(bound pre).length < arpTableMaxSize := by
  induction xs using reverseRecOn with
  | nil => exact .inl ⟨by decide, _, rfl⟩
  | append_singleton xs x ih =>
    rcases ih with ⟨hroom, net, hnet⟩ | ⟨pre, net, hpre, h⟩
    · have haccepted : ArpTypesOk x.hdr → (updateArpTable net.arpTable (arpHost x.hdr)).2 = 0 := by
        intro _
        rw [run_table hnet, updateArpTable_verdict, LastWriter.accepts, ← bound,
          LastWriter.put_accepted (by omega), if_pos rfl]
      obtain ⟨net', hs⟩ := arpStep_ok haccepted
      have hrun := (run_snoc_ok hnet x).trans hs
      by_cases hfull : (bound (xs ++ [x])).length < arpTableMaxSize
      · exact .inl ⟨hfull, net', hrun⟩
      · exact .inr ⟨_, net', prefix_rfl, hrun, hfull⟩
    · exact .inr ⟨pre, net, hpre.trans (prefix_append _ _), h⟩

/-- **The entry for the host survives exactly as long as packets have come from at most `31`
different addresses.** -/
theorem host_entry_survives_iff (packetId : UInt16) (nic : Nic) (xs : List Arrival) :
    (∀ pre net, pre <+: xs → run arpStep (bootNet packetId nic) pre = .ok net →
      HostEntryKept net.arpTable) ↔ (senders xs).card < arpTableMaxSize := by
  constructor
  · intro h
    rcases run_until_full packetId nic xs with ⟨hroom, -⟩ | ⟨pre, net, hpre, hnet, hfull⟩
    · exact (bound_room_iff xs).mp hroom
    · have hkept := h pre net hpre hnet
      rw [run_table hnet] at hkept
      exact absurd ((hostEntryKept_iff pre).mp hkept) hfull
  · intro hcard pre net hpre hnet
    rw [run_table hnet]
    refine (hostEntryKept_iff pre).mpr ((bound_room_iff pre).mpr (lt_of_le_of_lt ?_ hcard))
    -- a prefix has no other senders
    refine Finset.card_le_card fun ip hip => ?_
    unfold senders at hip ⊢
    rw [mem_toFinset] at hip ⊢
    exact ((hpre.filter _).map _).subset hip

def announcement (ip : UInt32) : Arrival where
  stale := staleFill 0
  nic := nicHolding []
  hdr := ⟨jhtons arpEthernet, jhtons arpIpv4, 6, 4, jhtons arpRequest, Arr.zero 6, ip, Arr.zero 6, ip⟩

/-- After packets from `32` addresses the host is not found any more. -/
theorem host_entry_lost :
    ¬ ∀ (packetId : UInt16) (nic : Nic) (xs : List Arrival) (net : Net),
      run arpStep (bootNet packetId nic) xs = .ok net → HostEntryKept net.arpTable := by
  intro h
  obtain ⟨net, hnet, hlost⟩ : ∃ net, run arpStep (bootNet 0 (nicHolding []))
      ((range 32).map fun k => announcement (k + 1).toUInt32) = .ok net ∧
        getMacByIp net.arpTable (jhtonl hostIp) = none := by
    decide
  have hkept := (h 0 _ _ net hnet).2
  rw [hlost] at hkept
  cases hkept

end Jos.HostEntry
