import Jos.Packets
import Jos.LastWriter

/-!
The ARP cache of `arp.c`: an array of 32 entries that is scanned from the front.

`updateArpTable` stops at the first free entry or at an entry with the sender's address;
`getMacByIp` does not ask whether an entry is in use. The table simulates a last-writer-wins map
for 32 bindings.
-/

namespace Jos.ArpTable

open CArray Inet Packets List

def arpTableMaxSize : ℕ := 32

inductive ArpState
  | free
  | static
  | dynamic
  deriving DecidableEq, Repr

structure ArpEntry where
  sourceIp : UInt32
  sourceMac : Mac
  state : ArpState

structure ArpCache where
  entries : List ArpEntry
  size : entries.length = arpTableMaxSize

def zeroTable : ArpCache :=
  ⟨List.replicate arpTableMaxSize ⟨0, Arr.zero 6, .free⟩, List.length_replicate⟩

def defaultMac : Mac := Arr.ofList 6 [0xca, 0xfe, 0x33, 0x53, 0x82, 0x87]

def initializeArpTable (t : ArpCache) : ArpCache where
  entries :=
    (t.entries.set (arpTableMaxSize - 1) ⟨jhtonl hostIp, defaultMac, .static⟩).mapIdx
      -- the loop starts at `1` and runs over the entry just installed
      fun i e => if 1 ≤ i then { e with state := .free } else e
  size := by simp [t.size]

def getMac : List ArpEntry → UInt32 → Option Mac
  | [], _ => none
  | e :: es, ip => if e.sourceIp = ip then some e.sourceMac else getMac es ip

/-- The address of an entry, `none` for the null pointer. -/
def getMacByIp (t : ArpCache) (ip : UInt32) : Option Mac := getMac t.entries ip

variable {es : List ArpEntry} {l : List (UInt32 × Mac)} {ip : UInt32} {mac : Mac}

lemma getMac_isSome_iff : (getMac es ip).isSome ↔ ∃ e ∈ es, e.sourceIp = ip := by
  induction es with
  | nil => simp [getMac]
  | cons e es ih =>
    rw [getMac, exists_mem_cons_iff]
    split
    · simp [*]
    · rw [ih]
      simp [*]

/-- The scan of `update_arp_table`, with its return value. -/
def update : List ArpEntry → UInt32 → Mac → List ArpEntry × ℤ
  | [], _, _ => ([], -1)
  | e :: es, ip, mac =>
    if e.state = .free then (⟨ip, mac, .dynamic⟩ :: es, 0)
    else if e.sourceIp = ip then
      ((if e.state = .dynamic then { e with sourceMac := mac } else e) :: es, 0)
    else (e :: (update es ip mac).1, (update es ip mac).2)

lemma update_accepted_iff : (update es ip mac).2 = 0 ↔ ∃ e ∈ es, e.state = .free ∨ e.sourceIp = ip := by
  induction es with
  | nil => exact iff_of_false nofun nofun
  | cons e es ih =>
    rw [exists_mem_cons_iff, update]
    by_cases hf : e.state = .free
    · rw [if_pos hf]
      exact iff_of_true rfl (.inl (.inl hf))
    · rw [if_neg hf]
      by_cases hip : e.sourceIp = ip
      · rw [if_pos hip]
        exact iff_of_true rfl (.inl (.inr hip))
      · rw [if_neg hip, ih]
        exact ⟨.inr, fun h => h.resolve_left fun h => h.elim hf hip⟩

lemma getMac_update_isSome_iff : (getMac (update es ip mac).1 ip).isSome ↔ (update es ip mac).2 = 0 := by
  induction es with
  | nil => exact iff_of_false nofun nofun
  | cons e es ih =>
    rw [update]
    by_cases hf : e.state = .free
    · rw [if_pos hf, getMac, if_pos rfl]
      exact iff_of_true rfl rfl
    · rw [if_neg hf]
      by_cases hip : e.sourceIp = ip
      · rw [if_pos hip, getMac, if_pos (by split <;> exact hip)]
        exact iff_of_true rfl rfl
      · rw [if_neg hip, getMac, if_neg hip]
        exact ih

lemma length_update (es : List ArpEntry) (ip : UInt32) (mac : Mac) : (update es ip mac).1.length = es.length := by
  induction es with
  | nil => rfl
  | cons e es ih =>
    unfold update
    split_ifs <;> simp [ih]

def updateArpTable (t : ArpCache) (h : ArpHdr) : ArpCache × ℤ :=
  (⟨(update t.entries h.sourceIp h.sourceMac).1, by rw [length_update, t.size]⟩,
    (update t.entries h.sourceIp h.sourceMac).2)

/-- The table after `initialize_arp_table` and a sequence of `update_arp_table` calls. -/
def runUpdates (calls : List ArpHdr) : ArpCache :=
  calls.foldl (fun t h => (updateArpTable t h).1) (initializeArpTable zeroTable)

lemma runUpdates_snoc (calls : List ArpHdr) (h : ArpHdr) :
    runUpdates (calls ++ [h]) = (updateArpTable (runUpdates calls) h).1 := by
  simp [runUpdates]

def binding (h : ArpHdr) : UInt32 × Mac := (h.sourceIp, h.sourceMac)

def dynEntry (b : UInt32 × Mac) : ArpEntry := ⟨b.1, b.2, .dynamic⟩

/-- The entries are the bindings `l`, then free ones. -/
def Represents (es : List ArpEntry) (l : List (UInt32 × Mac)) : Prop :=
  ∃ fr, es = l.map dynEntry ++ fr ∧ ∀ e ∈ fr, e.state = .free

lemma update_free (fr : List ArpEntry) (hfr : ∀ e ∈ fr, e.state = .free) (ip : UInt32) (mac : Mac) :
    update fr ip mac =
      if 0 < fr.length then (⟨ip, mac, .dynamic⟩ :: fr.tail, 0) else ([], -1) := by
  cases fr with
  | nil => rfl
  | cons e fr => simp [update, hfr e (by simp)]

lemma update_dynEntry (l : List (UInt32 × Mac)) (fr : List ArpEntry)
    (hfr : ∀ e ∈ fr, e.state = .free) (ip : UInt32) (mac : Mac) :
    update (l.map dynEntry ++ fr) ip mac = ((LastWriter.put fr.length l ip mac).1.map dynEntry ++
        fr.drop ((LastWriter.put fr.length l ip mac).1.length - l.length),
        if (LastWriter.put fr.length l ip mac).2 then 0 else -1) := by
  induction l with
  | nil =>
    rw [map_nil, nil_append, update_free fr hfr]
    unfold LastWriter.put
    split
    · simp [dynEntry]
    · rename_i hlen
      have : fr = [] := length_eq_zero_iff.mp (by omega)
      simp [this]
  | cons b l ih =>
    have hfree : (dynEntry b).state ≠ .free := by simp [dynEntry]
    rw [map_cons, cons_append, update, if_neg hfree, LastWriter.put]
    by_cases hb : b.1 = ip
    · -- a refresh in place
      have hip : (dynEntry b).sourceIp = ip := hb
      rw [if_pos hip, if_pos hb]
      simp [dynEntry]
    · have hip : (dynEntry b).sourceIp ≠ ip := hb
      rw [if_neg hip, if_neg hb, ih]
      simp

lemma length_free {t : ArpCache} {fr : List ArpEntry}
    (h : t.entries = l.map dynEntry ++ fr) : fr.length = arpTableMaxSize - l.length := by
  have := t.size
  rw [h, length_append, length_map] at this
  omega

lemma initialize_free : ∀ e ∈ (initializeArpTable zeroTable).entries, e.state = .free := by decide

/-- **The table after any calls is the map after the same calls**, and behind it the table as it
was initialized. -/
theorem runUpdates_entries (calls : List ArpHdr) : (runUpdates calls).entries =
      (LastWriter.run arpTableMaxSize (calls.map binding)).map dynEntry ++ (initializeArpTable zeroTable).entries.drop
          (LastWriter.run arpTableMaxSize (calls.map binding)).length := by
  induction calls using reverseRecOn with
  | nil => rfl
  | append_singleton calls h ih =>
    set l := LastWriter.run arpTableMaxSize (calls.map binding) with hl
    set fr := (initializeArpTable zeroTable).entries.drop l.length with hfr
    have hfree : ∀ e ∈ fr, e.state = .free := fun e he => initialize_free e (mem_of_mem_drop he)
    rw [runUpdates_snoc, map_append, map_singleton, LastWriter.run_snoc, ← hl]
    show (update (runUpdates calls).entries h.sourceIp h.sourceMac).1 = _
    rw [ih, update_dynEntry l fr hfree, length_free ih, hfr, drop_drop]
    have hlen := LastWriter.length_insert arpTableMaxSize l (binding h)
    have hdrop : l.length + ((LastWriter.insert arpTableMaxSize l (binding h)).length - l.length) =
        (LastWriter.insert arpTableMaxSize l (binding h)).length := by omega
    exact congrArg (fun k => (LastWriter.insert arpTableMaxSize l (binding h)).map dynEntry ++
      (initializeArpTable zeroTable).entries.drop k) hdrop

theorem runUpdates_represents (calls : List ArpHdr) : Represents (runUpdates calls).entries
      (LastWriter.run arpTableMaxSize (calls.map binding)) :=
  ⟨_, runUpdates_entries calls, fun e he => initialize_free e (mem_of_mem_drop he)⟩

theorem updateArpTable_verdict (calls : List ArpHdr) (h : ArpHdr) : (updateArpTable (runUpdates calls) h).2 =
      if LastWriter.accepts arpTableMaxSize (LastWriter.run arpTableMaxSize (calls.map binding))
        (binding h) then 0 else -1 := by
  obtain ⟨fr, he, hfr⟩ := runUpdates_represents calls
  rw [LastWriter.accepts, ← length_free he]
  show (update (runUpdates calls).entries h.sourceIp h.sourceMac).2 = _
  rw [he, update_dynEntry _ fr hfr]
  rfl

lemma getMac_of_bound (h : Represents es l) (hl : LastWriter.lookup l ip = some mac) : getMac es ip = some mac := by
  obtain ⟨fr, rfl, -⟩ := h
  induction l with
  | nil => simp [LastWriter.lookup] at hl
  | cons b l ih =>
    rw [map_cons, cons_append, getMac]
    by_cases hb : b.1 = ip
    · have : (dynEntry b).sourceIp = ip := hb
      rw [if_pos this]
      simpa [LastWriter.lookup, dynEntry, hb] using hl
    · have : (dynEntry b).sourceIp ≠ ip := hb
      rw [if_neg this]
      exact ih (by simpa [LastWriter.lookup, hb] using hl)

lemma update_refused (h : (update es ip mac).2 = -1) : (update es ip mac).1 = es := by
  induction es with
  | nil => rfl
  | cons e es ih =>
    rw [update] at h ⊢
    by_cases h1 : e.state = .free
    · rw [if_pos h1] at h
      cases h
    · by_cases h2 : e.sourceIp = ip
      · rw [if_neg h1, if_pos h2] at h
        cases h
      · rw [if_neg h1, if_neg h2] at h ⊢
        rw [ih h]

def FreeSuffix (es : List ArpEntry) : Prop :=
  ∃ used fr, es = used ++ fr ∧ (∀ e ∈ used, e.state ≠ .free) ∧ ∀ e ∈ fr, e.state = .free

def DynamicDistinct (es : List ArpEntry) : Prop :=
  ((es.filter fun e => e.state = .dynamic).map ArpEntry.sourceIp).Nodup

lemma Represents.freeSuffix (h : Represents es l) : FreeSuffix es := by
  obtain ⟨fr, rfl, hfr⟩ := h
  refine ⟨_, fr, rfl, fun e he => ?_, hfr⟩
  obtain ⟨b, -, rfl⟩ := mem_map.mp he
  simp [dynEntry]

lemma Represents.dynamicDistinct (h : Represents es l) (hl : (l.map Prod.fst).Nodup) : DynamicDistinct es := by
  obtain ⟨fr, rfl, hfr⟩ := h
  have h1 : (l.map dynEntry).filter (fun e => e.state = .dynamic) = l.map dynEntry := by
    refine filter_eq_self.mpr fun e he => ?_
    obtain ⟨b, -, rfl⟩ := mem_map.mp he
    simp [dynEntry]
  have h2 : fr.filter (fun e => e.state = .dynamic) = [] := by
    refine filter_eq_nil_iff.mpr fun e he => ?_
    simp [hfr e he]
  have h3 : (l.map dynEntry).map ArpEntry.sourceIp = l.map Prod.fst := by
    rw [map_map]; rfl
  unfold DynamicDistinct
  rw [filter_append, h1, h2, append_nil, h3]
  exact hl

/-- **The ARP cache is a bounded last-writer-wins map.** After any sequence of calls the free
entries are a suffix and the dynamic ones have distinct addresses; a call that returns `-1`
leaves the table as it is; and an address for which some call returned `0` is answered with
the hardware address of the last call made with it. -/
theorem arp_cache_last_writer_wins (calls : List ArpHdr) :
    FreeSuffix (runUpdates calls).entries ∧
    DynamicDistinct (runUpdates calls).entries ∧
    (∀ h, (updateArpTable (runUpdates calls) h).2 = -1 →
      (updateArpTable (runUpdates calls) h).1 = runUpdates calls) ∧
    (∀ pre h post, calls = pre ++ h :: post → (updateArpTable (runUpdates pre) h).2 = 0 →
      getMacByIp (runUpdates calls) h.sourceIp =
        ((calls.filter fun c => c.sourceIp = h.sourceIp).getLast?).map ArpHdr.sourceMac) := by
  have hrep := runUpdates_represents calls
  refine ⟨hrep.freeSuffix, hrep.dynamicDistinct (LastWriter.run_nodup _ _), fun h hr => ?_,
    fun pre h post hc hr => ?_⟩
  · have := update_refused hr
    simp only [updateArpTable, this]
  · have hacc : LastWriter.accepts arpTableMaxSize
        (LastWriter.run arpTableMaxSize (pre.map binding)) (binding h) = true := by
      rw [updateArpTable_verdict] at hr
      by_contra hn
      rw [if_neg hn] at hr
      cases hr
    have hbound := LastWriter.isSome_of_accepted hacc (post.map binding)
    rw [← map_cons, ← map_append, ← hc] at hbound
    -- the map knows the address and has its last value; the table answers like the map
    have hlast := LastWriter.lookup_run _ _ hbound
    obtain ⟨mac, hmac⟩ := Option.isSome_iff_exists.mp hbound
    have hget : getMacByIp (runUpdates calls) h.sourceIp = some mac := getMac_of_bound hrep hmac
    rw [hget, ← hmac, hlast]
    unfold LastWriter.lastValue
    rw [filter_map, getLast?_map, Option.map_map]
    rfl

end Jos.ArpTable
