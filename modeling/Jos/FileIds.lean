import Jos.FsRequests

/-!
The ids of open files. They are unsigned, but `openfile_alloc` returns them as an `int` that is an error
code where it is negative: each entry of the table has a negative id once it has been taken `2 ^ 22` times.
-/

namespace Jos.FsServe

open ByteMem CArray Fs Runs List

/-- `serve_init` -/
def serveInit (m : Bytes) : Server := ⟨m, fun i => ⟨BitVec.ofNat 32 i, 0⟩⟩

/-- The entry that `openfile_alloc` takes for the request -/
def taken (r : Request) : Option ℕ := if r.req.toNat = 1 then (openfileAlloc r).toOption else none

/-- The id `openfile_alloc` then returns -/
def nextId (s : Server) (i : ℕ) : BitVec 32 := (s.opentab i).fileid + BitVec.ofNat 32 maxOpen

/-- The entries taken and the ids returned, in order -/
def returned (s : Server) : List Request → List (ℕ × BitVec 32)
  | [] => []
  | r :: rs =>
    ((taken r).map fun i => (i, nextId s i)).toList ++
      match serveStep s r with
      | .ok t => returned t rs
      | .error _ => []

def idsOf (i : ℕ) (log : List (ℕ × BitVec 32)) : List (BitVec 32) := (log.filter (·.1 = i)).map Prod.snd

/-- The ids returned for an entry are no error codes, and as many as `2 ^ 20` in a row are distinct. -/
def FreshIds (log : List (ℕ × BitVec 32)) : Prop :=
  ∀ i, (∀ id ∈ idsOf i log, 0 ≤ id.toInt) ∧
    ∀ a b, a < b → b ≤ a + 2 ^ 20 → b < (idsOf i log).length → (idsOf i log)[a]? ≠ (idsOf i log)[b]?

/-- An id is accepted only if it is the last one returned for its entry and a client has the page mapped.
Pages that have not been allocated have no mapping. -/
def LooksUpLast (s : Server) (log : List (ℕ × BitVec 32)) : Prop :=
  ∀ (r : Request) (fileid : BitVec 32) (i : ℕ), (∀ j, r.refs j ≠ 0 → idsOf j log ≠ []) →
    openfileLookup r s fileid = some i →
      i = fileid.toNat % maxOpen ∧ (idsOf i log).getLast? = some fileid ∧ 1 < r.refs i

/-- The `n`-th id of an entry -/
def slotId (i n : ℕ) : BitVec 32 := BitVec.ofNat 32 (i + maxOpen * n)

variable {s t : Server} {r : Request} {rs : List Request} {i : ℕ} {res : ℤ}

lemma withFile_opentab {k : ℕ → ℕ → Except Stop (Server × ℤ)}
    (hk : ∀ i f t res, k i f = .ok (t, res) → t.opentab = s.opentab) (h : withFile r s k = .ok (t, res)) :
    t.opentab = s.opentab := by
  unfold withFile at h
  split at h
  · cases h
    rfl
  · split_ifs at h
    exact hk _ _ _ _ h

lemma advance_opentab {w : Transfer ℤ} (h : advance s i w = .ok (t, res)) : t.opentab = s.opentab := by
  unfold advance at h
  split at h
  · cases h
  · split_ifs at h <;> cases h <;> rfl

lemma serveOpen_fileid (h : serveOpen r s = .ok (t, res)) (i : ℕ) :
    (t.opentab i).fileid = if (openfileAlloc r).toOption = some i then nextId s i else (s.opentab i).fileid := by
  unfold serveOpen at h
  cases ha : openfileAlloc r with
  | error e =>
    simp only [ha, Except.ok.injEq, Prod.mk.injEq] at h
    simp [← h.1, Except.toOption]
  | ok j =>
    have htake : ((s.take j).opentab i).fileid = if j = i then nextId s i else (s.opentab i).fileid := by
      by_cases hj : j = i
      · simp [Server.take, nextId, hj]
      · simp [Server.take, hj, Function.update_of_ne (Ne.symm hj)]
    simp only [ha] at h
    simp only [Except.toOption, Option.some.injEq, ← htake]
    by_cases hneg : ((s.take j).opentab j).fileid.toInt < 0
    · rw [if_pos hneg] at h
      cases h
      rfl
    · rw [if_neg hneg] at h
      obtain ⟨⟨m, x⟩, -, h⟩ := bind_eq_ok.mp h
      cases x with
      | error e =>
        cases h
        rfl
      | ok f =>
        dsimp only at h
        split_ifs at h
        all_goals
          obtain ⟨m, -, h⟩ := bind_eq_ok.mp h
          obtain ⟨⟨m, x⟩, -, h⟩ := bind_eq_ok.mp h
          cases x with
          | error e =>
            cases h
            rfl
          | ok f =>
            cases h
            by_cases hj : j = i
            · simp [hj]
            · simp [Function.update_of_ne (Ne.symm hj)]

lemma serve_opentab (h : serve s r = .ok (t, res)) (h1 : r.req.toNat ≠ 1) : t.opentab = s.opentab := by
  unfold serve at h
  change _ = (s.set (receive s.mem r)).opentab
  dsimp only at h
  split at h
  next hreq => exact absurd hreq h1
  · refine withFile_opentab (fun i f t res hk => ?_) h
    obtain ⟨m, -, hk⟩ := bind_eq_ok.mp hk
    cases hk
    rfl
  · exact withFile_opentab (fun i f t res hk => advance_opentab hk) h
  · exact withFile_opentab (fun i f t res hk => advance_opentab hk) h
  · refine withFile_opentab (fun i f t res hk => ?_) h
    cases hk
    rfl
  · refine withFile_opentab (fun i f t res hk => ?_) h
    replace hk := then_ok hk
    cases hk
    rfl
  all_goals
    cases h
    rfl

/-- **A request changes an id only by taking the entry.** -/
lemma serveStep_fileid (h : serveStep s r = .ok t) (i : ℕ) :
    (t.opentab i).fileid = if taken r = some i then nextId s i else (s.opentab i).fileid := by
  unfold serveStep at h
  cases hs : serve s r with
  | error e => simp [hs, Except.map] at h
  | ok p =>
    simp only [hs, Except.map, Except.ok.injEq] at h
    subst h
    by_cases h1 : r.req.toNat = 1
    · rw [taken, if_pos h1]
      simp only [serve, h1] at hs
      exact serveOpen_fileid hs i
    · simp [taken, h1, serve_opentab hs h1]

lemma taken_lt (h : taken r = some i) : i < maxOpen := by
  unfold taken openfileAlloc at h
  split at h
  · split at h
    · cases h
    · rename_i j hj
      have hlt : j < maxOpen := mem_range.mp (mem_of_find?_eq_some hj)
      split_ifs at h
      · cases h
      · cases h
        exact hlt
  · cases h

lemma idsOf_cons_ok (hs : serveStep s r = .ok t) :
    idsOf i (returned s (r :: rs)) = (if taken r = some i then [nextId s i] else []) ++ idsOf i (returned t rs) := by
  cases htaken : taken r with
  | none => simp [returned, hs, htaken]
  | some j => by_cases hj : j = i <;> simp [returned, hs, htaken, idsOf, hj]

lemma idsOf_cons_stop {e : Stop} (hs : serveStep s r = .error e) :
    idsOf i (returned s (r :: rs)) = if taken r = some i then [nextId s i] else [] := by
  cases htaken : taken r with
  | none => simp [returned, hs, htaken, idsOf]
  | some j => by_cases hj : j = i <;> simp [returned, hs, htaken, idsOf, hj]

lemma idsOf_of_ge (hi : maxOpen ≤ i) : idsOf i (returned s rs) = [] := by
  have htaken : ∀ r, taken r ≠ some i := fun r h => absurd (taken_lt h) (not_lt.mpr hi)
  induction rs generalizing s with
  | nil => rfl
  | cons r rs ih =>
    cases hs : serveStep s r with
    | error e => simp [idsOf_cons_stop hs, htaken]
    | ok t => simp [idsOf_cons_ok hs, htaken, ih]

lemma nextId_eq {c : ℕ} (hc : (s.opentab i).fileid = slotId i c) : nextId s i = slotId i (c + 1) := by
  rw [nextId, hc, slotId, slotId, ← BitVec.ofNat_add, Nat.mul_add, Nat.mul_one, Nat.add_assoc]

/-- **The ids of an entry count up**, from the one that it has. -/
lemma getElem?_idsOf {c n : ℕ} {id : BitVec 32} (hc : (s.opentab i).fileid = slotId i c)
    (h : (idsOf i (returned s rs))[n]? = some id) : id = slotId i (c + n + 1) := by
  induction rs generalizing s c n with
  | nil => simp [returned, idsOf] at h
  | cons r rs ih =>
    cases hs : serveStep s r with
    | error e =>
      rw [idsOf_cons_stop hs] at h
      split_ifs at h
      · cases n <;> simp_all [nextId_eq hc]
      · simp at h
    | ok t =>
      have ht := serveStep_fileid hs i
      rw [idsOf_cons_ok hs] at h
      split_ifs at h ht
      · rw [nextId_eq hc] at h ht
        cases n with
        | zero => simpa using h.symm
        | succ n =>
          rw [ih ht (by simpa using h)]
          congr 1
          omega
      · exact ih (ht.trans hc) h

lemma fileid_run (h : run serveStep s rs = .ok t) (i : ℕ) :
    (t.opentab i).fileid = ((idsOf i (returned s rs)).getLast?).getD (s.opentab i).fileid := by
  induction rs generalizing s with
  | nil =>
    cases h
    simp [returned, idsOf]
  | cons r rs ih =>
    cases hs : serveStep s r with
    | error e =>
      rw [run_cons_error hs] at h
      cases h
    | ok u =>
      rw [run_cons_ok hs] at h
      rw [ih h, idsOf_cons_ok hs, serveStep_fileid hs]
      split_ifs
      · rw [getLast?_append]
        cases (idsOf i (returned u rs)).getLast? <;> simp
      · rfl

lemma slotId_inj {a b : ℕ} (h : slotId i a = slotId i b) : a % 2 ^ 23 = b % 2 ^ 23 := by
  have := congrArg BitVec.toNat h
  simp only [slotId, BitVec.toNat_ofNat, maxOpen] at this
  omega

lemma slotId_nonneg_iff {n : ℕ} (hi : i < maxOpen) (hn : n < 2 ^ 23) : 0 ≤ (slotId i n).toInt ↔ n < 2 ^ 22 := by
  rw [BitVec.toInt_eq_toNat_cond]
  simp only [slotId, BitVec.toNat_ofNat, maxOpen] at *
  split_ifs <;> omega

/-- **Open-file ids**: those returned are no error codes and differ from the ones before, and no other ids
are accepted, in exactly the runs in which no entry is taken `2 ^ 22` times. -/
theorem open_ids_iff (m : Bytes) (rs : List Request) :
    FreshIds (returned (serveInit m) rs) ∧
        (∀ pre t, pre <+: rs → run serveStep (serveInit m) pre = .ok t →
          LooksUpLast t (returned (serveInit m) pre)) ↔
      ∀ i, (idsOf i (returned (serveInit m) rs)).length < 2 ^ 22 := by
  have hinit : ∀ i, ((serveInit m).opentab i).fileid = slotId i 0 := fun i => by simp [serveInit, slotId]
  have hlt : ∀ {i}, idsOf i (returned (serveInit m) rs) ≠ [] → i < maxOpen := fun hne =>
    not_le.mp fun hi => hne (idsOf_of_ge hi)
  constructor
  · rintro ⟨hfresh, -⟩ i
    by_contra hlong
    have hn : 2 ^ 22 - 1 < (idsOf i (returned (serveInit m) rs)).length := by omega
    have hid := getElem?_idsOf (hinit i) (getElem?_eq_getElem hn)
    have hneg := (hfresh i).1 _ (getElem_mem hn)
    rw [hid, slotId_nonneg_iff (hlt (ne_nil_of_length_pos (by omega))) (by omega)] at hneg
    omega
  · intro hshort
    refine ⟨fun i => ⟨fun id hid => ?_, fun a b hab hle hb heq => ?_⟩,
      fun pre t hpre ht r fileid i hrefs h => ?_⟩
    · obtain ⟨n, hn⟩ := getElem?_of_mem hid
      have hlen := (List.getElem?_eq_some_iff.mp hn).1
      have := hshort i
      rw [getElem?_idsOf (hinit i) hn, slotId_nonneg_iff (hlt (ne_nil_of_mem hid)) (by omega)]
      omega
    · have hidb := getElem?_eq_getElem hb
      have := slotId_inj ((getElem?_idsOf (hinit i) (heq.trans hidb)).symm.trans (getElem?_idsOf (hinit i) hidb))
      omega
    · obtain rfl := openfileLookup_eq h
      have hrun := fileid_run ht (fileid.toNat % maxOpen)
      simp only [openfileLookup, ite_eq_iff, not_or, not_not, not_le] at h
      obtain ⟨-, h⟩ | ⟨⟨hr, hid⟩, -⟩ := h
      · cases h
      · have hne := hrefs (fileid.toNat % maxOpen) (by omega)
        obtain ⟨id, hlast⟩ := Option.ne_none_iff_exists'.mp (mt getLast?_eq_none_iff.mp hne)
        rw [hlast, Option.getD_some, hid] at hrun
        exact ⟨rfl, hrun ▸ hlast, hr⟩

def openRoot (k : ℕ) : Request where
  req := 1
  page := fun _ => 0
  fds := fun _ => 0
  refs := fun i => if i = 0 then k else 0
  alloc := 0

lemma openfileAlloc_openRoot {k : ℕ} (hk : k ≤ 1) : openfileAlloc (openRoot k) = .ok 0 := by
  have hfind : ∀ n, (range (n + 1)).find? (fun i => decide ((openRoot k).refs i ≤ 1)) = some 0 := fun n => by
    simp [range_succ_eq_map, openRoot, hk]
  unfold openfileAlloc
  simp only [show (range maxOpen).find? (fun i => decide ((openRoot k).refs i ≤ 1)) = some 0 from hfind 511]
  simp [openRoot]

lemma openRoot_ok {k : ℕ} (hk : k ≤ 1) (s : Server) : ∃ t, serveStep s (openRoot k) = .ok t := by
  have hnil : ∀ n, ((range (n + 1)).map fun j => receive s.mem (openRoot k) (fsreq + j)).takeWhile
      (· != 0) = [] := fun n => by simp [range_succ_eq_map, receive, fsreq, pageSize, openRoot]
  have hpath : reqPath (receive s.mem (openRoot k)) = [] := hnil 1022
  have hmode : get32 (receive s.mem (openRoot k)) (fsreq + maxPathLen) = 0#32 := by
    simp [get32, receive, fsreq, pageSize, openRoot, maxPathLen]
  have hopen : ∀ m, fileOpen [] m = .ok (m, .ok rootFile) := fun m => rfl
  have hserve : serve s (openRoot k) = serveOpen (openRoot k) (s.set (receive s.mem (openRoot k))) := rfl
  unfold serveStep
  rw [hserve]
  unfold serveOpen
  simp only [openfileAlloc_openRoot hk, Server.set, hpath, hmode, openOrCreate, hopen, BitVec.zero_and,
    BitVec.ofNat_eq_ofNat, ne_eq, not_true_eq_false, if_false]
  split_ifs <;> exact ⟨_, rfl⟩

lemma length_idsOf_openRoot (h : ∀ r ∈ rs, ∃ k ≤ 1, r = openRoot k) :
    (idsOf 0 (returned s rs)).length = rs.length := by
  induction rs generalizing s with
  | nil => rfl
  | cons r rs ih =>
    obtain ⟨k, hk, rfl⟩ := h r mem_cons_self
    obtain ⟨t, ht⟩ := openRoot_ok hk s
    have htaken : taken (openRoot k) = some 0 := by
      rw [taken, if_pos (show (openRoot k).req.toNat = 1 from rfl), openfileAlloc_openRoot hk]
      rfl
    rw [idsOf_cons_ok ht, if_pos htaken, length_append, ih fun r hr => h r (mem_cons_of_mem _ hr)]
    simp [Nat.add_comm]

/-- The root is opened `2 ^ 22` times, each time after it has been closed. -/
theorem open_id_negative :
    ∃ id ∈ idsOf 0 (returned (serveInit (FsOwners.newDisk 5)) (openRoot 0 :: List.replicate (2 ^ 22 - 1) (openRoot 1))),
      id.toInt < 0 := by
  have hroot : ∀ r ∈ openRoot 0 :: replicate (2 ^ 22 - 1) (openRoot 1), ∃ k ≤ 1, r = openRoot k := fun r hr => by
    obtain rfl | hr := mem_cons.mp hr
    · exact ⟨0, by omega, rfl⟩
    · exact ⟨1, le_rfl, eq_of_mem_replicate hr⟩
  have hlen := length_idsOf_openRoot (s := serveInit (FsOwners.newDisk 5)) hroot
  rw [length_cons, length_replicate] at hlen
  refine ⟨_, getElem_mem hlen.ge, ?_⟩
  rw [getElem?_idsOf (c := 0) (by simp [serveInit, slotId]) (getElem?_eq_getElem hlen.ge)]
  decide

end Jos.FsServe
