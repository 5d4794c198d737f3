import Jos.Http

/-!
The HTTP server as a machine that reads a byte a step, and what the first bytes of a request
decide about the reply.

The machine keeps which of the three words it is in, and where the third begins: the version is
compared when that word ends, with the bytes that lie in the buffer.
-/

namespace Jos.HttpPrefix

open CArray Http List Nat Arr

variable {n : ℕ} {a a' : Arr n} {length q : ℕ}

/-- A version the server knows lies at `w`. -/
def VersionAt (a : Arr n) (w : ℕ) : Prop :=
  a.slice w httpVer.length = httpVer ∨ a.slice w httpVerCompatible.length = httpVerCompatible
  deriving Decidable

/-- The byte at `i` ends a word. -/
def Separator (a : Arr n) (i : ℕ) : Prop := a.get i = 32 ∨ a.get i = 10
  deriving Decidable

/-- The word the server is in; the third one with its start. -/
inductive Phase
  | method
  | uri
  | version (start : ℕ)
  | answered (code : ℤ)

/-- The end of a word at `i`. -/
def Phase.endWord (a : Arr n) (i : ℕ) : Phase → Phase
  | .method => if a.slice 0 httpMethod.length = httpMethod then .uri else .answered 400
  | .uri => .version (i + 1)
  | .version w => .answered (if VersionAt a w then 200 else 505)
  | .answered code => .answered code

def Phase.next (a : Arr n) (length i : ℕ) (ph : Phase) : Phase :=
  if Separator a i ∨ i = length then ph.endWord a i else ph

/-- The `k` bytes from `i` on. -/
def Phase.run (a : Arr n) (length : ℕ) : ℕ → ℕ → Phase → Phase
  | 0, _, ph => ph
  | k + 1, i, ph => run a length k (i + 1) (ph.next a length i)

def Phase.status : Phase → ℤ
  | .answered code => code
  | _ => 400

/-- The phase after the first `q` bytes. -/
def phaseAt (a : Arr n) (length q : ℕ) : Phase := Phase.run a length q 0 .method

def answerTo (a : Arr n) (length : ℕ) : ℤ := (phaseAt a length (length + 1)).status

lemma run_add (k j i : ℕ) (ph : Phase) :
    Phase.run a length (k + j) i ph = Phase.run a length j (i + k) (Phase.run a length k i ph) := by
  induction k generalizing i ph with
  | zero => rw [zero_add]; rfl
  | succ k ih => rw [succ_add, Phase.run, ih, Phase.run, add_right_comm, add_assoc]

variable {lit : List UInt8} {ph : Phase} {w i k : ℕ}

lemma next_of_not_separator (hs : ¬Separator a i) (hl : i ≠ length) (ph : Phase) :
    ph.next a length i = ph := if_neg (not_or.mpr ⟨hs, hl⟩)

lemma next_answered (i : ℕ) (code : ℤ) : (Phase.answered code).next a length i = .answered code := ite_self _

lemma run_answered (k i : ℕ) (code : ℤ) : Phase.run a length k i (.answered code) = .answered code := by
  induction k generalizing i with
  | zero => rfl
  | succ k ih => rw [Phase.run, next_answered, ih]

def Plain (lit : List UInt8) : Prop := ∀ c ∈ lit, c ≠ 0 ∧ c ≠ 32 ∧ c ≠ 10

lemma plain_of_all (h : lit.all fun c => c ≠ 0 ∧ c ≠ 32 ∧ c ≠ 10) : Plain lit :=
  fun c hc => of_decide_eq_true (all_eq_true.mp h c hc)

lemma plain_httpMethod : Plain httpMethod := plain_of_all (by decide)

lemma plain_httpVer : Plain httpVer := plain_of_all (by decide)

lemma plain_httpVerCompatible : Plain httpVerCompatible := plain_of_all (by decide)

/-- A comparison with a literal, in an array that ends in a zero or has room for the literal. -/
lemma strncmp_spec {p : ℕ} (h0 : a.get (n - 1) = 0 ∧ p < n ∨ p + lit.length ≤ n) (hlit : Plain lit) :
    ∃ d, strncmp a p lit lit.length = .ok d ∧ (d = 0 ↔ a.slice p lit.length = lit) := by
  induction lit generalizing p with
  | nil => exact ⟨0, rfl, by simp⟩
  | cons x t ih =>
    have hx : x ≠ 0 := (hlit x (by simp)).1
    rw [length_cons] at h0
    have hp : p < n := by omega
    have hslice : a.slice p (x :: t).length = a.get p :: a.slice (p + 1) t.length := by
      rw [length_cons, add_comm, slice_add]
      rfl
    have hcmp : strncmp a p (x :: t) (x :: t).length =
        if a.get p ≠ 0 ∧ a.get p = x then strncmp a (p + 1) t t.length
        else .ok ((a.get p).toNat - x.toNat) := by
      rw [length_cons, strncmp, a.rd_ok hp, ok_bind]
      rfl
    rw [hcmp, hslice, cons.injEq]
    by_cases hc : a.get p = x
    · have hnext : a.get (n - 1) = 0 ∧ p + 1 < n ∨ p + 1 + t.length ≤ n := by
        rcases h0 with ⟨h0, -⟩ | hroom
        · have hne : p ≠ n - 1 := by
            rintro rfl
            exact hx (hc.symm.trans h0)
          exact .inl ⟨h0, by omega⟩
        · exact .inr (by omega)
      rw [if_pos ⟨hc ▸ hx, hc⟩]
      obtain ⟨d, hd, hiff⟩ := ih hnext fun c hmem => hlit c (by simp [hmem])
      exact ⟨d, hd, by rw [hiff]; simp [hc]⟩
    · rw [if_neg fun h => hc h.2]
      refine ⟨_, rfl, ?_⟩
      have hnat : (a.get p).toNat ≠ x.toNat := fun h => hc (UInt8.toNat_inj.mp h)
      constructor
      · intro h
        omega
      · exact fun h => absurd h.1 hc

lemma badVersion_spec (h0 : a.get (n - 1) = 0 ∧ w < n ∨ w + 8 ≤ n) :
    badVersion a w = .ok (decide ¬VersionAt a w) := by
  obtain ⟨d, hd, hiff⟩ := strncmp_spec h0 plain_httpVer
  obtain ⟨d', hd', hiff'⟩ := strncmp_spec h0 plain_httpVerCompatible
  unfold badVersion VersionAt
  rw [hd, ok_bind, hd', ok_bind]
  by_cases h : d = 0
  · rw [if_pos h, decide_eq_false (not_not.mpr (.inl (hiff.mp h)))]
  · rw [if_neg h]
    have hv : a.slice w httpVer.length ≠ httpVer := fun hc => h (hiff.mpr hc)
    simp only [hv, false_or, ← hiff']

/-- What the variables of the loop have to do with the phase. -/
def Tracks (wordStart : ℕ) (hdr : HttpHdr) : Phase → Prop
  | .method => wordStart = 0 ∧ hdr = ⟨none, none, none⟩
  | .uri => hdr.method.isSome ∧ hdr.uri = none ∧ hdr.httpVersion = none
  | .version w => wordStart = w ∧ hdr.method.isSome ∧ hdr.uri.isSome ∧ hdr.httpVersion = none
  | .answered _ => False

def scanStatus : ℤ ⊕ HttpHdr → ℤ
  | .inl code => code
  | .inr hdr => if hdr.httpVersion.isNone then 400 else 200

/-- Every comparison stays in the array: it ends in a zero, or goes on for the length of a version
behind the request. -/
def Bounded (a : Arr n) (length : ℕ) : Prop :=
  length < n ∧ (a.get (n - 1) = 0 ∨ length + httpVer.length ≤ n)
  deriving Decidable

lemma Bounded.word (h : Bounded a length) (hw : w ≤ length) : a.get (n - 1) = 0 ∧ w < n ∨ w + 8 ≤ n := by
  have hlen : httpVer.length = 8 := rfl
  obtain ⟨hl, h0 | hroom⟩ := h
  · exact .inl ⟨h0, by omega⟩
  · exact .inr (by omega)

lemma httpScan_run (hb : Bounded a length) {k i wordStart : ℕ} {hdr : HttpHdr}
    (hk : i + k = length + 1) (hw : wordStart ≤ i) (ht : Tracks wordStart hdr ph) :
    ∃ r, httpScan a length k i wordStart hdr = .ok r ∧ scanStatus r = (Phase.run a length k i ph).status := by
  have hl := hb.1
  induction k generalizing i wordStart hdr ph with
  | zero =>
    refine ⟨_, rfl, ?_⟩
    cases ph with
    | method => obtain ⟨-, rfl⟩ := ht; rfl
    | uri => simp [scanStatus, ht.2.2, Phase.run, Phase.status]
    | version w => simp [scanStatus, ht.2.2.2, Phase.run, Phase.status]
    | answered code => exact ht.elim
  | succ k ih =>
    rw [httpScan, a.rd_ok (by omega), ok_bind]
    dsimp only
    by_cases hs : a.get i = 32 ∨ a.get i = 10 ∨ i = length
    · have hnext : wordStart + (i - wordStart) + 1 = i + 1 := by omega
      have hsep : Separator a i ∨ i = length := or_assoc.mpr hs
      rw [if_pos hs, Phase.run, Phase.next, if_pos hsep, hnext]
      cases ph with
      | method =>
        obtain ⟨rfl, rfl⟩ := ht
        have h0 : a.get (n - 1) = 0 ∧ 0 < n ∨ 0 + httpMethod.length ≤ n :=
          (hb.word (zero_le length)).imp_right fun h => le_trans (by decide) h
        obtain ⟨d, hd, hiff⟩ := strncmp_spec h0 plain_httpMethod
        rw [if_pos (show (none : Option StrPart).isNone = true from rfl), hd, ok_bind, Phase.endWord]
        by_cases hm : d = 0
        · rw [if_neg (not_not.mpr hm), if_pos (hiff.mp hm)]
          exact ih (by omega) (by omega) ⟨rfl, rfl, rfl⟩
        · rw [if_pos hm, if_neg fun h => hm (hiff.mpr h), run_answered]
          exact ⟨_, rfl, rfl⟩
      | uri =>
        obtain ⟨hm, hu, hv⟩ := ht
        rw [if_neg (by simp [Option.isSome_iff_ne_none.mp hm]), if_pos (by simp [hu])]
        exact ih (by omega) (by omega) ⟨rfl, hm, rfl, hv⟩
      | version w =>
        obtain ⟨rfl, hm, hu, hv⟩ := ht
        rw [if_neg (by simp [Option.isSome_iff_ne_none.mp hm]),
          if_neg (by simp [Option.isSome_iff_ne_none.mp hu]), if_pos (by simp [hv]),
          badVersion_spec (hb.word (by omega)), ok_bind, Phase.endWord, run_answered]
        by_cases hva : VersionAt a wordStart
        · rw [if_neg (by simp [hva]), if_pos hva]
          exact ⟨_, rfl, rfl⟩
        · rw [if_pos (by simp [hva]), if_neg hva]
          exact ⟨_, rfl, rfl⟩
      | answered code => exact ht.elim
    · have hsep : ¬Separator a i := fun h => hs (or_assoc.mp (.inl h))
      have hne : i ≠ length := fun h => hs (.inr (.inr h))
      rw [if_neg hs, Phase.run, next_of_not_separator hsep hne]
      exact ih (by omega) (by omega) ht

/-- **`http_parse` answers as the machine does.** -/
theorem httpStatus_eq (hb : Bounded a length) : httpStatus a length = .ok (answerTo a length) := by
  obtain ⟨r, hr, hs⟩ := httpScan_run hb (zero_add _) (le_refl 0)
    (show Tracks 0 ⟨none, none, none⟩ .method from ⟨rfl, rfl⟩)
  rw [httpStatus, hr, ok_bind]
  unfold answerTo phaseAt
  rw [← hs]
  cases r with
  | inl code => rfl
  | inr hdr =>
    simp only [scanStatus]
    split <;> rfl

/-- **`http_parse` stays inside a request buffer that ends in a zero**, and its reply is short. -/
theorem httpParse_ok {m : ℕ} (h0 : a.get (n - 1) = 0) (hl : length < n) (hm : 256 ≤ m) (reply : Arr m) :
    ∃ reply' len, httpParse a length reply = .ok (reply', len) ∧ len < 256 := by
  have hc := httpStatus_eq ⟨hl, .inl h0⟩
  exact ⟨_, _, httpParse_eq hm hc reply, length_replyText (httpStatus_cases hc)⟩

/-- The arrays differ at most between `q` and `r`. -/
def SameOff (q r : ℕ) (a a' : Arr n) : Prop := ∀ k, k < q ∨ r ≤ k → a.get k = a'.get k

lemma literal_before (hlit : Plain lit)
    (hw : w ≤ i) (hs : Separator a i) (h : a.slice w lit.length = lit) : w + lit.length ≤ i := by
  by_contra hlt
  have hget : a.get (w + (i - w)) = lit.getD (i - w) 0 := slice_eq_iff.mp h (i - w) (by omega)
  rw [show w + (i - w) = i by omega, getD_eq_getElem _ _ (by omega)] at hget
  have hmem := (hlit _ (lit.getElem_mem (show i - w < lit.length by omega))).2
  rw [← hget] at hmem
  exact hs.elim hmem.1 hmem.2

lemma literal_congr (hag : ∀ k < q, a.get k = a'.get k)
    (hlit : Plain lit) (hw : w ≤ i) (hi : i < q) (hs : Separator a i) :
    a.slice w lit.length = lit ↔ a'.slice w lit.length = lit := by
  have hs' : Separator a' i := by
    unfold Separator at *
    rwa [← hag i hi]
  constructor
  · intro h
    have hle := literal_before hlit hw hs h
    rw [← slice_congr fun k hk => hag (w + k) (by omega), h]
  · intro h
    have hle := literal_before hlit hw hs' h
    rw [slice_congr fun k hk => hag (w + k) (by omega), h]

def Phase.Begun (i : ℕ) : Phase → Prop
  | .version w => w ≤ i
  | _ => True

lemma begun_next (h : ph.Begun i) : (ph.next a length i).Begun (i + 1) := by
  unfold Phase.next
  split
  · cases ph with
    | method =>
      rw [Phase.endWord]
      split <;> trivial
    | uri => exact le_refl (i + 1)
    | version w | answered code => trivial
  · cases ph with
    | version w => exact le_succ_of_le h
    | method | uri | answered code => trivial

lemma begun_run (h : ph.Begun i) (k : ℕ) : (Phase.run a length k i ph).Begun (i + k) := by
  induction k generalizing i ph with
  | zero => exact h
  | succ k ih =>
    rw [← add_assoc, add_right_comm]
    exact ih (begun_next h)

lemma begun_phaseAt (a : Arr n) (length q : ℕ) : (phaseAt a length q).Begun q := by
  have hb : (Phase.run a length q 0 .method).Begun (0 + q) :=  begun_run (show Phase.Begun 0 .method from trivial) q
  rwa [zero_add] at hb

lemma next_congr (hag : ∀ k < q, a.get k = a'.get k) (hq : q ≤ length) (hi : i < q)
    (hb : ph.Begun i) : ph.next a length i = ph.next a' length i := by
  have hsep : Separator a i ↔ Separator a' i := by
    unfold Separator
    rw [hag i hi]
  unfold Phase.next
  by_cases hs : Separator a i ∨ i = length
  · rw [if_pos hs, if_pos (hs.imp_left hsep.mp)]
    have hs := hs.resolve_right (by omega)
    cases ph with
    | method =>
      have hm := literal_congr hag plain_httpMethod (zero_le i) hi hs
      simp only [Phase.endWord, hm]
    | uri | answered code => rfl
    | version w =>
      have hv := literal_congr hag plain_httpVer hb hi hs
      have hv' := literal_congr hag plain_httpVerCompatible hb hi hs
      have hva : VersionAt a w ↔ VersionAt a' w := or_congr hv hv'
      simp only [Phase.endWord, hva]
  · rw [if_neg hs, if_neg fun h => hs (h.imp_left hsep.mpr)]

lemma run_congr (hag : ∀ k < q, a.get k = a'.get k) (hq : q ≤ length) (hk : i + k ≤ q)
    (hb : ph.Begun i) : Phase.run a length k i ph = Phase.run a' length k i ph := by
  induction k generalizing i ph with
  | zero => rfl
  | succ k ih =>
    rw [Phase.run, Phase.run, ← next_congr hag hq (by omega) hb]
    exact ih (by omega) (begun_next hb)

lemma phaseAt_congr (h : SameOff q length a a') (hq : q ≤ length) : phaseAt a length q = phaseAt a' length q :=
  run_congr (fun k hk => h k (.inl hk)) hq (by omega) trivial

lemma answerTo_split (a : Arr n) (hq : q < length) : answerTo a length =
      (Phase.run a length (length - q + 1) q (phaseAt a length q)).status := by
  unfold answerTo phaseAt
  rw [show length + 1 = q + (length - q + 1) by omega, run_add, zero_add]

lemma status_run_method (h : a.slice 0 httpMethod.length ≠ httpMethod) (k i : ℕ) :
    (Phase.run a length k i .method).status = 400 := by
  induction k generalizing i with
  | zero => rfl
  | succ k ih =>
    rw [Phase.run, Phase.next]
    split
    · rw [Phase.endWord, if_neg h, run_answered]
      rfl
    · exact ih (i + 1)

lemma status_run_two (i : ℕ) : (Phase.run a length 2 i .method).status = 400 := by
  by_cases h : a.slice 0 httpMethod.length = httpMethod
  · simp only [Phase.run, Phase.next]
    by_cases hs : Separator a i ∨ i = length
    · rw [if_pos hs, Phase.endWord, if_pos h]
      split <;> rfl
    · rw [if_neg hs, Phase.endWord, if_pos h]
      split <;> rfl
  · exact status_run_method h 2 i

lemma status_run_version (w : ℕ) (hk : i + k = length) :
    (Phase.run a length (k + 1) i (.version w)).status = if VersionAt a w then 200 else 505 := by
  induction k generalizing i with
  | zero =>
    rw [Phase.run, Phase.next, if_pos (.inr (by omega))]
    rfl
  | succ k ih =>
    rw [Phase.run, Phase.next]
    split
    · rw [Phase.endWord, run_answered]
      rfl
    · exact ih (by omega)

lemma run_word (ph : Phase) (h : ∀ j, i ≤ j → j < i + k → ¬Separator a j)
    (hl : i + k ≤ length) : Phase.run a length k i ph = ph := by
  induction k generalizing i with
  | zero => rfl
  | succ k ih =>
    rw [Phase.run, next_of_not_separator (h i (le_refl i) (by omega)) (by omega)]
    exact ih (fun j h1 h2 => h j (by omega) (by omega)) (by omega)

/-- The request with `c` for every byte from `q` on. -/
def fill (a : Arr n) (q length : ℕ) (c : UInt8) : Arr n :=
  a.splice q (List.replicate (length - q) c)

lemma sameOff_fill (a : Arr n) (q length : ℕ) (c : UInt8) : SameOff q length a (fill a q length c) := by
  intro k hk
  rw [fill, get_splice_outside _ (by simp; omega)]

lemma get_fill (hl : length < n) (h1 : q ≤ k) (h2 : k < length) (c : UInt8) : (fill a q length c).get k = c := by
  rw [fill, get_splice_inside _ (by omega) h1 (by simp; omega), getD_replicate _ (by omega)]

lemma answerTo_fill_word (hq : q < length) (hl : length < n) : answerTo (fill a q length 120) length =
      ((phaseAt a length q).endWord (fill a q length 120) length).status := by
  have hword : ∀ j, q ≤ j → j < q + (length - q) → ¬Separator (fill a q length 120) j := by
    intro j h1 h2 hs
    unfold Separator at hs
    rw [get_fill hl h1 (by omega)] at hs
    revert hs
    decide
  rw [answerTo_split _ hq, ← phaseAt_congr (sameOff_fill a q length 120) (by omega), run_add,
    run_word _ hword (by omega), show q + (length - q) = length by omega, Phase.run, Phase.next,
    if_pos (.inr rfl)]
  rfl

lemma next_fill_blank (hl : length < n) (h1 : q ≤ i) (h2 : i < length) (ph : Phase) :
    ph.next (fill a q length 32) length i = ph.endWord (fill a q length 32) i :=
  if_pos (.inl (.inl (get_fill hl h1 h2 32)))

/-- The first `q` bytes of a request, and what lies in the buffer behind it, decide the answer. -/
def Decided (a : Arr n) (q length : ℕ) : Prop :=
  match phaseAt a length q with
  | .method => a.slice 0 httpMethod.length ≠ httpMethod ∨ length = q + 1
  | .uri => False
  | .version w => w + 8 ≤ q ∨ ∀ v ∈ [httpVer, httpVerCompatible],
      ∃ k < 8, (w + k < q ∨ length ≤ w + k) ∧ a.get (w + k) ≠ v.getD k 0
  | .answered _ => True

lemma versionAt_iff : VersionAt a w ↔ ∃ v ∈ [httpVer, httpVerCompatible], ∀ k < 8, a.get (w + k) = v.getD k 0 := by
  unfold VersionAt
  rw [slice_eq_iff, slice_eq_iff]
  simp only [mem_cons, not_mem_nil, or_false, exists_eq_or_imp, exists_eq_left]
  exact Iff.rfl

lemma answerTo_version (hq : q < length) (hph : phaseAt a length q = .version w)
    (h : SameOff q length a a') : answerTo a' length = if VersionAt a' w then 200 else 505 := by
  rw [answerTo_split a' hq, ← phaseAt_congr h (by omega), hph, status_run_version w (by omega)]

lemma answerTo_of_decided (h3 : httpMethod.length ≤ q) (hq : q < length)
    (hd : Decided a q length) (h : SameOff q length a a') :
    answerTo a' length = answerTo a length := by
  unfold Decided at hd
  cases hph : phaseAt a length q with
  | method =>
    rw [hph] at hd
    rw [answerTo_split a hq, answerTo_split a' hq, ← phaseAt_congr h (by omega), hph]
    rcases hd with hm | rfl
    · have hm' : a'.slice 0 httpMethod.length ≠ httpMethod := by
        rwa [← slice_congr fun k hk => h (0 + k) (by omega)]
      rw [status_run_method hm, status_run_method hm']
    · rw [Nat.add_sub_cancel_left, status_run_two, status_run_two]
  | uri => rw [hph] at hd; exact hd.elim
  | version w =>
    rw [hph] at hd
    rw [answerTo_version hq hph h, answerTo_version hq hph fun _ _ => rfl]
    have hva : VersionAt a' w ↔ VersionAt a w := by
      rw [versionAt_iff, versionAt_iff]
      rcases hd with hle | hno
      · have hget : ∀ k < 8, a.get (w + k) = a'.get (w + k) := fun k hk => h _ (by omega)
        exact exists_congr fun v => and_congr_right fun _ => forall₂_congr fun k hk => by
          rw [hget k hk]
      · refine iff_of_false ?_ ?_
        · rintro ⟨v, hv, hall⟩
          obtain ⟨k, hk, hoff, hne⟩ := hno v hv
          exact hne ((h _ hoff).trans (hall k hk))
        · rintro ⟨v, hv, hall⟩
          obtain ⟨k, hk, -, hne⟩ := hno v hv
          exact hne (hall k hk)
    simp only [hva]
  | answered code =>
    rw [answerTo_split a hq, answerTo_split a' hq, ← phaseAt_congr h (by omega), hph, run_answered, run_answered]

lemma answerTo_fill_blank (hq : q < length) (hl : length < n)
    (h : phaseAt a length q = .uri ∨ phaseAt a length q = .method ∧
      a.slice 0 httpMethod.length = httpMethod ∧ httpMethod.length ≤ q ∧ q + 1 < length) :
    answerTo (fill a q length 32) length ≠ 400 := by
  have hsame := sameOff_fill a q length 32
  rw [answerTo_split _ hq, ← phaseAt_congr hsame (by omega)]
  rcases h with hph | ⟨hph, hm, h3, hlt⟩
  · rw [hph, Phase.run, next_fill_blank hl (le_refl q) hq, Phase.endWord,
      show length - q = length - (q + 1) + 1 by omega, status_run_version _ (by omega)]
    split <;> decide
  · have hm' : (fill a q length 32).slice 0 httpMethod.length = httpMethod := by
      rwa [← slice_congr fun k hk => hsame (0 + k) (by omega)]
    rw [hph, Phase.run, next_fill_blank hl (le_refl q) hq, Phase.endWord, if_pos hm',
      show length - q = length - (q + 2) + 1 + 1 by omega, Phase.run,
      next_fill_blank hl (by omega) hlt, Phase.endWord, status_run_version _ (by omega)]
    split <;> decide

lemma not_versionAt_fill (hw : w ≤ q) (hlt : q < w + 8) (hq : q < length) (hl : length < n) :
    ¬VersionAt (fill a q length 32) w := by
  have hs : Separator (fill a q length 32) q := .inl (get_fill hl (le_refl q) hq 32)
  rintro (h | h)
  · have hle := literal_before plain_httpVer hw hs h
    exact absurd (show w + 8 ≤ q from hle) (by omega)
  · have hle := literal_before plain_httpVerCompatible hw hs h
    exact absurd (show w + 8 ≤ q from hle) (by omega)

lemma exists_versionAt (hl : length < n) (h : ¬∀ v ∈ [httpVer, httpVerCompatible],
      ∃ k < 8, (w + k < q ∨ length ≤ w + k) ∧ a.get (w + k) ≠ v.getD k 0) :
    ∃ a', SameOff q length a a' ∧ VersionAt a' w := by
  push Not at h
  obtain ⟨v, hv, hfits⟩ := h
  have hlen : v.length = 8 := by
    simp only [mem_cons, not_mem_nil, or_false] at hv
    rcases hv with rfl | rfl <;> rfl
  refine ⟨a.splice w v, fun k hk => ?_, versionAt_iff.mpr ⟨v, hv, fun k hk => ?_⟩⟩
  · rw [get_splice]
    split
    · rename_i hin
      rw [← hfits (k - w) (by omega) (by omega), show w + (k - w) = k by omega]
    · rfl
  · by_cases hn : w + k < n
    · rw [get_splice_inside _ hn, Nat.add_sub_cancel_left]
    · rw [← hfits k hk (by omega), get_of_ge _ (by omega), get_of_ge _ (by omega)]

/-- **The first bytes decide the answer** exactly if no other bytes between them and the end of
the request lead to another. -/
theorem decided_iff (h3 : httpMethod.length ≤ q) (hq : q < length) (hl : length < n) :
    (∀ a', SameOff q length a a' → answerTo a' length = answerTo a length) ↔ Decided a q length := by
  refine ⟨fun h => ?_, fun hd a' h => answerTo_of_decided h3 hq hd h⟩
  -- a word that goes on to the end leads to `400`, unless it is the third
  have hword := (h _ (sameOff_fill a q length 120)).symm.trans (answerTo_fill_word hq hl)
  have hblank := h _ (sameOff_fill a q length 32)
  unfold Decided
  cases hph : phaseAt a length q with
  | method =>
    rw [hph] at hword
    by_contra hc
    obtain ⟨hm, hlen⟩ := not_or.mp hc
    refine answerTo_fill_blank hq hl (.inr ⟨hph, not_not.mp hm, h3, by omega⟩) ?_
    rw [hblank, hword, Phase.endWord]
    split <;> rfl
  | uri =>
    rw [hph] at hword
    refine answerTo_fill_blank hq hl (.inl hph) ?_
    rw [hblank, hword]
    rfl
  | version w =>
    have hb := begun_phaseAt a length q
    rw [hph] at hb
    by_contra hc
    obtain ⟨hlt, hno⟩ := not_or.mp hc
    -- a version that fits what is known can be completed, and a blank spoils it
    have hfill := answerTo_version hq hph (sameOff_fill a q length 32)
    rw [if_neg (not_versionAt_fill hb (by omega) hq hl)] at hfill
    obtain ⟨a', hsame, hva⟩ := exists_versionAt hl hno
    have hfull := answerTo_version hq hph hsame
    rw [if_pos hva, h a' hsame, ← hblank, hfill] at hfull
    exact absurd hfull (by decide)
  | answered code => trivial

end Jos.HttpPrefix
