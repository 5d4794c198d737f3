import Jos.HttpPrefix

/-!
The request line of an HTTP request, and what `http_parse` makes of it.

The grammar wants `GET`, any word and a word that begins with a version; the server compares as many
bytes as its literals have, wherever the words end. The two part behind a first word that only begins
with `GET`, and at the end of a request that stops inside a version.
-/

namespace Jos.HttpGrammar

open CArray Http HttpPrefix List Nat Arr

def isSeparator (c : UInt8) : Bool := c = 32 ∨ c = 10

def words (req : List UInt8) : List (List UInt8) := req.splitOnP isSeparator

def BeginsVersion (w : List UInt8) : Prop := httpVer <+: w ∨ httpVerCompatible <+: w
  deriving Decidable

/-- **The status that the grammar of a request line asks for.** -/
def grammar (req : List UInt8) : ℤ :=
  match words req with
  | w₁ :: _ :: w₃ :: _ =>
    if w₁ = httpMethod then if BeginsVersion w₃ then 200 else 505
    else 400
  | _ => 400

section SplitOnP

variable {α : Type} {p : α → Bool} {l w w' : List α} {ws : List (List α)}

lemma splitOnP_cons_cons (h : l.splitOnP p = w :: w' :: ws) :
    ∃ c rest, p c ∧ l = w ++ c :: rest ∧ rest.splitOnP p = w' :: ws := by
  induction l generalizing w with
  | nil => cases h
  | cons x l ih =>
    rw [splitOnP_cons_eq_if_modifyHead] at h
    split_ifs at h with hx
    · obtain ⟨rfl, hl⟩ := cons.inj h
      exact ⟨x, l, hx, rfl, hl⟩
    · cases hl : l.splitOnP p with
      | nil => exact absurd hl (splitOnP_ne_nil _ _)
      | cons v vs =>
        rw [hl, modifyHead_cons] at h
        obtain ⟨rfl, rfl⟩ := cons.inj h
        obtain ⟨c, rest, hc, rfl, hrest⟩ := ih hl
        exact ⟨c, rest, hc, rfl, hrest⟩

lemma splitOnP_singleton (h : l.splitOnP p = [w]) : l = w := by
  induction l generalizing w with
  | nil => cases h; rfl
  | cons x l ih =>
    rw [splitOnP_cons_eq_if_modifyHead] at h
    split_ifs at h with hx
    · exact absurd (cons.inj h).2 (splitOnP_ne_nil _ _)
    · cases hl : l.splitOnP p with
      | nil => exact absurd hl (splitOnP_ne_nil _ _)
      | cons v vs =>
        rw [hl, modifyHead_cons] at h
        obtain ⟨rfl, rfl⟩ := cons.inj h
        rw [ih hl]

end SplitOnP

variable {n : ℕ} {a : Arr n} {length : ℕ} {w₁ u w₃ : List UInt8} {ws : List (List UInt8)}

lemma separator_iff {i : ℕ} : Separator a i ↔ isSeparator (a.get i) := by
  simp [Separator, isSeparator]

/-- The words from position `i` on. -/
def overWords (a : Arr n) : ℕ → List (List UInt8) → Phase → Phase
  | _, [], ph => ph
  | i, w :: ws, ph => overWords a (i + w.length + 1) ws (ph.endWord a (i + w.length))

lemma overWords_answered (i : ℕ) (ws : List (List UInt8)) (code : ℤ) :
    overWords a i ws (.answered code) = .answered code := by
  induction ws generalizing i with
  | nil => rfl
  | cons w ws ih => exact ih _

/-- **The machine goes from word to word.** -/
theorem run_eq_overWords {i k : ℕ} (hk : i + k = length) (ph : Phase) :
    Phase.run a length (k + 1) i ph = overWords a i (words (a.slice i k)) ph := by
  induction k generalizing i ph with
  | zero =>
    rw [Phase.run, Phase.run, Phase.next, if_pos (.inr (by omega))]
    rfl
  | succ k ih =>
    have hslice : a.slice i (k + 1) = a.get i :: a.slice (i + 1) k := by
      rw [add_comm, slice_add]
      rfl
    rw [Phase.run, ih (by omega), hslice, words, words, splitOnP_cons_eq_if_modifyHead, ← words]
    by_cases hs : Separator a i
    · rw [if_pos (separator_iff.mp hs), Phase.next, if_pos (.inl hs)]
      rfl
    · rw [if_neg (mt separator_iff.mpr hs), next_of_not_separator hs (by omega)]
      cases hw : words (a.slice (i + 1) k) with
      | nil => exact absurd hw (splitOnP_ne_nil _ _)
      | cons w ws =>
        rw [modifyHead_cons, overWords, overWords, length_cons, show i + (w.length + 1) = i + 1 + w.length by omega]

def thirdStart (w₁ u : List UInt8) : ℕ := w₁.length + u.length + 2

lemma answerTo_of_three (h : words (a.slice 0 length) = w₁ :: u :: w₃ :: ws) : answerTo a length =
      if a.slice 0 httpMethod.length = httpMethod then
        if VersionAt a (thirdStart w₁ u) then 200 else 505
      else 400 := by
  rw [answerTo, phaseAt, run_eq_overWords (zero_add _), h, overWords, Phase.endWord]
  split_ifs with hm hv
  all_goals
    simp only [overWords, Phase.endWord, overWords_answered, Phase.status]
  all_goals
    rw [show 0 + w₁.length + 1 + u.length + 1 = thirdStart w₁ u by unfold thirdStart; omega]
    simp only [hv, if_true, if_false]

lemma answerTo_of_few (h : (words (a.slice 0 length)).length < 3) : answerTo a length = 400 := by
  rw [answerTo, phaseAt, run_eq_overWords (zero_add _)]
  match hw : words (a.slice 0 length), h with
  | [], _ => rfl
  | [w₁], _ =>
    rw [overWords, overWords, Phase.endWord]
    split <;> rfl
  | [w₁, u], _ =>
    rw [overWords, overWords, overWords, Phase.endWord]
    split <;> rfl

lemma slice_cons_cons {i k : ℕ} {w w' : List UInt8} (h : words (a.slice i k) = w :: w' :: ws) :
    a.slice i w.length = w ∧ Separator a (i + w.length) ∧ w.length < k ∧
      words (a.slice (i + w.length + 1) (k - w.length - 1)) = w' :: ws := by
  obtain ⟨c, rest, hc, hl, hrest⟩ := splitOnP_cons_cons h
  have hlen := congrArg length hl
  rw [length_slice, length_append, length_cons] at hlen
  have hk : k = w.length + (1 + rest.length) := by omega
  rw [hk, slice_add, slice_add] at hl
  obtain ⟨h1, h2⟩ := append_inj hl (length_slice ..)
  obtain ⟨h3, h4⟩ := cons.inj h2
  refine ⟨h1, ?_, by omega, ?_⟩
  · have hget : a.get (i + w.length) = c := h3
    rw [separator_iff, hget]
    exact hc
  · rw [show k - w.length - 1 = rest.length by omega, ← hrest]
    exact congrArg words h4

lemma isPrefix_iff_slice {i : ℕ} {w lit : List UInt8} (hw : a.slice i w.length = w)
    (hlen : lit.length ≤ w.length) : lit <+: w ↔ a.slice i lit.length = lit := by
  rw [prefix_iff_eq_take, ← hw, take_slice _ _ (by simpa using hlen), eq_comm]

lemma isPrefix_iff_of_separator {i : ℕ} {w lit : List UInt8} (hlit : Plain lit)
    (hw : a.slice i w.length = w) (hs : Separator a (i + w.length)) :
    lit <+: w ↔ a.slice i lit.length = lit := by
  constructor
  · intro h
    exact (isPrefix_iff_slice hw h.length_le).mp h
  · intro h
    have := literal_before hlit (le_add_right _ _) hs h
    exact (isPrefix_iff_slice hw (by omega)).mpr h

/-- The words of a request of three words or more, in the buffer. -/
structure Three (a : Arr n) (length : ℕ) (w₁ u w₃ : List UInt8) (ws : List (List UInt8)) : Prop where
  first : a.slice 0 w₁.length = w₁
  firstEnd : Separator a w₁.length
  third : a.slice (thirdStart w₁ u) w₃.length = w₃
  bound : thirdStart w₁ u + w₃.length ≤ length
  thirdEnd : ws ≠ [] → Separator a (thirdStart w₁ u + w₃.length)
  last : ws = [] → thirdStart w₁ u + w₃.length = length

lemma three_of_words (h : words (a.slice 0 length) = w₁ :: u :: w₃ :: ws) : Three a length w₁ u w₃ ws := by
  obtain ⟨h1, hs1, hlt1, hrest⟩ := slice_cons_cons h
  obtain ⟨-, -, hlt2, hrest'⟩ := slice_cons_cons hrest
  rw [zero_add] at hs1
  have hstart : 0 + w₁.length + 1 + u.length + 1 = thirdStart w₁ u := by
    unfold thirdStart
    omega
  rw [hstart] at hrest'
  cases ws with
  | nil =>
    have hl := splitOnP_singleton hrest'
    have hlen := congrArg List.length hl
    rw [length_slice] at hlen
    rw [hlen] at hl
    exact ⟨h1, hs1, hl, by omega, fun h => absurd rfl h, fun _ => by omega⟩
  | cons v vs =>
    obtain ⟨h3, hs3, hlt3, -⟩ := slice_cons_cons hrest'
    exact ⟨h1, hs1, h3, by omega, fun _ => hs3, fun h => by cases h⟩

namespace Three

variable (h : Three a length w₁ u w₃ ws)

include h

lemma method_iff : httpMethod <+: w₁ ↔ a.slice 0 httpMethod.length = httpMethod :=
  isPrefix_iff_of_separator plain_httpMethod h.first (by rw [zero_add]; exact h.firstEnd)

lemma versionAt_of_begins (hb : BeginsVersion w₃) : VersionAt a (thirdStart w₁ u) := by
  refine hb.imp ?_ ?_
  all_goals exact fun hp => (isPrefix_iff_slice h.third hp.length_le).mp hp

lemma begins_of_versionAt (hend : ws = [] → ∀ v ∈ [httpVer, httpVerCompatible], w₃ <+: v → w₃ = v)
    (hv : VersionAt a (thirdStart w₁ u)) : BeginsVersion w₃ := by
  have key : ∀ v ∈ [httpVer, httpVerCompatible], Plain v → a.slice (thirdStart w₁ u) v.length = v → v <+: w₃ := by
    intro v hmem hplain hslice
    by_cases hws : ws = []
    · rcases le_or_gt v.length w₃.length with hle | hlt
      · exact (isPrefix_iff_slice h.third hle).mpr hslice
      · have hpre : w₃ <+: v := (isPrefix_iff_slice hslice hlt.le).mpr h.third
        exact (hend hws v hmem hpre) ▸ prefix_rfl
    · exact (isPrefix_iff_of_separator hplain h.third (h.thirdEnd hws)).mpr hslice
  exact hv.imp (key _ (by simp) plain_httpVer) (key _ (by simp) plain_httpVerCompatible)

end Three

/-- The reply with the status `code`. -/
def answer {m : ℕ} (code : ℤ) (reply : Arr m) : Except Fault (Arr m × ℕ) :=
  httpReply code (if code = 200 then some okPage else none) reply

lemma httpParse_eq_answer {m : ℕ} (hb : Bounded a length) (reply : Arr m) :
    httpParse a length reply = answer (answerTo a length) reply := by
  rw [httpParse, httpStatus_eq hb, ok_bind]
  rfl

set_option maxRecDepth 4000 in
lemma answer_inj {m : ℕ} (hm : 256 ≤ m) {reply : Arr m} {c c' : ℤ} (hc : c = 200 ∨ c = 400 ∨ c = 505)
    (hc' : c' = 200 ∨ c' = 400 ∨ c' = 505) : answer c reply = answer c' reply ↔ c = c' := by
  have hlen : ∀ d : ℤ, d = 200 ∨ d = 400 ∨ d = 505 → ∃ r, answer d reply =
      .ok (r, (replyText d (if d = 200 then some okPage else none)).length) := by
    intro d hd
    have := length_replyText hd
    exact ⟨_, by rw [answer, httpReply, write_ok _ (by simp; omega), ok_bind]⟩
  refine ⟨fun h => ?_, fun h => by rw [h]⟩
  obtain ⟨r, hr⟩ := hlen c hc
  obtain ⟨r', hr'⟩ := hlen c' hc'
  rw [hr, hr', Except.ok.injEq, Prod.mk.injEq] at h
  have hne := h.2
  rcases hc with rfl | rfl | rfl <;> rcases hc' with rfl | rfl | rfl <;> first | rfl | (revert hne; decide)

lemma answerTo_cases (a : Arr n) (length : ℕ) :
    answerTo a length = 200 ∨ answerTo a length = 400 ∨ answerTo a length = 505 := by
  match h : words (a.slice 0 length) with
  | w₁ :: u :: w₃ :: ws =>
    rw [answerTo_of_three h]
    split_ifs <;> simp
  | [] | [w₁] | [w₁, u] => exact .inr (.inl (answerTo_of_few (by simp [h])))

lemma grammar_cases (req : List UInt8) : grammar req = 200 ∨ grammar req = 400 ∨ grammar req = 505 := by
  unfold grammar
  split
  · split_ifs <;> simp
  · simp

/-- A first word that begins with the method is the method, and the bytes behind the request do not make a
version of the third word. -/
def WordsKept (a : Arr n) (length : ℕ) : Prop :=
  match words (a.slice 0 length) with
  | w₁ :: u :: w₃ :: _ =>
    (httpMethod <+: w₁ → w₁ = httpMethod) ∧
      (w₁ = httpMethod → VersionAt a (thirdStart w₁ u) → BeginsVersion w₃)
  | _ => True

instance (a : Arr n) (length : ℕ) : Decidable (WordsKept a length) := by
  unfold WordsKept
  split <;> infer_instance

lemma answerTo_eq_grammar_iff (a : Arr n) (length : ℕ) :
    answerTo a length = grammar (a.slice 0 length) ↔ WordsKept a length := by
  unfold grammar WordsKept
  match hw : words (a.slice 0 length) with
  | [] | [w₁] | [w₁, u] => simp [answerTo_of_few, hw]
  | w₁ :: u :: w₃ :: ws =>
    have h3 := three_of_words hw
    rw [answerTo_of_three hw]
    simp only [← h3.method_iff]
    by_cases heq : w₁ = httpMethod
    · have hpre : httpMethod <+: w₁ := heq ▸ prefix_rfl
      have hv := h3.versionAt_of_begins
      split_ifs <;> simp_all
    · rw [if_neg heq]
      split_ifs <;> simp_all

/-- **`http_parse` answers as the grammar asks exactly for the requests whose words end where its
comparisons do.** -/
theorem http_parse_grammar_iff {m : ℕ} (hb : Bounded a length) (hm : 256 ≤ m) (reply : Arr m) :
    httpParse a length reply = answer (grammar (a.slice 0 length)) reply ↔ WordsKept a length := by
  rw [httpParse_eq_answer hb, answer_inj hm (answerTo_cases a length) (grammar_cases _),
    answerTo_eq_grammar_iff]

def request (text : String) : Arr 32 := Arr.ofList 32 (ascii text)

theorem http_parse_grammar_get :
    WordsKept (request "GET / HTTP/1.1") 14 ∧
      httpParse (request "GET / HTTP/1.1") 14 (Arr.zero 256) = answer 200 (Arr.zero 256) :=
  ⟨by decide, (http_parse_grammar_iff (by decide) le_rfl _).mpr (by decide)⟩

/-- A method that only begins with `GET`. -/
theorem longer_method_accepted :
    grammar ((request "GETX / HTTP/1.1").slice 0 15) = 400 ∧
      httpParse (request "GETX / HTTP/1.1") 15 (Arr.zero 256) = answer 200 (Arr.zero 256) := by
  have hcode : answerTo (request "GETX / HTTP/1.1") 15 = 200 := by decide
  exact ⟨by decide, by rw [httpParse_eq_answer (by decide), hcode]⟩

/-- The request does not stop inside a version. -/
def SelfContained (req : List UInt8) : Prop :=
  match words req with
  | [w₁, _, w₃] => httpMethod <+: w₁ → ∀ v ∈ [httpVer, httpVerCompatible], w₃ <+: v → w₃ = v
  | _ => True

instance (req : List UInt8) : Decidable (SelfContained req) := by
  unfold SelfContained
  split <;> infer_instance

variable {n' : ℕ} {a' : Arr n'}

lemma answerTo_congr (hs : SelfContained (a.slice 0 length)) (h : a'.slice 0 length = a.slice 0 length) :
    answerTo a' length = answerTo a length := by
  match hw : words (a.slice 0 length) with
  | [] | [w₁] | [w₁, u] =>
    have hlt : (words (a.slice 0 length)).length < 3 := by simp [hw]
    rw [answerTo_of_few hlt, answerTo_of_few (h.symm ▸ hlt)]
  | w₁ :: u :: w₃ :: ws =>
    have hw' : words (a'.slice 0 length) = w₁ :: u :: w₃ :: ws := h ▸ hw
    have h3 := three_of_words hw
    have h3' := three_of_words hw'
    rw [answerTo_of_three hw, answerTo_of_three hw']
    simp only [← h3.method_iff, ← h3'.method_iff]
    by_cases hm : httpMethod <+: w₁
    · have hend : ws = [] → ∀ v ∈ [httpVer, httpVerCompatible], w₃ <+: v → w₃ = v := by
        rintro rfl
        unfold SelfContained at hs
        rw [hw] at hs
        exact hs hm
      have hv : VersionAt a (thirdStart w₁ u) ↔ BeginsVersion w₃ :=
        ⟨h3.begins_of_versionAt hend, h3.versionAt_of_begins⟩
      have hv' : VersionAt a' (thirdStart w₁ u) ↔ BeginsVersion w₃ :=
        ⟨h3'.begins_of_versionAt hend, h3'.versionAt_of_begins⟩
      simp only [hv, hv']
    · rw [if_neg hm, if_neg hm]

/-- The request with the bytes `tail` behind it. -/
def withTail (req tail : List UInt8) : Arr (req.length + httpVer.length) := Arr.ofList _ (req ++ tail)

lemma slice_withTail (req tail : List UInt8) : (withTail req tail).slice 0 req.length = req := by
  rw [withTail, slice_ofList _ (by omega) (by simp)]
  simp

lemma bounded_withTail (req tail : List UInt8) : Bounded (withTail req tail) req.length :=
  ⟨Nat.lt_add_of_pos_right (by decide), .inr le_rfl⟩

/-- Behind a request that stops inside a version, the rest of it makes the difference. -/
lemma answers_differ {req : List UInt8} {v : List UInt8} (hw : words req = [w₁, u, w₃])
    (hm : httpMethod <+: w₁) (hmem : v ∈ [httpVer, httpVerCompatible]) (hpre : w₃ <+: v) (hne : w₃ ≠ v) :
    answerTo (withTail req (v.drop w₃.length)) req.length = 200 ∧ answerTo (withTail req []) req.length = 505 := by
  have hlen : v.length = 8 := by
    rcases mem_pair.mp hmem with rfl | rfl <;> rfl
  have hshort : w₃.length < v.length := lt_of_le_of_ne hpre.length_le fun h => hne (hpre.eq_of_length h)
  have hwords : ∀ tail, words ((withTail req tail).slice 0 req.length) = [w₁, u, w₃] := fun tail => by
    rw [slice_withTail, hw]
  have h3 := fun tail => three_of_words (hwords tail)
  have hend : thirdStart w₁ u + w₃.length = req.length := (h3 []).last rfl
  have hmethod := fun tail => (h3 tail).method_iff.mp hm
  rw [answerTo_of_three (hwords _), answerTo_of_three (hwords _), if_pos (hmethod _), if_pos (hmethod _)]
  constructor
  · refine if_pos ?_
    have hslice : (withTail req (v.drop w₃.length)).slice (thirdStart w₁ u) v.length = v := by
      obtain ⟨t, rfl⟩ := hpre
      rw [length_append, slice_add, (h3 _).third, hend, drop_left, withTail,
        slice_ofList _ (by rw [length_append] at hlen; simp [httpVer, ascii]; omega) (by simp)]
      simp
    rcases mem_pair.mp hmem with rfl | rfl
    · exact .inl hslice
    · exact .inr hslice
  · refine if_neg fun hv => ?_
    -- the byte behind the request is a zero
    have hzero : (withTail req []).get req.length = 0 := by
      rw [withTail, get_ofList _ (Nat.lt_add_of_pos_right (by decide)), append_nil]
      simp
    obtain ⟨v', hmem', hget⟩ := versionAt_iff.mp hv
    have := hget w₃.length (by omega)
    rw [hend, hzero] at this
    have hplain : Plain v' := by
      rcases mem_pair.mp hmem' with rfl | rfl
      · exact plain_httpVer
      · exact plain_httpVerCompatible
    have hlen' : v'.length = 8 := by
      rcases mem_pair.mp hmem' with rfl | rfl <;> rfl
    rw [getD_eq_getElem _ _ (by omega)] at this
    exact (hplain _ (getElem_mem _)).1 this.symm

/-- **The reply depends on the request alone exactly if the request does not stop inside a
version.** -/
theorem http_reply_of_request_iff {m : ℕ} (hb : Bounded a length) (hm : 256 ≤ m) (reply : Arr m) :
    (∀ n' (a' : Arr n'), Bounded a' length → a'.slice 0 length = a.slice 0 length →
      httpParse a' length reply = httpParse a length reply) ↔ SelfContained (a.slice 0 length) := by
  constructor
  · generalize hreq : a.slice 0 length = req
    obtain rfl : length = req.length := by rw [← hreq, length_slice]
    intro h
    have key : ∀ tail, answerTo (withTail req tail) req.length = answerTo a req.length := by
      intro tail
      have hbound := bounded_withTail req tail
      have heq := h _ _ hbound (slice_withTail req tail)
      rw [httpParse_eq_answer hbound, httpParse_eq_answer hb] at heq
      exact (answer_inj hm (answerTo_cases _ _) (answerTo_cases _ _)).mp heq
    unfold SelfContained
    split
    · rename_i w₁ u w₃ hw
      intro hget v hmem hpre
      by_contra hne
      obtain ⟨h1, h2⟩ := answers_differ hw hget hmem hpre hne
      rw [key] at h1 h2
      rw [h1] at h2
      cases h2
    · trivial
  · intro hs n' a' hb' hag
    rw [httpParse_eq_answer hb', httpParse_eq_answer hb, answerTo_congr hs hag]

theorem http_reply_of_request_get :
    SelfContained (ascii "GET / HTTP/1.1") ∧
      ∀ n' (a' : Arr n'), Bounded a' 14 → a'.slice 0 14 = (request "GET / HTTP/1.1").slice 0 14 →
        httpParse a' 14 (Arr.zero 256) = httpParse (request "GET / HTTP/1.1") 14 (Arr.zero 256) :=
  ⟨by decide,
    (http_reply_of_request_iff (by decide) le_rfl _).mpr (by decide)⟩

/-- A request that stops before the last digit of its version; what lies behind it is the rest of an
earlier one. -/
theorem stale_byte_accepted :
    (request "GET / HTTP/1.1").slice 0 13 = (request "GET / HTTP/1.").slice 0 13 ∧
      httpParse (request "GET / HTTP/1.1") 13 (Arr.zero 256) = answer 200 (Arr.zero 256) ∧
      httpParse (request "GET / HTTP/1.") 13 (Arr.zero 256) = answer 505 (Arr.zero 256) := by
  have h1 : answerTo (request "GET / HTTP/1.1") 13 = 200 := by decide
  have h2 : answerTo (request "GET / HTTP/1.") 13 = 505 := by decide
  refine ⟨by decide, ?_, ?_⟩
  · rw [httpParse_eq_answer (by decide), h1]
  · rw [httpParse_eq_answer (by decide), h2]

end Jos.HttpGrammar
